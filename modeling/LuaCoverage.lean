import LuaCoverage.Main
import LuaCoverage.Proofs.Block.ArrivalOrder
import LuaCoverage.Proofs.Syntax.Lexemes
import LuaCoverage.Proofs.Syntax.Reading
import LuaCoverage.Proofs.Analysis.OutlinePlaces
import LuaCoverage.Proofs.Instrument.LineMaps
import LuaCoverage.Proofs.Instrument.Weaving
import LuaCoverage.Proofs.Analysis.ParsedSource
import LuaCoverage.Proofs.Instrument.WovenRows
import LuaCoverage.Proofs.Instrument.Calls
import LuaCoverage.Proofs.Instrument.Faithful
import LuaCoverage.Proofs.Analysis.MarkedLines
import LuaCoverage.Proofs.Instrument.HitLines
import LuaCoverage.Proofs.Store.Contradictions
import LuaCoverage.Proofs.Store.ShardedHits
import LuaCoverage.Proofs.Session.TracedRun
import LuaCoverage.Proofs.Store.Retention
import LuaCoverage.Proofs.Store.HitAgreement
import LuaCoverage.Proofs.Store.IndexFreshness
import LuaCoverage.Proofs.Session.LateSources
import LuaCoverage.Proofs.Session.AdoptedForms
import LuaCoverage.Proofs.Module.FreshAnswers
import LuaCoverage.Proofs.Module.Nesting
import LuaCoverage.Proofs.Session.NewRuns
import LuaCoverage.Proofs.Analysis.LineAgreement
import LuaCoverage.Proofs.Session.RejectedFiles
import LuaCoverage.Proofs.Session.InstrumentedRun
import LuaCoverage.Proofs.Store.PickedArms
import LuaCoverage.Proofs.Store.LineHits
import LuaCoverage.Proofs.Session.CalledFunctions
import LuaCoverage.Proofs.Instrument.BodyLines
import LuaCoverage.Proofs.Session.ClearedMarks
import LuaCoverage.Proofs.Instrument.SiteCalls
import LuaCoverage.Proofs.Analysis.UnrepairedTables
import LuaCoverage.Proofs.Block.ReportedRepairs
import LuaCoverage.Proofs.Module.RequiredFiles
import LuaCoverage.Proofs.Analysis.FragmentScans
import LuaCoverage.Proofs.Analysis.RankedMarks
import LuaCoverage.Proofs.Path.CanonicalKeys
import LuaCoverage.Proofs.Instrument.LiteralReading
import LuaCoverage.Proofs.Module.CacheHistories
import LuaCoverage.Proofs.Report.MissedRanges
import LuaCoverage.Proofs.Instrument.LineLookups
