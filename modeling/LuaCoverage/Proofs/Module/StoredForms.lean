import LuaCoverage.Module.Cache
import LuaCoverage.Proofs.Document.FaithfulReading

/-!
# Instrumented sources that were stored

The cache of instrumented sources keeps the text of an instrumented source as it is and everything
else as a document. A number of the document that does not fit into 32 bits makes the entry
unreadable, and an unreadable entry counts as none. But nothing else than what was stored is ever
read (`SourceCache.eq_of_read_entryOf`).

This is shown along the parts of an instrumented source, each of which is read faithfully if its own
parts are.

Storing an entry adds this entry and leaves or drops others (`SourceCache.mem_entries_put`), so what
holds of all entries is kept if it holds of the entries that are stored. The entries of other files
all stay (`SourceCache.entriesOf_put_of_ne`). Opening a cache adds none
(`SourceCache.entries_opened`), and a migration leaves none (`SourceCache.migrate_eq`).
-/

set_option autoImplicit false

namespace LuaCoverage

open Json

open Json.Value

/-! ## Instrumented sources -/

theorem SourceMap.faithful : Faithful SourceMap.ofJson? SourceMap.toJson := by
  intro map found reads
  rw [ofJson?, toJson, fields?_own ?own ?distinct] at reads
  case own => rfl
  case distinct => decide
  simp only [List.map_cons, List.map_nil, Option.bind_eq_bind, Option.bind_some,
    required_some] at reads
  obtain ⟨lines, readsLines, reads⟩ := Option.bind_eq_some_iff.mp reads
  obtain rfl := Option.some.inj reads
  obtain rfl := faithful_nat32.list _ _ readsLines
  rfl

theorem Site.faithful : Faithful Site.ofJson? Site.toJson := by
  intro site found reads
  rw [ofJson?, toJson, fields?_own ?own ?distinct] at reads
  case own => rfl
  case distinct => decide
  simp only [List.map_cons, List.map_nil, Option.bind_eq_bind, Option.bind_some,
    required_some] at reads
  obtain ⟨line, readsLine, reads⟩ := Option.bind_eq_some_iff.mp reads
  obtain ⟨block, readsBlock, reads⟩ := Option.bind_eq_some_iff.mp reads
  obtain ⟨continuation, readsContinuation, reads⟩ := Option.bind_eq_some_iff.mp reads
  obtain rfl := Option.some.inj reads
  obtain rfl := faithful_nat32 _ _ readsLine
  obtain rfl := faithful_nat32 _ _ readsBlock
  obtain rfl := faithful_nat32.list _ _ readsContinuation
  rfl

namespace Instrumented

/-- **What an instrumented source holds besides its text is read faithfully.** -/
theorem eq_of_ofMetadata? {out found : Instrumented}
    (reads : ofMetadata? out.text out.metadata = some found) : found = out := by
  rw [ofMetadata?, metadata, fields?_own ?own ?distinct] at reads
  case own => rfl
  case distinct => decide
  simp only [List.map_cons, List.map_nil, Option.bind_eq_bind, Option.bind_some,
    required_some] at reads
  obtain ⟨sourceMap, readsMap, reads⟩ := Option.bind_eq_some_iff.mp reads
  obtain ⟨sites, readsSites, reads⟩ := Option.bind_eq_some_iff.mp reads
  obtain ⟨hitLines, readsHits, reads⟩ := Option.bind_eq_some_iff.mp reads
  obtain ⟨functionLines, readsFunctions, reads⟩ := Option.bind_eq_some_iff.mp reads
  obtain rfl := Option.some.inj reads
  obtain rfl := SourceMap.faithful _ _ readsMap
  obtain rfl := Site.faithful.list _ _ readsSites
  obtain rfl := faithful_numbers _ _ readsHits
  obtain rfl := faithful_numbers _ _ readsFunctions
  rfl

theorem canonical_metadata (out : Instrumented) : Canonical out.metadata := by
  have site (site : Site) : Canonical site.toJson := by
    refine .ofMembers ?_
    simp only [List.forall_mem_cons, List.not_mem_nil, false_implies, implies_true, and_true]
    exact ⟨.ofNat _, .ofNat _, .ofList .ofNat _⟩
  have sourceMap : Canonical out.sourceMap.toJson := by
    refine .ofMembers ?_
    simp only [List.forall_mem_cons, List.not_mem_nil, false_implies, implies_true, and_true]
    exact .ofList .ofNat _
  refine .ofMembers ?_
  simp only [List.forall_mem_cons, List.not_mem_nil, false_implies, implies_true, and_true]
  exact ⟨sourceMap, .ofList site _, .numbersToJson _, .numbersToJson _⟩

end Instrumented

/-! ## Entries -/

namespace SourceCache

variable {cache : SourceCache} {key : CacheKey} {out : Instrumented}

/-- **Nothing else than what was stored is read.** -/
theorem eq_of_read_entryOf {found : Instrumented} (reads : read (entryOf key out) = .ok found) :
    found = out := by
  have parsed : parse out.metadata.render = some out.metadata :=
    parse_renderIn .compact out.canonical_metadata
  unfold SourceCache.read at reads
  simp only [entryOf, parsed, Option.bind_some] at reads
  split at reads
  · rename_i other meant
    obtain rfl := Except.ok.inj reads
    exact Instrumented.eq_of_ofMetadata? meant
  · cases reads

/-- Reading an entry does not depend on its key. -/
theorem read_entryOf_congr (key key' : CacheKey) (out : Instrumented) :
    SourceCache.read (entryOf key out) = SourceCache.read (entryOf key' out) := by
  simp only [SourceCache.read, entryOf]

/-- What is found under a key was read from an entry that has it. -/
theorem exists_entry_of_get? (found : cache.get? key = .ok (some out)) :
    ∃ entry ∈ cache.entries, entry.key = key ∧ read entry = .ok out := by
  unfold get? at found
  split at found
  · cases found
  · rename_i entry isFound
    cases reads : read entry with
    | error problem =>
        rw [reads] at found
        cases found
    | ok other =>
        rw [reads] at found
        obtain rfl := Option.some.inj (Except.ok.inj found)
        exact ⟨entry, List.mem_of_find?_eq_some isFound,
          eq_of_beq (List.find?_some isFound :), reads⟩

/-- Storing adds one entry. -/
theorem mem_entries_put {entry : CacheEntry} (member : entry ∈ (cache.put key out).entries) :
    entry ∈ cache.entries ∨ entry = entryOf key out := by
  rcases List.mem_append.mp member with survives | stored
  · exact .inl (List.mem_filter.mp survives).1
  · exact .inr (List.mem_singleton.mp stored)

/-- What was stored last under a key is what is read under it. -/
theorem get?_put (cache : SourceCache) (key : CacheKey) (out : Instrumented) :
    (cache.put key out).get? key = (read (entryOf key out)).map some := by
  have others : (cache.entries.filter (survives key)).find? (fun entry => entry.key == key) =
      none := by
    refine List.find?_eq_none.mpr fun entry member same => ?_
    have remains := (List.mem_filter.mp member).2
    rw [survives, bne, same] at remains
    cases remains
  have found : (cache.put key out).entries.find? (fun entry => entry.key == key) =
      some (entryOf key out) := by
    rw [put, List.find?_append, others, Option.none_or, List.find?_cons, entryOf, beq_self_eq_true]
  rw [get?, found]

/-- A form that can be read under one key is read under the key that it was stored under. -/
theorem get?_put_of_reads {cache : SourceCache} {key key' : CacheKey} {out : Instrumented}
    (reads : read (entryOf key' out) = .ok out) :
    (cache.put key out).get? key = .ok (some out) := by
  rw [get?_put, read_entryOf_congr key key', reads]
  rfl

/-- The entries of a cache that belong to a file. -/
def entriesOf (cache : SourceCache) (path : String) : List CacheEntry :=
  cache.entries.filter fun entry => entry.key.path == path

/-- Storing the form of one file leaves the entries of others alone. -/
theorem entriesOf_put_of_ne {path : String} (cache : SourceCache) {key : CacheKey}
    (apart : key.path ≠ path) (out : Instrumented) :
    (cache.put key out).entriesOf path = cache.entriesOf path := by
  have stored : ((entryOf key out).key.path == path) = false := beq_false_of_ne apart
  have survivors : ∀ entry ∈ cache.entries,
      (entry.key.path == path && survives key entry) = (entry.key.path == path) := by
    intro entry _
    cases own : entry.key.path == path with
    | false => rfl
    | true =>
        have elsewhere : entry.key.path ≠ key.path := fun same =>
          apart (same.symm.trans (eq_of_beq own))
        have other : entry.key ≠ key := fun same => elsewhere (congrArg CacheKey.path same)
        rw [survives, bne_iff_ne.mpr other, bne_iff_ne.mpr elsewhere]
        rfl
  rw [entriesOf, put, List.filter_append, List.filter_cons, stored, List.filter_filter]
  exact (List.append_nil _).trans (List.filter_congr survivors)

/-- What is found under a key depends on the entries of its file. -/
theorem get?_congr {other : SourceCache} {key : CacheKey}
    (same : other.entriesOf key.path = cache.entriesOf key.path) :
    other.get? key = cache.get? key := by
  have found : ∀ cache : SourceCache, cache.entries.find? (fun entry => entry.key == key) =
      (cache.entriesOf key.path).find? fun entry => entry.key == key := by
    intro cache
    rw [entriesOf, List.find?_filter]
    refine congrArg (List.find? · cache.entries) (funext fun entry => ?_)
    cases isKey : entry.key == key with
    | false => simp
    | true => simp [eq_of_beq isKey]
  rw [get?, get?, found, found cache, same]

/-- **A migration leaves no entry** and ends at the present version. -/
theorem migrate_eq {found : Nat} (older : found < schemaVersion) :
    cache.migrate found = { entries := [], version := some (schemaVersion : Int) } := by
  induction steps : schemaVersion - found generalizing cache found with
  | zero => omega
  | succ rest ih =>
      rw [migrate, if_pos older]
      by_cases last : found + 1 = schemaVersion
      · rw [migrate, if_neg (by omega), last]
        rfl
      · exact ih (by omega) (by omega)

/-- Opening a cache adds no entries. -/
theorem entries_opened {next : SourceCache} (opens : cache.opened = .ok next) :
    next.entries ⊆ cache.entries := by
  unfold opened at opens
  split at opens
  · obtain rfl := Except.ok.inj opens
    exact List.Subset.refl _
  · cases opens
  · split at opens
    · cases opens
    · split at opens
      · obtain rfl := Except.ok.inj opens
        exact List.Subset.refl _
      · split at opens
        · cases opens
        · obtain rfl := Except.ok.inj opens
          rw [migrate_eq (by omega)]
          exact List.nil_subset _

end SourceCache

end LuaCoverage
