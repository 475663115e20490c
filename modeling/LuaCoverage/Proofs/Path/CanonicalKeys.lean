import LuaCoverage.Proofs.Module.LoadSteps

/-!
# Canonical keys

A key is made from the names that are left of a path once its segments are folded, and its own
segments are just these names (`foldSegments_ofSegments`). Whatever the path and the root were, a
key therefore begins with a slash, has no segment that folding would drop and ends with a slash only
at the top (`isFolded_normalChars`), and making a key of a key can only do one more thing: turn its
backslashes into slashes. A key is a fixed point exactly if it has none (`isKey_normalChars_iff`).

The backslashes of a path become slashes before it is joined to the root, those of the root do not.
So a key is canonical if the path is absolute or the root has no backslash. Then the path, the key
and the path behind the root all get this key, in every way in which a host names a file
(`normalize_isKey`). A root with a backslash gives keys that are taken for other files when they
come back (`normalize_backslash`).
-/

set_option autoImplicit false

namespace LuaCoverage.Path

/-! ## Segments -/

/-- Whether a segment names a directory or a file. -/
def IsName (segment : List Char) : Prop :=
  segment ≠ [] ∧ segment ≠ ['.'] ∧ segment ≠ ['.', '.']

/-- A segment is a stretch of its path without a slash. -/
theorem of_mem_segments {path segment : List Char} (member : segment ∈ segments path) :
    '/' ∉ segment ∧ segment ⊆ path := by
  induction path generalizing segment with
  | nil =>
      rw [segments, List.splitOn_nil, List.mem_singleton] at member
      subst member
      exact ⟨List.not_mem_nil, List.nil_subset _⟩
  | cons char rest ih =>
      rw [segments, List.splitOn_cons_eq_if_modifyHead] at member
      obtain ⟨first, others, isRest⟩ := List.exists_cons_of_ne_nil (List.splitOn_ne_nil '/' rest)
      have inRest : ∀ other ∈ first :: others, '/' ∉ other ∧ other ⊆ rest := fun other inside =>
        ih (by rwa [segments, isRest])
      rw [isRest, List.modifyHead_cons] at member
      split at member
      · rcases List.mem_cons.mp member with rfl | later
        · exact ⟨List.not_mem_nil, List.nil_subset _⟩
        · obtain ⟨free, inside⟩ := inRest segment later
          exact ⟨free, fun _ there => List.mem_cons_of_mem _ (inside there)⟩
      · rename_i noSlash
        rcases List.mem_cons.mp member with rfl | later
        · obtain ⟨free, inside⟩ := inRest first List.mem_cons_self
          refine ⟨?_, List.cons_subset_cons char inside⟩
          rw [List.mem_cons, not_or]
          exact ⟨fun same => noSlash (beq_iff_eq.mpr same.symm), free⟩
        · obtain ⟨free, inside⟩ := inRest segment (List.mem_cons_of_mem _ later)
          exact ⟨free, fun _ there => List.mem_cons_of_mem _ (inside there)⟩

/-- The segments of two paths that a slash joins. -/
theorem segments_append (first later : List Char) :
    segments (first ++ '/' :: later) = segments first ++ segments later :=
  List.splitOn_append_cons_self first later

theorem segments_slash (path : List Char) : segments ('/' :: path) = [] :: segments path :=
  segments_append [] path

/-- The characters of a path with given segments stand in these, the slashes apart. -/
theorem mem_ofSegments {parts : List (List Char)} {char : Char} (member : char ∈ ofSegments parts) :
    char = '/' ∨ ∃ part ∈ parts, char ∈ part := by
  rcases List.mem_cons.mp member with slash | member
  · exact .inl slash
  · induction parts with
    | nil => exact absurd member List.not_mem_nil
    | cons first rest ih =>
        have further : char ∈ ['/'].intercalate rest →
            char = '/' ∨ ∃ part ∈ first :: rest, char ∈ part := fun later =>
          (ih (List.mem_cons_of_mem _ later) later).imp_right fun ⟨part, isPart, there⟩ =>
            ⟨part, List.mem_cons_of_mem _ isPart, there⟩
        by_cases last : rest = []
        · rw [last, List.intercalate_singleton] at member
          exact .inr ⟨first, List.mem_cons_self, member⟩
        · rw [List.intercalate_cons_of_ne_nil last, List.mem_append, List.mem_append,
            List.mem_singleton] at member
          rcases member with (inFirst | slash) | later
          · exact .inr ⟨first, List.mem_cons_self, inFirst⟩
          · exact .inl slash
          · exact further later

/-! ## Folding -/

theorem of_mem_foldl_foldSegment {all folded : List (List Char)} {segment : List Char}
    (member : segment ∈ all.foldl foldSegment folded) :
    segment ∈ folded ∨ segment ∈ all ∧ IsName segment := by
  induction all generalizing folded with
  | nil => exact .inl member
  | cons first rest ih =>
      rcases ih member with before | ⟨later, isName⟩
      · unfold foldSegment at before
        split at before
        · exact .inl before
        · rename_i visible
          split at before
          · exact .inl (List.mem_of_mem_tail before)
          · rename_i notUp
            rcases List.mem_cons.mp before with rfl | old
            · rw [not_or] at visible
              exact .inr ⟨List.mem_cons_self, visible.1, visible.2, notUp⟩
            · exact .inl old
      · exact .inr ⟨List.mem_cons_of_mem _ later, isName⟩

/-- What is left of a path are names that stand in it. -/
theorem of_mem_foldSegments {path segment : List Char} (member : segment ∈ foldSegments path) :
    segment ∈ segments path ∧ IsName segment :=
  (of_mem_foldl_foldSegment (List.mem_reverse.mp member)).resolve_left List.not_mem_nil

/-- Names are all kept. -/
theorem foldl_foldSegment_names {parts : List (List Char)} (names : ∀ part ∈ parts, IsName part)
    (folded : List (List Char)) : parts.foldl foldSegment folded = parts.reverse ++ folded := by
  induction parts generalizing folded with
  | nil => rfl
  | cons first rest ih =>
      obtain ⟨filled, notHere, notUp⟩ := names first List.mem_cons_self
      have kept : foldSegment folded first = first :: folded := by
        rw [foldSegment, if_neg (not_or.mpr ⟨filled, notHere⟩), if_neg notUp]
      rw [List.foldl_cons, kept, ih fun part member => names part (List.mem_cons_of_mem _ member),
        List.reverse_cons, List.append_assoc, List.singleton_append]

/-- **The names of a path are what its own path is folded to.** -/
theorem foldSegments_ofSegments {parts : List (List Char)}
    (names : ∀ part ∈ parts, IsName part) (free : ∀ part ∈ parts, '/' ∉ part) :
    foldSegments (ofSegments parts) = parts := by
  have skips (folded : List (List Char)) : foldSegment folded [] = folded := if_pos (.inl rfl)
  rw [foldSegments, ofSegments, segments_slash, List.foldl_cons, skips]
  by_cases top : parts = []
  · subst top
    rw [List.intercalate_nil, segments, List.splitOn_nil, List.foldl_cons, skips]
    rfl
  · rw [segments, List.splitOn_intercalate '/' free top, foldl_foldSegment_names names,
      List.append_nil, List.reverse_reverse]

/-! ## Backslashes -/

theorem not_mem_forwardSlashes (path : List Char) : '\\' ∉ forwardSlashes path := by
  intro member
  obtain ⟨char, -, same⟩ := List.mem_map.mp member
  split at same
  · exact absurd same (by decide)
  · rename_i other
    exact other same

theorem forwardSlashes_eq_self {path : List Char} (plain : '\\' ∉ path) :
    forwardSlashes path = path := by
  refine (List.map_congr_left fun char member => if_neg ?_).trans (List.map_id' path)
  exact fun same => plain (same ▸ member)

theorem forwardSlashes_append (first later : List Char) :
    forwardSlashes (first ++ later) = forwardSlashes first ++ forwardSlashes later :=
  List.map_append

/-- Converting backslashes does not take the slash from the beginning of a path. -/
theorem isAbsolute_forwardSlashes {path : List Char} (absolute : isAbsolute path = true) :
    isAbsolute (forwardSlashes path) = true := by
  cases path with
  | nil => cases absolute
  | cons first rest =>
      obtain rfl : first = '/' := Option.some.inj (beq_iff_eq.mp absolute)
      rfl

/-! ## Keys -/

/-- Whether folding leaves a path as it is. -/
structure IsFolded (key : List Char) : Prop where
  begins : key.head? = some '/'
  names : key ≠ ['/'] → ∀ segment ∈ segments key.tail, IsName segment
  ends : key ≠ ['/'] → key.getLast? ≠ some '/'

/-- Whether a path is written as the keys of files are. -/
structure IsKey (key : List Char) : Prop extends IsFolded key where
  plain : '\\' ∉ key

/-- The names that the key of a path is made from. -/
def keyNames (root path : List Char) : List (List Char) :=
  foldSegments (joined root (forwardSlashes path))

theorem of_mem_keyNames {root path name : List Char} (member : name ∈ keyNames root path) :
    IsName name ∧ '/' ∉ name :=
  ⟨(of_mem_foldSegments member).2, (of_mem_segments (of_mem_foldSegments member).1).1⟩

theorem foldSegments_normalChars (root path : List Char) :
    foldSegments (normalChars root path) = keyNames root path :=
  foldSegments_ofSegments (fun _ member => (of_mem_keyNames member).1)
    fun _ member => (of_mem_keyNames member).2

/-- **Every key is folded**, whatever the root is. -/
theorem isFolded_normalChars (root path : List Char) : IsFolded (normalChars root path) := by
  have isChars : normalChars root path = '/' :: ['/'].intercalate (keyNames root path) := rfl
  have names : normalChars root path ≠ ['/'] →
      segments (normalChars root path).tail = keyNames root path := by
    intro below
    refine List.splitOn_intercalate '/' (fun _ member => (of_mem_keyNames member).2) fun top => ?_
    exact below (isChars.trans (by rw [show keyNames root path = [] from top]; rfl))
  refine ⟨rfl, fun below segment member => ?_, fun below isLast => ?_⟩
  · rw [names below] at member
    exact (of_mem_keyNames member).1
  · -- a path that ends with a slash has an empty last segment
    obtain ⟨front, isFront⟩ := List.getLast?_eq_some_iff.mp isLast
    cases front with
    | nil => exact below isFront
    | cons slash front =>
        have isTail : (normalChars root path).tail = front ++ '/' :: [] := by
          rw [isFront]
          rfl
        have isEmpty : [] ∈ keyNames root path := by
          rw [← names below, isTail, segments_append, segments, segments, List.splitOn_nil]
          exact List.mem_append_right _ List.mem_cons_self
        exact (of_mem_keyNames isEmpty).1.1 rfl

/-- A key holds what the path and the root from which it is taken hold. -/
theorem plain_normalChars {root path : List Char}
    (plain : '\\' ∉ joined root (forwardSlashes path)) : '\\' ∉ normalChars root path := by
  intro member
  rcases mem_ofSegments member with slash | ⟨name, isName, there⟩
  · exact absurd slash (by decide)
  · exact plain ((of_mem_segments (of_mem_foldSegments isName).1).2 there)

theorem plain_joined {root path : List Char}
    (apart : isAbsolute (forwardSlashes path) = true ∨ '\\' ∉ root) :
    '\\' ∉ joined root (forwardSlashes path) := by
  unfold joined
  split
  · exact not_mem_forwardSlashes path
  · rename_i relative
    have plain := apart.resolve_left relative
    rw [List.mem_append, List.mem_cons]
    rintro (inRoot | slash | inPath)
    · exact plain inRoot
    · exact absurd slash (by decide)
    · exact not_mem_forwardSlashes path inPath

/-- Making a key of an absolute path does not depend on the root. -/
theorem normalChars_of_isAbsolute {path : List Char} (absolute : isAbsolute path = true)
    (other : List Char) :
    normalChars other path = ofSegments (foldSegments (forwardSlashes path)) := by
  rw [normalChars, joined, if_pos (isAbsolute_forwardSlashes absolute)]

/-- **A key is canonical exactly if making a key of it changes nothing.** -/
theorem isKey_normalChars_iff (root path : List Char) :
    IsKey (normalChars root path) ↔
      ∀ other, normalChars other (normalChars root path) = normalChars root path := by
  have again (other : List Char) : normalChars other (normalChars root path) =
      ofSegments (foldSegments (forwardSlashes (normalChars root path))) :=
    normalChars_of_isAbsolute rfl other
  constructor
  · intro isKey other
    rw [again, forwardSlashes_eq_self isKey.plain, foldSegments_normalChars]
    rfl
  · intro fixed
    refine ⟨isFolded_normalChars root path, ?_⟩
    rw [← fixed root]
    refine plain_normalChars (plain_joined (.inl (isAbsolute_forwardSlashes rfl)))

/-- The key of a path from a root is the key of the path behind the root. -/
theorem normalChars_append {root path : List Char} (absolute : isAbsolute root = true)
    (plain : '\\' ∉ root) (relative : isAbsolute (forwardSlashes path) = false)
    (other : List Char) : normalChars other (root ++ '/' :: path) = normalChars root path := by
  have begins : isAbsolute (root ++ '/' :: path) = true := by
    cases root with
    | nil => cases absolute
    | cons first rest => exact absolute
  have slashes : forwardSlashes (root ++ '/' :: path) = root ++ '/' :: forwardSlashes path := by
    rw [forwardSlashes_append, forwardSlashes_eq_self plain]
    rfl
  rw [normalChars_of_isAbsolute begins, slashes, normalChars, joined, if_neg (by simp [relative])]

/-! ## Names of files -/

/-- The path that a template gives for the name of a module. -/
def spelled (template name : String) : String :=
  String.ofList (LoaderRules.replaced '?' (LoaderRules.replaced '.' ['/'] name.toList)
    template.toList)

/-- Whether every way in which a host names a file by a path under a root gives it a key: as the
name of a chunk, in the frame of a call stack (with or without the mark of a chunk), where a module
is looked for, and when the file is run. The loader that runs it keeps every file under its own
path. -/
structure NamesGet (root path key : String) : Prop where
  chunk : path ≠ "" → ofSourceId root ("@" ++ path) = .ok key
  marked : ∀ session : Session, session.recording.rules.root = root → path ≠ "" →
    session.frameFile? ("@" ++ path) = some key
  frame : ∀ session : Session, session.recording.rules.root = root →
    path.toList.head? ≠ some '@' → path.toList.head? ≠ some '=' →
    session.frameFile? path = some key
  module : ∀ (rules : LoaderRules) (name template : String) (place : Nat), rules.root = root →
    rules.templates[place]? = some template → spelled template name = path →
    (rules.candidates name)[place]? = some key
  run : ∀ (loader : Loader) (sources : PathMap String), loader.rules.root = root →
    loader.CacheSound → (loader.loadFile sources path).2.path? = sources[key]?.map fun _ => key

theorem toList_marked (path : String) : ("@" ++ path).toList = '@' :: path.toList := by
  rw [String.toList_append]
  rfl

theorem ofSourceId_marked (root : String) {path : String} (named : path ≠ "") :
    ofSourceId root ("@" ++ path) = .ok (normalize root path) := by
  obtain ⟨first, rest, isPath⟩ := List.exists_cons_of_ne_nil (mt String.toList_eq_nil_iff.mp named)
  unfold ofSourceId
  rw [toList_marked, isPath]
  simp only
  rw [← isPath, String.ofList_toList]

theorem frameFile?_marked {session : Session} {path : String} (named : path ≠ "") :
    session.frameFile? ("@" ++ path) = some (normalize session.recording.rules.root path) := by
  unfold Session.frameFile?
  rw [toList_marked, List.head?_cons]
  simp only [ofSourceId_marked _ named]
  rfl

theorem frameFile?_unmarked {session : Session} {path : String}
    (noChunk : path.toList.head? ≠ some '@') (noName : path.toList.head? ≠ some '=') :
    session.frameFile? path = some (normalize session.recording.rules.root path) := by
  unfold Session.frameFile?
  split
  · exact absurd ‹_› noChunk
  · exact absurd ‹_› noName
  · rfl

/-- A load that finds a file answers with its path. -/
theorem path?_loadFound {loader : Loader} (sound : loader.CacheSound) (sources : PathMap String)
    (name path : String) :
    (loader.loadFound sources name path).2.path? = sources[path]?.map fun _ => path := by
  obtain ⟨steps, cached⟩ := Loader.loads_loadFound sources loader name path
  have isPath : ∀ loaded, (loader.loadFound sources name path).2 = .instrumented loaded →
      loaded.path = path := by
    intro loaded answered
    obtain ⟨-, -, -, isCached⟩ := cached loaded answered
    exact (steps.cacheSound sound _ _ isCached).1
  unfold Loader.loadFound at isPath ⊢
  split
  · rename_i missing
    rw [missing]
    rfl
  · rename_i text readable
    rw [readable] at isPath ⊢
    simp only at isPath
    split
    · rfl
    · rename_i tracked
      rw [if_neg tracked] at isPath
      split
      · rename_i next loaded same
        rw [same] at isPath
        exact congrArg some (isPath loaded rfl)
      · rfl

/-- **All ways in which a host names a file by a path give it the key of the path.** -/
theorem namesGet_normalize (root path : String) : NamesGet root path (normalize root path) where
  chunk := ofSourceId_marked root
  marked := by
    rintro session rfl named
    exact frameFile?_marked named
  frame := by
    rintro session rfl noChunk noName
    exact frameFile?_unmarked noChunk noName
  module := by
    rintro rules name template place rfl isTemplate rfl
    rw [LoaderRules.candidates, List.getElem?_map, isTemplate]
    rfl
  run := by
    rintro loader sources rfl sound
    exact path?_loadFound sound sources _ _

/-! ## One file, one key -/

theorem toList_normalize (root path : String) :
    (normalize root path).toList = normalChars root.toList path.toList := String.toList_ofList

theorem normalize_eq_of_chars {root other path path' : String}
    (same : normalChars other.toList path'.toList = normalChars root.toList path.toList) :
    normalize other path' = normalize root path := congrArg String.ofList same

/-- **A file has one canonical key**, under an absolute root that has no backslash or if its path is
absolute. Making a key of the key changes nothing under any root, a relative path gets the key of
the path behind the root, and in each of these spellings every way of naming the file gives this
key. -/
theorem normalize_isKey {root path : String} (absolute : isAbsolute root.toList = true)
    (apart : isAbsolute (forwardSlashes path.toList) = true ∨ '\\' ∉ root.toList) :
    IsKey (normalize root path).toList ∧
    (∀ other, normalize other (normalize root path) = normalize root path) ∧
    NamesGet root path (normalize root path) ∧
    NamesGet root (normalize root path) (normalize root path) ∧
    (isAbsolute (forwardSlashes path.toList) = false →
      (∀ other, normalize other (root ++ "/" ++ path) = normalize root path) ∧
      NamesGet root (root ++ "/" ++ path) (normalize root path)) := by
  have isKey : IsKey (normalChars root.toList path.toList) :=
    ⟨isFolded_normalChars _ _, plain_normalChars (plain_joined apart)⟩
  have fixed : ∀ other, normalize other (normalize root path) = normalize root path := fun other =>
    normalize_eq_of_chars (by
      rw [toList_normalize]
      exact (isKey_normalChars_iff _ _).mp isKey _)
  have again := namesGet_normalize root (normalize root path)
  rw [fixed root] at again
  refine ⟨by rwa [toList_normalize], fixed, namesGet_normalize root path, again, fun relative => ?_⟩
  have plain := apart.resolve_left (by rw [relative]; exact Bool.false_ne_true)
  have behind : ∀ other, normalize other (root ++ "/" ++ path) = normalize root path := by
    refine fun other => normalize_eq_of_chars ?_
    rw [String.toList_append, String.toList_append, List.append_assoc]
    exact normalChars_append absolute plain relative _
  have named := namesGet_normalize root (root ++ "/" ++ path)
  rw [behind root] at named
  exact ⟨behind, named⟩

/-- A path with separators of both kinds, with empty segments and dots, and with more ways up than
there are directories. -/
theorem normalize_isKey_spellings :
    let path := ".\\..\\../..//src\\.//a.lua"
    isAbsolute "/p//q/".toList = true ∧ '\\' ∉ "/p//q/".toList ∧
    isAbsolute (forwardSlashes path.toList) = false ∧ normalize "/p//q/" path = "/src/a.lua" ∧
    IsKey "/src/a.lua".toList ∧ normalize "/r\\s" "/src/a.lua" = "/src/a.lua" ∧
    NamesGet "/p//q/" path "/src/a.lua" ∧ NamesGet "/p//q/" "/src/a.lua" "/src/a.lua" ∧
    normalize "x" ("/p//q/" ++ "/" ++ path) = "/src/a.lua" ∧
    NamesGet "/p//q/" ("/p//q/" ++ "/" ++ path) "/src/a.lua" := by
  intro path
  have relative : isAbsolute (forwardSlashes path.toList) = false := by decide
  have key : normalize "/p//q/" path = "/src/a.lua" := by decide +kernel
  obtain ⟨isKey, fixed, named, again, behind⟩ :=
    @normalize_isKey "/p//q/" path (by decide) (.inr (by decide))
  rw [key] at isKey fixed named again behind
  exact ⟨by decide, by decide, relative, key, isKey, fixed _, named, again, (behind relative).1 _,
    (behind relative).2⟩

/-- **Under a root with a backslash a key is not canonical**: it has a backslash, it gets another
key when it comes back, and so does the path behind the root. -/
theorem normalize_backslash :
    isAbsolute "/a\\b".toList = true ∧ normalize "/a\\b" "x.lua" = "/a\\b/x.lua" ∧
    ¬ IsKey (normalize "/a\\b" "x.lua").toList ∧
    normalize "/a\\b" (normalize "/a\\b" "x.lua") = "/a/b/x.lua" ∧
    normalize "/a\\b" ("/a\\b" ++ "/" ++ "x.lua") = "/a/b/x.lua" := by
  refine ⟨by decide, by decide +kernel, fun isKey => absurd isKey.plain ?_, by decide +kernel,
    by decide +kernel⟩
  decide +kernel

end LuaCoverage.Path
