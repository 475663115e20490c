import LuaCoverage.Json.Record
import LuaCoverage.Proofs.Json.RoundTrip

/-!
# Reading typed values that were written

Each rule for reading a typed value undoes the way in which such a value is written: numbers below
the bound of their kind, texts, lists, choices by name, entries by key. A record whose members have
different names is read field by field (`fields?_ofMembers`), whatever other members stand beside
them.
-/

set_option autoImplicit false

namespace LuaCoverage.Json

variable {α β : Type}

/-- Reading each element of a list, where each can be read. -/
theorem mapM_eq_some (read : α → Option β) (result : α → β) {items : List α}
    (reads : ∀ item ∈ items, read item = some (result item)) :
    items.mapM read = some (items.map result) := by
  induction items with
  | nil => rfl
  | cons first rest ih =>
      rw [List.mapM_cons, reads first List.mem_cons_self,
        ih fun item member => reads item (List.mem_cons_of_mem _ member)]
      rfl

/-- Digits stand as they are in a text. -/
theorem escapeText_toString (number : Nat) : escapeText (toString number) = toString number := by
  have plain : ∀ digit ∈ Nat.toDigits 10 number, escapeChar digit = [digit] := by
    intro digit member
    have isDigit := isDigit_of_mem_toDigits member
    rcases escapeChar_cases digit with ⟨letter, -, stands⟩ | ⟨-, -, -, -, control⟩ | ⟨same, -⟩
    · -- no letter stands for a digit
      exfalso
      unfold shortEscape? at stands
      split at stands <;> cases stands <;> cases isDigit
    · -- the digits are no control characters
      have least := (Char.isDigit_iff_toNat.mp isDigit).1
      exact absurd (Nat.le_trans least (Nat.le_of_lt_succ control)) (by decide)
    · exact same
  have toList : (toString number).toList = Nat.toDigits 10 number := Nat.toList_repr
  rw [escapeText, escapeChars, toList, List.flatMap_def, List.map_congr_left plain,
    ← List.flatMap_def, List.flatMap_singleton', ← toList, String.ofList_toList]

namespace Value

@[simp]
theorem bool?_bool (value : Bool) : bool? (.bool value) = some value := rfl

theorem natBelow?_ofNat {bound number : Nat} (below : number < bound) :
    natBelow? bound (.ofNat number) = some number := by
  have toList : (toString number).toList = Nat.toDigits 10 number := Nat.toList_repr
  rw [ofNat, natBelow?, toList, naturalOf?_toDigits below]

theorem nat32?_ofNat {number : Nat} (below : number < 4294967296) :
    nat32? (.ofNat number) = some number := natBelow?_ofNat below

theorem nat64?_ofNat {number : Nat} (below : number < 18446744073709551616) :
    nat64? (.ofNat number) = some number := natBelow?_ofNat below

@[simp]
theorem text?_ofString (text : String) : text? (.ofString text) = some text :=
  decodeText?_escapeText text

/-- A choice is read by its name. -/
theorem choice?_ofString (named? : String → Option α) (text : String) :
    choice? named? (.ofString text) = named? text := by
  rw [ofString, choice?, decodeText?_escapeText]
  rfl

theorem list?_ofList {item? : Value → Option α} {document : α → Value} {items : List α}
    (reads : ∀ item ∈ items, item? (document item) = some item) :
    list? item? (.ofList document items) = some items := by
  rw [ofList, list?, List.mapM_map, mapM_eq_some (item? ∘ document) id reads,
    List.map_id]

theorem optional_ofOption {item? : Value → Option α} {document : α → Value} {found : Option α}
    (notNull : ∀ item, document item ≠ .null)
    (reads : ∀ item ∈ found, item? (document item) = some item) :
    optional item? (some (.ofOption document found)) = some found := by
  cases found with
  | none => rfl
  | some item =>
      rw [ofOption, optional, orNull?.eq_def]
      split
      · rename_i same
        exact absurd same (notNull item)
      · rw [reads item rfl, Option.map_some]

/-- The entries of an object whose member names stand for keys. -/
theorem entries?_ofMembers {κ : Type} {key? : String → Option κ} {item? : Value → Option β}
    (name : κ → String) (document : α → Value) (result : α → β) {entries : List (κ × α)}
    (readsKey : ∀ entry ∈ entries, key? (escapeText (name entry.1)) = some entry.1)
    (readsItem : ∀ entry ∈ entries, item? (document entry.2) = some (result entry.2)) :
    entries? key? item? (.ofMembers (entries.map fun entry => (name entry.1, document entry.2))) =
      some (entries.map fun entry => (entry.1, result entry.2)) := by
  rw [ofMembers, entries?, List.map_map, List.mapM_map]
  refine mapM_eq_some _ _ fun entry member => ?_
  simp [readsKey entry member, readsItem entry member]

/-! ## Records -/

/-- Among members with different names, the one of a given name is found. -/
theorem single?_eq {members : List (String × Value)} (distinct : (members.map Prod.fst).Nodup)
    (name : String) :
    single? name members =
      some ((members.find? fun member => member.1 == name).map Prod.snd) := by
  induction members with
  | nil => rfl
  | cons first rest ih =>
      obtain ⟨apart, distinct⟩ := List.nodup_cons.mp distinct
      by_cases here : first.1 = name
      · have none : rest.filter (fun member => member.1 == name) = [] := by
          refine List.filter_eq_nil_iff.mpr fun member inside same => apart ?_
          exact List.mem_map.mpr ⟨member, inside, (beq_iff_eq.mp same).trans here.symm⟩
        simp [single?, here, none]
      · have ih := ih distinct
        simp only [single?, List.filter_cons, List.find?_cons, beq_eq_false_iff_ne.mpr here] at ih ⊢
        exact ih

/-- **The fields of a record that was written with different names.** -/
theorem fields?_ofMembers {members : List (String × Value)}
    (distinct : (members.map Prod.fst).Nodup) (names : List String) :
    (ofMembers members).fields? names =
      some (names.map fun name =>
        (members.find? fun member => member.1 == name).map Prod.snd) := by
  have decoded : (members.map fun member => (escapeText member.1, member.2)).mapM
      (fun member : String × Value =>
        (decodeText? member.1).map fun name => (name, member.2)) = some members := by
    rw [List.mapM_map, mapM_eq_some _ id fun member _ => ?_, List.map_id]
    simp
  rw [ofMembers, fields?, alignedFields?, decoded]
  exact mapM_eq_some _ _ fun name _ => single?_eq distinct name

/-- The fields of a record that has no other members. -/
theorem fields?_own {members : List (String × Value)} {names : List String}
    (own : members.map Prod.fst = names) (distinct : names.Nodup) :
    (ofMembers members).fields? names = some (members.map fun member => some member.2) := by
  have found : ∀ member ∈ members,
      members.find? (fun other => other.1 == member.1) = some member := by
    intro member inside
    obtain ⟨before, after, split⟩ := List.append_of_mem inside
    refine List.find?_eq_some_iff_append.mpr
      ⟨by simp, before, after, split, fun other earlier => ?_⟩
    rw [← own, split, List.map_append, List.map_cons, List.nodup_append] at distinct
    have apart := distinct.2.2 other.1 (List.mem_map_of_mem earlier) member.1 List.mem_cons_self
    simp [apart]
  subst own
  rw [fields?_ofMembers distinct, List.map_map]
  refine congrArg some (List.map_congr_left fun member inside => ?_)
  rw [Function.comp_apply, found member inside, Option.map_some]

end Value

end LuaCoverage.Json
