import Std.Data.ExtTreeMap
import Std.Data.ExtTreeSet

/-!
# Ordered maps read as lists

The tables of the library are ordered maps and ordered sets, most of them of natural numbers. These
are the few facts on them that the library proper does not state: the values are read off the list
of entries, inserting many numbers into a set adds exactly these, a fold over a map that alters
another one at each of its keys alters every key once, merging two maps merges the values of each
key, and a pass over a map that changes no entry changes nothing.
-/

set_option autoImplicit false

namespace LuaCoverage

variable {α : Type}

section Values

variable {κ : Type} {order : κ → κ → Ordering} [Std.TransCmp order]

/-- The values of a map are those of its entries, in the order of the keys. -/
theorem values_eq_map_toList (map : Std.ExtTreeMap κ α order) :
    map.values = map.toList.map Prod.snd := by
  have folded : map.values = map.foldr (fun _ value values => value :: values) [] := by
    obtain ⟨⟨quotient⟩⟩ := map
    induction quotient using Quotient.inductionOn with
    | _ inner => rfl
  rw [folded, Std.ExtTreeMap.foldr_eq_foldr_toList]
  induction map.toList with
  | nil => rfl
  | cons entry rest ih => rw [List.foldr_cons, List.map_cons, ih]

/-- The values of a map that was changed value by value. -/
theorem values_map {β : Type} (map : Std.ExtTreeMap κ α order) (change : α → β) :
    (map.map fun _ value => change value).values = map.values.map change := by
  rw [values_eq_map_toList, values_eq_map_toList, Std.ExtTreeMap.toList_map, List.map_map,
    List.map_map]
  rfl

/-- A key is in a map exactly when some value is filed under it. -/
theorem mem_map_iff {map : Std.ExtTreeMap κ α order} {key : κ} :
    key ∈ map ↔ ∃ value, map[key]? = some value := by
  rw [Std.ExtTreeMap.mem_iff_isSome_getElem?, Option.isSome_iff_exists]

theorem mem_values_iff [Std.LawfulEqCmp order] {map : Std.ExtTreeMap κ α order} {value : α} :
    value ∈ map.values ↔ ∃ key : κ, map[key]? = some value := by
  rw [values_eq_map_toList, List.mem_map]
  constructor
  · rintro ⟨⟨key, value⟩, member, rfl⟩
    exact ⟨key, Std.ExtTreeMap.mem_toList_iff_getElem?_eq_some.mp member⟩
  · rintro ⟨key, found⟩
    exact ⟨(key, value), Std.ExtTreeMap.mem_toList_iff_getElem?_eq_some.mpr found, rfl⟩

/-- Whether some entry of a map passes a test can be read off the list of entries. -/
theorem any_eq_any_toList (map : Std.ExtTreeMap κ α order) (test : κ → α → Bool) :
    map.any test = map.toList.any fun entry => test entry.1 entry.2 := by
  have looped : map.any test = (do
      for entry in map do
        if test entry.1 entry.2 then return true
      return false : Id Bool).run := by
    obtain ⟨⟨quotient⟩⟩ := map
    induction quotient using Quotient.inductionOn with
    | _ inner => rfl
  rw [looped, Std.ExtTreeMap.forIn_eq_forIn_toList]
  induction map.toList with
  | nil => rfl
  | cons entry rest ih =>
      rw [List.forIn_cons, List.any_cons, ← ih]
      cases test entry.1 entry.2 <;> rfl

theorem any_eq_true_iff [Std.LawfulEqCmp order] {map : Std.ExtTreeMap κ α order}
    {test : κ → α → Bool} :
    map.any test = true ↔ ∃ key value, map[key]? = some value ∧ test key value = true := by
  rw [any_eq_any_toList, List.any_eq_true, Prod.exists]
  simp only [Std.ExtTreeMap.mem_toList_iff_getElem?_eq_some]

end Values

/-- Inserting the numbers of a list into a set adds exactly these. -/
theorem mem_foldl_insert {numbers : List Nat} {set : Std.ExtTreeSet Nat} {number : Nat} :
    number ∈ numbers.foldl (fun current next => current.insert next) set ↔
      number ∈ set ∨ number ∈ numbers := by
  induction numbers generalizing set with
  | nil => simp
  | cons first rest ih =>
      rw [List.foldl_cons, ih, Std.ExtTreeSet.mem_insert, Std.LawfulEqCmp.compare_eq_iff_eq,
        List.mem_cons]
      constructor
      · rintro ((rfl | old) | later)
        · exact .inr (.inl rfl)
        · exact .inl old
        · exact .inr (.inr later)
      · rintro (old | rfl | later)
        · exact .inl (.inr old)
        · exact .inl (.inl rfl)
        · exact .inr later

/-! ## Folding one map into another -/

section Combining

variable {κ β : Type} {order : κ → κ → Ordering} [Std.TransCmp order]

/-- Altering a map at the keys of a list of entries, each once. -/
theorem getElem?_foldl_alter [Std.LawfulEqCmp order] (change : κ → β → Option α → Option α)
    {entries : List (κ × β)}
    (distinct : entries.Pairwise fun first later => first.1 ≠ later.1)
    (start : Std.ExtTreeMap κ α order) (key : κ) :
    let altered := entries.foldl (fun map entry => map.alter entry.1 (change entry.1 entry.2)) start
    (∀ value, (key, value) ∈ entries → altered[key]? = change key value start[key]?) ∧
      ((∀ value, (key, value) ∉ entries) → altered[key]? = start[key]?) := by
  induction entries generalizing start with
  | nil => exact ⟨fun _ none => absurd none List.not_mem_nil, fun _ => rfl⟩
  | cons first rest ih =>
      obtain ⟨apart, distinct⟩ := List.pairwise_cons.mp distinct
      obtain ⟨inside, outside⟩ := ih distinct (start.alter first.1 (change first.1 first.2))
      simp only [List.foldl_cons]
      refine ⟨fun value member => ?_, fun missing => ?_⟩
      · rcases List.mem_cons.mp member with rfl | later
        · rw [outside fun other there => apart _ there rfl, Std.ExtTreeMap.getElem?_alter_self]
        · have differs : ¬ first.1 = key := fun same => apart _ later same
          rw [inside value later, Std.ExtTreeMap.getElem?_alter,
            if_neg (mt Std.LawfulEqCmp.eq_of_compare differs)]
      · have differs : ¬ first.1 = key := by
          rintro rfl
          exact missing first.2 List.mem_cons_self
        rw [outside fun value there => missing value (List.mem_cons_of_mem _ there),
          Std.ExtTreeMap.getElem?_alter, if_neg (mt Std.LawfulEqCmp.eq_of_compare differs)]

/-- A fold over a map that alters another one at each of its keys. -/
theorem getElem?_foldl_alter_map [Std.LawfulEqCmp order] (change : κ → β → Option α → Option α)
    (second : Std.ExtTreeMap κ β order) (first : Std.ExtTreeMap κ α order) (key : κ) :
    (second.foldl (fun map key value => map.alter key (change key value)) first)[key]? =
      match second[key]? with
      | none => first[key]?
      | some value => change key value first[key]? := by
  have distinct : second.toList.Pairwise fun entry later => entry.1 ≠ later.1 := by
    refine second.distinct_keys_toList.imp fun differs same => differs ?_
    exact Std.LawfulEqCmp.compare_eq_iff_eq.mpr same
  obtain ⟨inside, outside⟩ := getElem?_foldl_alter change distinct first key
  rw [Std.ExtTreeMap.foldl_eq_foldl_toList]
  cases found : second[key]? with
  | none =>
      refine outside fun value member => ?_
      rw [Std.ExtTreeMap.mem_toList_iff_getElem?_eq_some, found] at member
      cases member
  | some value => exact inside value (Std.ExtTreeMap.mem_toList_iff_getElem?_eq_some.mpr found)

/-- The value of a key with another one added to it. -/
def addedTo (combine : α → α → α) (added : α) : Option α → Option α
  | none => some added
  | some own => some (combine own added)

theorem addedTo_eq_merge (combine : α → α → α) (added : α) (own : Option α) :
    addedTo combine added own = own.merge combine (some added) := by
  cases own <;> rfl

open Std.DTreeMap.Internal in
/-- Merging two maps alters the first one at the keys of the second one. -/
theorem mergeWith_eq_foldl (combine : κ → α → α → α) (first second : Std.ExtTreeMap κ α order) :
    first.mergeWith combine second =
      second.foldl (fun map key added => map.alter key (addedTo (combine key) added)) first := by
  obtain ⟨⟨first⟩⟩ := first
  obtain ⟨⟨second⟩⟩ := second
  induction first using Quotient.inductionOn with
  | _ first =>
  induction second using Quotient.inductionOn with
  | _ second =>
  obtain ⟨first, isFirst⟩ := first
  obtain ⟨second, isSecond⟩ := second
  let _ : Ord κ := ⟨order⟩
  let wrap (inner : Impl κ fun _ => α) (isMap : inner.WF) : Std.ExtTreeMap κ α order :=
    ⟨⟨Quotient.mk _ ⟨inner, isMap⟩⟩⟩
  let step (map : Std.ExtTreeMap κ α order) (key : κ) (added : α) : Std.ExtTreeMap κ α order :=
    map.alter key (addedTo (combine key) added)
  -- along the search tree of the second map, which is folded from left to right
  have general : ∀ (tree : Impl κ fun _ => α) (start : Impl κ fun _ => α) (isMap : start.WF),
      wrap (Impl.Const.mergeWith combine start tree isMap.balanced).impl isMap.constMergeWith =
        tree.foldl step (wrap start isMap) := by
    intro tree
    induction tree with
    | leaf => exact fun _ _ => rfl
    | inner size key added left right ihLeft ihRight =>
        intro start isMap
        let merged := Impl.Const.mergeWith combine start left isMap.balanced
        let change : Option α → Option α := addedTo (combine key) added
        have isAltered : (Impl.Const.alter key change merged.impl merged.balanced_impl).impl.WF :=
          Impl.WF.constAlter isMap.constMergeWith
        let tree := Impl.inner size key added left right
        calc wrap (Impl.Const.mergeWith combine start tree isMap.balanced).impl isMap.constMergeWith
          _ = wrap (Impl.Const.mergeWith combine _ right isAltered.balanced).impl
              isAltered.constMergeWith := rfl
          _ = right.foldl step (wrap _ isAltered) := ihRight _ isAltered
          _ = right.foldl step (step (wrap merged.impl isMap.constMergeWith) key added) := rfl
          _ = right.foldl step (step (left.foldl step (wrap start isMap)) key added) := by
              rw [ihLeft start isMap]
  exact general second first isFirst

/-- **Merging two maps merges the values of each key.** -/
theorem getElem?_mergeWith [Std.LawfulEqCmp order] (combine : κ → α → α → α)
    (first second : Std.ExtTreeMap κ α order) (key : κ) :
    (first.mergeWith combine second)[key]? = (first[key]?).merge (combine key) second[key]? := by
  rw [mergeWith_eq_foldl, getElem?_foldl_alter_map]
  cases second[key]? with
  | none => cases first[key]? <;> rfl
  | some added => exact addedTo_eq_merge _ _ _

/-- Merging two values that may be missing does not depend on the order if combining them does
not. -/
theorem optionMerge_comm {combine : α → α → α} {first second : Option α}
    (comm : ∀ own other, first = some own → second = some other →
      combine own other = combine other own) :
    first.merge combine second = second.merge combine first := by
  cases first with
  | none => rw [Option.merge_none_left, Option.merge_none_right]
  | some own =>
      cases second with
      | none => rw [Option.merge_none_left, Option.merge_none_right]
      | some other => exact congrArg some (comm own other rfl rfl)

theorem mergeWith_comm [Std.LawfulEqCmp order] {combine : α → α → α}
    {first second : Std.ExtTreeMap κ α order}
    (comm : ∀ (key : κ) (own other : α), first[key]? = some own → second[key]? = some other →
      combine own other = combine other own) :
    first.mergeWith (fun _ => combine) second = second.mergeWith (fun _ => combine) first := by
  apply Std.ExtTreeMap.ext_getElem?
  intro key
  rw [getElem?_mergeWith, getElem?_mergeWith]
  exact optionMerge_comm (comm key)

theorem mergeWith_assoc [Std.LawfulEqCmp order] (combine : α → α → α) [Std.Associative combine]
    (first second third : Std.ExtTreeMap κ α order) :
    (first.mergeWith (fun _ => combine) second).mergeWith (fun _ => combine) third =
      first.mergeWith (fun _ => combine) (second.mergeWith (fun _ => combine) third) := by
  apply Std.ExtTreeMap.ext_getElem?
  intro key
  simp only [getElem?_mergeWith]
  exact Std.Associative.assoc _ _ _

/-! ## Values that are there first -/

/-- Inserting values under keys that are still free: the first one of each key stays. -/
theorem getElem?_foldl_insertIfNew {keyOf : β → Nat} {valueOf : β → α} (items : List β)
    (start : Std.ExtTreeMap Nat α) (key : Nat) :
    (items.foldl (fun map item => map.insertIfNew (keyOf item) (valueOf item)) start)[key]? =
      (start[key]?).or ((items.find? fun item => keyOf item == key).map valueOf) := by
  induction items generalizing start with
  | nil => exact Option.or_none.symm
  | cons first rest ih =>
      rw [List.foldl_cons, ih, Std.ExtTreeMap.getElem?_insertIfNew, List.find?_cons]
      by_cases same : keyOf first = key
      · subst same
        cases found : start[keyOf first]? with
        | none =>
            have absent : keyOf first ∉ start := fun present => by
              obtain ⟨value, isValue⟩ := mem_map_iff.mp present
              exact Option.some_ne_none value (isValue.symm.trans found)
            simp [absent]
        | some value =>
            have present : keyOf first ∈ start := mem_map_iff.mpr ⟨value, found⟩
            simp [present]
      · have differs : ¬ compare (keyOf first) key = .eq := by
          rwa [Std.LawfulEqCmp.compare_eq_iff_eq]
        rw [if_neg fun both => differs both.1, beq_eq_false_iff_ne.mpr same]

/-- An item of a numbered list is found by its number. -/
theorem find?_zipIdx (items : List α) (start number : Nat) :
    ((items.zipIdx start).find? fun entry => entry.2 == number).map Prod.fst =
      if start ≤ number then items[number - start]? else none := by
  induction items generalizing start with
  | nil => simp
  | cons first rest ih =>
      rw [List.zipIdx_cons, List.find?_cons]
      by_cases same : start = number
      · subst same
        simp
      · simp only [beq_eq_false_iff_ne.mpr same, ih]
        by_cases later : start + 1 ≤ number
        · have earlier : start ≤ number := by omega
          have next : number - start = number - (start + 1) + 1 := by omega
          rw [if_pos later, if_pos earlier, next, List.getElem?_cons_succ]
        · rw [if_neg later, if_neg]
          omega

/-- A map whose values all stay the same stays the same. -/
theorem map_eq_self [Std.LawfulEqCmp order] {map : Std.ExtTreeMap κ α order} {change : κ → α → α}
    (same : ∀ (key : κ) (value : α), map[key]? = some value → change key value = value) :
    map.map change = map := by
  apply Std.ExtTreeMap.ext_getElem?
  intro key
  rw [Std.ExtTreeMap.getElem?_map]
  cases found : map[key]? with
  | none => rfl
  | some value => exact congrArg some (same key value found)

/-- A fold that no entry of a map changes. -/
theorem foldl_eq_self [Std.LawfulEqCmp order] {map : Std.ExtTreeMap κ α order}
    {step : β → κ → α → β} {start : β}
    (same : ∀ (key : κ) (value : α), map[key]? = some value → step start key value = start) :
    map.foldl step start = start := by
  rw [Std.ExtTreeMap.foldl_eq_foldl_toList]
  refine List.foldlRecOn (motive := fun reached => reached = start) _ _ rfl ?_
  rintro _ rfl entry member
  exact same entry.1 entry.2 (Std.ExtTreeMap.mem_toList_iff_getElem?_eq_some.mp member)

/-! ## Keys that two maps share -/

/-- What holds of the values of each shared key can be checked on the entries. -/
theorem forall_shared_iff [Std.LawfulEqCmp order] {holds : κ → α → β → Prop}
    {first : Std.ExtTreeMap κ α order} {second : Std.ExtTreeMap κ β order} :
    (∀ (key : κ) (own : α) (other : β), first[key]? = some own → second[key]? = some other →
        holds key own other) ↔
      ∀ entry ∈ first.toList, ∀ later ∈ second.toList, entry.1 = later.1 →
        holds entry.1 entry.2 later.2 := by
  constructor
  · rintro all ⟨key, own⟩ member ⟨key', other⟩ member' rfl
    exact all key own other (Std.ExtTreeMap.mem_toList_iff_getElem?_eq_some.mp member)
      (Std.ExtTreeMap.mem_toList_iff_getElem?_eq_some.mp member')
  · intro all key own other here there
    exact all (key, own) (Std.ExtTreeMap.mem_toList_iff_getElem?_eq_some.mpr here) (key, other)
      (Std.ExtTreeMap.mem_toList_iff_getElem?_eq_some.mpr there) rfl

end Combining

end LuaCoverage
