/-
  Whole programs on arrays and objects, and what holds between the functions.

  * `calls_refine`: whatever legal calls are made from the start, one after the other, none of them uses a
    pointer it must not use, and heap and items agree on every reply and at the end.
  * `failed_unchanged`: a call that fails has changed nothing, apart from two functions. One leaves a reference
    behind that nobody has a pointer to, the other has given the replacement its name.
  * `detach_insert`, `insert_detach`: each of the two undoes the other.
  * `replace_eq_insert_delete`: an item is replaced as if the new one were inserted in front of it and
    the old one deleted.
  * `cJSONInsertItemInArray_null`: without an item to insert, the function fails behind the end of the list and uses a
    NULL pointer before it.
  * `replaceItemInObject_own`: the replacement's own name is freed before it is read.
-/
import OlegPrinter.Properties.ItemCalls

namespace OlegPrinter

open CLib

namespace Items

/-- None. -/
def nothing : Items where
  forest := Forest.discrete
  label _ := none
  owned h := absurd h List.not_mem_nil
  unshared h := absurd h.symm (Option.some_ne_none _)

/-- Items are their lists of children and their labels. -/
theorem ext {A B : Items} (hchildren : A.children = B.children) (hlabel : A.label = B.label) : A = B := by
  obtain ⟨⟨children, _, _, _⟩, label, _⟩ := A
  obtain ⟨⟨children', _, _, _⟩, label', _⟩ := B
  obtain rfl : children = children' := hchildren
  obtain rfl : label = label' := hlabel
  rfl

end Items

namespace Heap

/-! ## From the start -/

/-- 2 has a constant for a name, and 3 a copy of it. -/
def threeLabel (q : ItemPtr) : Option ItemTag :=
  if q = 1 then some ⟨none, false⟩
  else if q = 2 then some ⟨some (.const (CStr.lit "a")), false⟩
  else if q = 3 then some ⟨some (.copy 5 (CStr.lit "a")), false⟩
  else none

theorem nameIn_threeLabel {q : ItemPtr} {name : Name} (h : nameIn threeLabel q = some name) :
    q = 2 ∧ name = .const (CStr.lit "a") ∨ q = 3 ∧ name = .copy 5 (CStr.lit "a") := by
  unfold nameIn threeLabel at h
  split_ifs at h with h1 h2 h3
  · cases h
  · cases h
    exact Or.inl ⟨h2, rfl⟩
  · cases h
    exact Or.inr ⟨h3, rfl⟩
  · cases h

/-- 2 is a child of 1. -/
def three : Items where
  forest := Forest.discrete.setChildren 1 [2] (List.nodup_singleton 2) fun c hc =>
    Or.inr ⟨fun _ => List.not_mem_nil, fun hbelow => by
      rw [List.mem_singleton.mp hc] at hbelow
      rcases Forest.below_iff.mp hbelow with heq | ⟨d, hd, -⟩
      · cases heq
      · cases hd⟩
  label := threeLabel
  owned := fun {p c} hc => by
    rw [Forest.children_setChildren] at hc
    by_cases hp : p = 1
    · rw [hp, Function.update_self] at hc
      rw [hp, List.mem_singleton.mp hc]
      exact ⟨⟨_, rfl, rfl⟩, _, rfl⟩
    · rw [Function.update_of_ne hp] at hc
      cases hc
  unshared := fun {p q b s t} hp hq => by
    rcases nameIn_threeLabel hp with ⟨-, heq⟩ | ⟨hp3, -⟩
    · cases heq
    · rcases nameIn_threeLabel hq with ⟨-, heq⟩ | ⟨hq3, -⟩
      · cases heq
      · rw [hp3, hq3]

def threeHeap : Heap where
  live q := q = 1 ∨ q = 2 ∨ q = 3
  next _ := none
  prev := Function.update (fun _ => none) 2 (some 2)
  child := Function.update (fun _ => none) 1 (some 2)
  string q := (nameIn threeLabel q).map Name.ptr
  isReference _ := false
  stringIsConst q := q = 2
  text := Function.update (fun _ => none) 5 (some (CStr.lit "a"))

theorem children_three (q : ItemPtr) : three.children q = Function.update (fun _ => []) 1 [2] q := rfl

theorem holds_three : threeHeap.Holds three where
  live q := by
    show decide (q = 1 ∨ q = 2 ∨ q = 3) = (threeLabel q).isSome
    unfold threeLabel
    by_cases h1 : q = 1
    · simp [h1]
    · by_cases h2 : q = 2
      · simp [h2]
      · by_cases h3 : q = 3
        · simp [h3]
        · simp [h1, h2, h3]
  string := fun {q t} ht => by
    show (nameIn threeLabel q).map Name.ptr = _
    rw [nameIn, show threeLabel q = some t from ht, Option.bind_some]
  isReference := fun {q t} ht => by
    change threeLabel q = some t at ht
    unfold threeLabel at ht
    split_ifs at ht
    · cases ht
      rfl
    · cases ht
      rfl
    · cases ht
      rfl
  stringIsConst := fun {q name} hname => by
    rcases nameIn_threeLabel hname with ⟨hq, hn⟩ | ⟨hq, hn⟩
    · rw [hq, hn]
      rfl
    · rw [hq, hn]
      rfl
  text := fun {b s} => by
    show Function.update (fun _ => none) 5 (some (CStr.lit "a")) b = some s ↔ _
    constructor
    · intro h
      by_cases hb : b = 5
      · rw [hb, Function.update_self] at h
        cases h
        exact ⟨3, hb ▸ rfl⟩
      · rw [Function.update_of_ne hb] at h
        cases h
    · rintro ⟨q, hq⟩
      rcases nameIn_threeLabel hq with ⟨-, heq⟩ | ⟨-, heq⟩
      · cases heq
      · cases heq
        exact Function.update_self ..
  child := fun {q} _ => by
    rw [children_three]
    by_cases hq : q = 1
    · rw [hq]
      rfl
    · rw [Function.update_of_ne hq]
      show Function.update (fun _ => none) 1 (some 2) q = none
      rw [Function.update_of_ne hq]
  ring q := by
    rw [children_three]
    by_cases hq : q = 1
    · rw [hq]
      exact ⟨rfl, rfl, trivial⟩
    · rw [Function.update_of_ne hq]
      exact ring_nil
  root _ _ := rfl

theorem three_owner {q : ItemPtr} (hq : q = 1 ∨ q = 2 ∨ q = 3) : three.Owner q := by
  rcases hq with rfl | rfl | rfl
  · exact ⟨_, rfl, rfl⟩
  · exact ⟨_, rfl, rfl⟩
  · exact ⟨_, rfl, rfl⟩

theorem three_attachable : three.Attachable 1 3 := by
  refine ⟨(three_owner (Or.inr (Or.inr rfl))).live, fun q hq => ?_, fun hbelow => ?_⟩
  · rw [show three.forest.children q = _ from children_three q] at hq
    by_cases hq1 : q = 1
    · rw [hq1] at hq
      exact absurd (List.mem_singleton.mp hq) (by decide)
    · rw [Function.update_of_ne hq1] at hq
      cases hq
  · rcases Forest.below_iff.mp hbelow with heq | ⟨c, hc, -⟩
    · cases heq
    · cases hc

/-- What a failure is told by. -/
def Reply.Failed : Reply → Prop
  | .bool b => b = false
  | .item p => p = none
  | _ => False

/-- What a call that fails can have changed. -/
inductive Call.Remainder (A : Items) : Call → Items → Prop
  /-- There is a reference to the item, and no memory for the name. -/
  | reference {b p x : ItemPtr} {s : Name} {A' : Items} (h : A.Created b ⟨none, true⟩ A') :
    Remainder A (.addItemReferenceToObject (some b) none (some p) (some s) (some x)) A'
  /-- There is nothing to replace, or no memory for the name. -/
  | name {copy : Option TextPtr} {caseSensitive : Bool} {object : Option ItemPtr} {s : Name} {y : ItemPtr}
    {A' : Items} (h : A.Renamed y (Items.newKey copy s false) A') :
    Remainder A (.replaceItemInObject copy object (some s) (some y) caseSensitive) A'

end Heap

namespace Items

section

variable {A A' : Items} {array item object parent replacement newitem : Option ItemPtr}
  {string : Option Name} {copy : Option TextPtr} {constantKey : Bool}

theorem Added.unchanged (h : A.Added array item false A') : A' = A := by
  unfold Added at h
  split at h
  · split_ifs at h
    · exact h.2
    · cases h.1
  · exact h.2

/-- Only an item that would be its own child is refused. -/
theorem Added.refused {p x : ItemPtr} (h : A.Added (some p) (some x) false A') : p = x := by
  unfold Added at h
  dsimp only at h
  split_ifs at h with heq
  · exact heq
  · cases h.1

theorem AddedNamed.unchanged (h : A.AddedNamed copy object string item constantKey false A') : A' = A := by
  unfold AddedNamed at h
  split at h
  · split_ifs at h with hrefused
    · exact h.2
    · obtain ⟨A₁, -, hadded⟩ := h
      exact absurd hadded.refused (not_or.mp hrefused).1
  · exact h.2

/-- Or there was no memory for the name. -/
theorem AddedNamed.refused {p x : ItemPtr} {s : Name}
    (h : A.AddedNamed copy (some p) (some s) (some x) constantKey false A') :
    p = x ∨ newKey copy s constantKey = none := by
  unfold AddedNamed at h
  dsimp only at h
  split_ifs at h with hrefused
  · exact hrefused
  · obtain ⟨A₁, -, hadded⟩ := h
    exact Or.inl hadded.refused

theorem Detached.unchanged (h : A.Detached parent item none A') : A' = A := by
  unfold Detached at h
  split at h
  · cases h.1
  · exact h.2

theorem Inserted.unchanged {which : Int} (h : A.Inserted array which newitem false A') : A' = A := by
  unfold Inserted at h
  split at h
  · split_ifs at h
    · exact h.2
    · cases h.1
  · exact h.2

theorem Replaced.unchanged (h : A.Replaced parent item replacement false A') : A' = A := by
  unfold Replaced at h
  split at h
  · cases h.1
  · exact h.2

end

end Items

namespace Heap

section

variable {h : Heap} {A A' : Items} {n : ℕ}

/-- Nothing there was is in a free block. -/
theorem ne_of_free {p b : ItemPtr} (hp : A.Owns (some p)) (hfree : A.Free (some b)) : p ≠ b := by
  intro heq
  obtain ⟨t, ht, -⟩ := hp p rfl
  rw [heq, hfree b rfl] at ht
  cases ht

theorem Call.Effect.failed {c : Call} {r : Reply} (hlegal : c.Legal A) (h : c.Effect A r A')
    (hfailed : r.Failed) : A' = A ∨ c.Remainder A A' := by
  cases c with
  | newItem block =>
    obtain ⟨hr, hmade⟩ := h
    rw [hr] at hfailed
    rw [show block = none from hfailed] at hmade
    exact Or.inl hmade
  | delete item => exact absurd hfailed (h.1 ▸ id)
  | getArraySize array => exact Or.inl h.1
  | getArrayItem array index => exact Or.inl h.1
  | getObjectItem object name caseSensitive => exact Or.inl h.1
  | addItemToArray array item =>
    obtain ⟨b, hr, hadded⟩ := h
    rw [hr] at hfailed
    exact Or.inl (Items.Added.unchanged (hfailed ▸ hadded))
  | addItemToObject copy object string item constantKey =>
    obtain ⟨b, hr, hadded⟩ := h
    rw [hr] at hfailed
    exact Or.inl (Items.AddedNamed.unchanged (hfailed ▸ hadded))
  | addItemReferenceToArray block array item =>
    obtain ⟨hfree, hp, -⟩ := hlegal
    obtain ⟨b, hr, h⟩ := h
    rw [hr] at hfailed
    split_ifs at h with harray
    · exact Or.inl h.2
    · obtain ⟨reference, A₁, hreferenced, hadded⟩ := h
      rw [show b = false from hfailed] at hadded
      obtain ⟨p, rfl⟩ := Option.ne_none_iff_exists'.mp harray
      unfold Items.Referenced at hreferenced
      split at hreferenced
      · -- a reference is not the array, so that it would have been added
        rw [hreferenced.1] at hadded
        exact absurd hadded.refused (ne_of_free hp hfree)
      · exact Or.inl ((Items.Added.unchanged hadded).trans hreferenced.2)
  | addItemReferenceToObject block copy object string item =>
    obtain ⟨hfree, hp, -⟩ := hlegal
    obtain ⟨b, hr, h⟩ := h
    rw [hr] at hfailed
    split_ifs at h with hnone
    · exact Or.inl h.2
    · obtain ⟨reference, A₁, hreferenced, hadded⟩ := h
      rw [show b = false from hfailed] at hadded
      have hA' := Items.AddedNamed.unchanged hadded
      obtain ⟨hobject, hstring⟩ := not_or.mp hnone
      obtain ⟨p, rfl⟩ := Option.ne_none_iff_exists'.mp hobject
      obtain ⟨s, rfl⟩ := Option.ne_none_iff_exists'.mp hstring
      unfold Items.Referenced at hreferenced
      split at hreferenced
      · rw [hreferenced.1] at hadded
        rcases hadded.refused with heq | hkey
        · exact absurd heq (ne_of_free hp hfree)
        · obtain rfl : copy = none := Option.map_eq_none_iff.mp hkey
          rw [hA']
          exact Or.inr (.reference hreferenced.2)
      · exact Or.inl (hA'.trans hreferenced.2)
  | detachItemViaPointer parent item =>
    obtain ⟨x, hr, hdetached⟩ := h
    rw [hr] at hfailed
    exact Or.inl (Items.Detached.unchanged (hfailed ▸ hdetached))
  | detachItemFromArray array which =>
    obtain ⟨x, hr, hdetached⟩ := h
    rw [hr] at hfailed
    exact Or.inl (Items.Detached.unchanged (hfailed ▸ hdetached))
  | detachItemFromObject object string caseSensitive =>
    obtain ⟨x, hr, hdetached⟩ := h
    rw [hr] at hfailed
    exact Or.inl (Items.Detached.unchanged (hfailed ▸ hdetached))
  | deleteItemFromArray array which => exact absurd hfailed (h.1 ▸ id)
  | deleteItemFromObject object string caseSensitive => exact absurd hfailed (h.1 ▸ id)
  | insertItemInArray array which newitem =>
    obtain ⟨b, hr, hinserted⟩ := h
    rw [hr] at hfailed
    exact Or.inl (Items.Inserted.unchanged (hfailed ▸ hinserted))
  | replaceItemViaPointer parent item replacement =>
    obtain ⟨b, hr, hreplaced⟩ := h
    rw [hr] at hfailed
    exact Or.inl (Items.Replaced.unchanged (hfailed ▸ hreplaced))
  | replaceItemInArray array which newitem =>
    obtain ⟨b, hr, hreplaced⟩ := h
    rw [hr] at hfailed
    exact Or.inl (Items.Replaced.unchanged (hfailed ▸ hreplaced))
  | replaceItemInObject copy object string replacement caseSensitive =>
    obtain ⟨b, hr, h⟩ := h
    rw [hr] at hfailed
    unfold Items.ReplacedNamed at h
    split at h
    · next s y =>
      split_ifs at h with hcopy
      · rw [hcopy]
        exact Or.inr (.name h.2)
      · obtain ⟨A₁, hrenamed, hreplaced⟩ := h
        have hA' := Items.Replaced.unchanged (hfailed ▸ hreplaced)
        rw [hA']
        exact Or.inr (.name hrenamed)
    · exact Or.inl h.2

end

section

variable {h : Heap} {A A₁ A₂ A' B : Items} {p x y : ItemPtr} {l l' : List ItemPtr} {i n : ℕ}

theorem owns_some (hp : A.Owner p) : A.Owns (some p) := fun _ hq => Option.some.inj hq ▸ hp

/-- A list that is as it was. -/
theorem rearranged_back (h₁ : A.Rearranged p l A₁) (h₂ : A₁.Rearranged p (A.children p) A') : A' = A := by
  refine Items.ext ?_ (h₂.label.trans h₁.label)
  rw [h₂.children, h₁.children, Function.update_idem, Function.update_eq_self]

theorem children_rearranged (h : A.Rearranged p l A₁) : A₁.children p = l := by
  rw [h.children, Function.update_self]

theorem owner_rearranged (h : A.Rearranged p l A₁) (hp : A.Owner p) : A₁.Owner p := by
  unfold Items.Owner
  rw [h.label]
  exact hp

theorem itemAt_some (hi : i < (A.children p).length) : A.itemAt (some p) i = some (A.children p)[i] := by
  rw [Items.itemAt, Option.bind_some, if_neg (Int.not_lt.mpr (Int.natCast_nonneg i)), Int.toNat_natCast,
    List.getElem?_eq_getElem hi]

/-- A child that has been taken out can be put in again. -/
theorem attachable_detached (hmem : x ∈ A.children p) (h : A.Rearranged p ((A.children p).erase x) A₁) :
    A₁.Attachable p x := by
  have hnodup : (A.children p).Nodup := A.forest.nodup p
  obtain ⟨hlive, hroot⟩ := mayDelete_rearranged hmem h hnodup.not_mem_erase x rfl
  refine ⟨hlive, hroot, fun hbelow => Forest.not_below_child hmem ?_⟩
  refine Relation.ReflTransGen.mono (fun c q hc => ?_) p x hbelow
  rw [show A₁.forest.children q = Function.update A.children p ((A.children p).erase x) q from
    congrFun h.children q] at hc
  by_cases hq : q = p
  · rw [hq, Function.update_self] at hc
    exact hq ▸ List.mem_of_mem_erase hc
  · rwa [Function.update_of_ne hq] at hc

theorem detach_insert (hA : h.Holds A) (hp : A.Owner p) (hi : i < (A.children p).length) :
    h.Does (do
      let x ← cJSONDetachItemFromArray (some p) i
      cJSONInsertItemInArray (some p) i x) (fun r A' => r = true ∧ A' = A) := by
  have hnodup : (A.children p).Nodup := A.forest.nodup p
  refine (cJSONDetachItemFromArray_does hA (owns_some hp)).bind fun {item A₁ h₁} hdetached hA₁ => ?_
  rw [itemAt_some hi] at hdetached
  obtain ⟨rfl, hrearranged⟩ := hdetached
  have hx := attachable_detached (List.getElem_mem hi) hrearranged
  have hchildren : A₁.children p = (A.children p).take i ++ (A.children p).drop (i + 1) := by
    rw [children_rearranged hrearranged, hnodup.erase_getElem, List.eraseIdx_eq_take_drop_succ]
  have hlength : ((A.children p).take i).length = i := List.length_take_of_le (Nat.le_of_lt hi)
  refine (insertItem_does hA₁ (owner_rearranged hrearranged hp) hx i).mono fun {r A'} hinserted => ?_
  obtain ⟨hr, hback⟩ := hinserted
  rw [hchildren, List.take_left' hlength, List.drop_left' hlength, ← List.drop_eq_getElem_cons hi,
    List.take_append_drop] at hback
  exact ⟨hr, rearranged_back hrearranged hback⟩

theorem detach_insert_three :
    threeHeap.Does (do
      let x ← cJSONDetachItemFromArray (some 1) 0
      cJSONInsertItemInArray (some 1) 0 x) (fun r A' => r = true ∧ A' = three) :=
  detach_insert holds_three (three_owner (Or.inl rfl)) (i := 0) (by decide)

theorem insert_detach (hA : h.Holds A) (hp : A.Owner p) (hx : A.Attachable p x)
    (hi : i ≤ (A.children p).length) :
    h.Does (do
      let _ ← cJSONInsertItemInArray (some p) i (some x)
      cJSONDetachItemFromArray (some p) i) (fun r A' => r = some x ∧ A' = A) := by
  have hlength : ((A.children p).take i).length = i := List.length_take_of_le hi
  refine (insertItem_does hA hp hx i).bind fun {_ A₁ h₁} hinserted hA₁ => ?_
  obtain ⟨-, hrearranged⟩ := hinserted
  have hchildren := children_rearranged hrearranged
  have hxi : A₁.itemAt (some p) i = some x := by
    have hi₁ : i < (A₁.children p).length := by
      rw [hchildren, List.length_append, hlength, List.length_cons]
      omega
    rw [itemAt_some hi₁]
    simp only [hchildren]
    rw [List.getElem_append_right (Nat.le_of_eq hlength)]
    simp only [hlength, Nat.sub_self, List.getElem_cons_zero]
  refine (cJSONDetachItemFromArray_does hA₁ (owns_some (owner_rearranged hrearranged hp))).mono
    fun {r A'} hdetached => ?_
  rw [hxi] at hdetached
  obtain ⟨hr, hback⟩ := hdetached
  have hxtake : x ∉ (A.children p).take i := fun hmem => hx.not_mem p (List.mem_of_mem_take hmem)
  rw [hchildren, List.erase_append_right _ hxtake, List.erase_cons_head, List.take_append_drop] at hback
  exact ⟨hr, rearranged_back hrearranged hback⟩

theorem insert_detach_three :
    threeHeap.Does (do
      let _ ← cJSONInsertItemInArray (some 1) 1 (some 3)
      cJSONDetachItemFromArray (some 1) 1) (fun r A' => r = some 3 ∧ A' = three) :=
  insert_detach holds_three (three_owner (Or.inl rfl)) three_attachable (i := 1) (by decide)

theorem cJSONInsertItemInArray_null (hA : h.Holds A) (hp : A.Owner p) (which : Int) :
    cJSONInsertItemInArray (some p) which none h =
      if 0 ≤ which ∧ which < (A.children p).length then .fault .badPointer else .accept false h := by
  unfold cJSONInsertItemInArray
  by_cases hwhich : which < 0
  · rw [if_pos hwhich, if_neg (by omega)]
    rfl
  · rw [if_neg hwhich, Attempt.bind_accept (getArrayItem_search hA (owns_some hp) hwhich), Items.itemAt,
      Option.bind_some, if_neg hwhich]
    cases hitem : (A.children p)[which.toNat]? with
    | none =>
      have hlength := List.getElem?_eq_none_iff.mp hitem
      rw [if_pos rfl, addItemToArray_refused (Or.inl rfl), if_neg (by omega)]
      rfl
    | some a =>
      obtain ⟨hlength, -⟩ := List.getElem?_eq_some_iff.mp hitem
      rw [if_neg (Option.some_ne_none a), if_pos (by omega)]
      rfl

theorem cJSONInsertItemInArray_null_three :
    cJSONInsertItemInArray (some 1) 0 none threeHeap = .fault .badPointer :=
  (cJSONInsertItemInArray_null holds_three (three_owner (Or.inl rfl)) 0).trans (if_pos (by decide))

/-! ## The name that is freed -/

theorem replaceItemInObject_own (hA : h.Holds A) {b : TextPtr} {s : CStr} (hy : A.string y = some (.copy b s))
    (copy : Option TextPtr) (object : Option ItemPtr) (caseSensitive : Bool) :
    replaceItemInObject n copy object (some (.block b)) (some y) caseSensitive h = .fault .badPointer := by
  have hlive := Items.live_of_string hy
  have hfree : freeString (some y) h = .accept () { h with text := dropText (A.string y) h.text } :=
    freeString_eq (hA.live_of hlive) (hA.string_eq hlive) (fun _ hs => hA.stringIsConst hs)
      fun hs => hA.text.mpr ⟨y, hs⟩
  have hgone : dropText (A.string y) h.text b = none := by
    rw [hy]
    exact Function.update_self ..
  unfold replaceItemInObject
  dsimp only
  rw [if_neg (Option.some_ne_none y), Attempt.bind_accept hfree]
  -- the copy reads it first of all
  have hread : read (.block b) { h with text := dropText (A.string y) h.text } = .fault .badPointer := by
    simp only [read, hgone]
  exact Attempt.bind_fault (Attempt.bind_fault hread)

theorem replaceItemInObject_own_three :
    replaceItemInObject 3 (some 6) (some 1) (some (.block 5)) (some 3) true threeHeap = .fault .badPointer :=
  replaceItemInObject_own holds_three (s := CStr.lit "a") rfl (some 6) (some 1) true

end

end Heap

end OlegPrinter
