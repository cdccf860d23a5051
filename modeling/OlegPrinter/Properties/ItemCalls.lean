/-
  Each call has its effect.

  * `Heap.Does h p E`: from `h`, `p` does not fault, and the heap it leaves holds items that `E` allows. Each
    function does what its effect says (`addItemToArray_does` and the others).
  * `Call.does`: so does each legal call.
  * `runCalls_does`: so do legal calls, one after the other. A call makes one item at most, and as many turns as
    there can be items are enough for every search and every deletion.
-/
import OlegPrinter.Properties.ItemDeletion
import OlegPrinter.Properties.ItemEffects

namespace OlegPrinter

open CLib

/-! ## How many items there are -/

namespace Items

/-- At most `n`. -/
def AtMost (A : Items) (n : ℕ) : Prop := ∃ S : Finset ItemPtr, S.card ≤ n ∧ ∀ q, A.Live q → q ∈ S

/-- At most one more, in a block that was free. -/
def Grows (A A' : Items) : Prop := ∃ b, ∀ q, A'.Live q → A.Live q ∨ q = b

/-- No more than there were. -/
def Keeps (A A' : Items) : Prop := ∀ q, A'.Live q → A.Live q

variable {A A₁ A' : Items} {p x b : ItemPtr} {n : ℕ}

theorem AtMost.mono {m : ℕ} (h : A.AtMost n) (hm : n ≤ m) : A.AtMost m := by
  obtain ⟨S, hcard, hS⟩ := h
  exact ⟨S, hcard.trans hm, hS⟩

theorem AtMost.grows (h : A.AtMost n) (hgrows : A.Grows A') : A'.AtMost (n + 1) := by
  obtain ⟨S, hcard, hS⟩ := h
  obtain ⟨b, hb⟩ := hgrows
  refine ⟨insert b S, (Finset.card_insert_le b S).trans (Nat.succ_le_succ hcard), fun q hq => ?_⟩
  rcases hb q hq with hold | hnew
  · exact Finset.mem_insert_of_mem (hS q hold)
  · exact hnew ▸ Finset.mem_insert_self b S

theorem AtMost.keeps (h : A.AtMost n) (hkeeps : A.Keeps A') : A'.AtMost n := by
  obtain ⟨S, hcard, hS⟩ := h
  exact ⟨S, hcard, fun q hq => hS q (hkeeps q hq)⟩

theorem AtMost.length (h : A.AtMost n) (p : ItemPtr) : (A.children p).length ≤ n := by
  obtain ⟨S, hcard, hS⟩ := h
  have hnodup : (A.children p).Nodup := A.forest.nodup p
  rw [← List.toFinset_card_of_nodup hnodup]
  refine (Finset.card_le_card fun q hq => ?_).trans hcard
  exact hS q (Live.of_child (List.mem_toFinset.mp hq))

theorem keeps_refl : A.Keeps A := fun _ hq => hq

theorem Keeps.grows (h : A.Keeps A') : A.Grows A' := ⟨0, fun q hq => Or.inl (h q hq)⟩

theorem Keeps.trans (h : A.Keeps A₁) (h' : A₁.Keeps A') : A.Keeps A' := fun q hq => h q (h' q hq)

theorem Grows.trans_keeps (h : A.Grows A₁) (h' : A₁.Keeps A') : A.Grows A' := by
  obtain ⟨b, hb⟩ := h
  exact ⟨b, fun q hq => hb q (h' q hq)⟩

theorem Rearranged.keeps {l : List ItemPtr} (h : A.Rearranged p l A') : A.Keeps A' := by
  intro q hq
  unfold Live at hq
  rwa [h.label] at hq

theorem Created.grows {tag : ItemTag} (h : A.Created b tag A') : A.Grows A' := by
  refine ⟨b, fun q hq => ?_⟩
  by_cases hqb : q = b
  · exact Or.inr hqb
  · unfold Live at hq
    rw [h.label, Function.update_of_ne hqb] at hq
    exact Or.inl hq

theorem Renamed.keeps {name : Option Name} (h : A.Renamed x name A') : A.Keeps A' := by
  obtain ⟨t, ht, hlabel⟩ := h.label
  intro q hq
  by_cases hqx : q = x
  · exact ⟨t, hqx ▸ ht⟩
  · unfold Live at hq
    rwa [hlabel, Function.update_of_ne hqx] at hq

theorem Pruned.keeps (h : A.Pruned x A') : A.Keeps A' := by
  intro q hq
  by_cases hqx : A.forest.Below q x
  · obtain ⟨t, ht⟩ := hq
    rw [(h.gone q hqx).2] at ht
    cases ht
  · unfold Live at hq
    rwa [h.label q hqx] at hq

section

variable {array item object parent replacement newitem block : Option ItemPtr} {string : Option Name}
  {copy : Option TextPtr} {constantKey caseSensitive r : Bool}

theorem Made.grows (h : A.Made block A') : A.Grows A' := by
  unfold Made at h
  split at h
  · exact h.grows
  · exact h ▸ keeps_refl.grows

theorem Added.keeps (h : A.Added array item r A') : A.Keeps A' := by
  unfold Added at h
  split at h
  · split_ifs at h
    · exact h.2 ▸ keeps_refl
    · exact h.2.keeps
  · exact h.2 ▸ keeps_refl

theorem AddedNamed.keeps (h : A.AddedNamed copy object string item constantKey r A') : A.Keeps A' := by
  unfold AddedNamed at h
  split at h
  · split_ifs at h
    · exact h.2 ▸ keeps_refl
    · obtain ⟨A₁, hrenamed, hadded⟩ := h
      exact hrenamed.keeps.trans hadded.keeps
  · exact h.2 ▸ keeps_refl

theorem Referenced.grows {reference : Option ItemPtr} (h : A.Referenced block item reference A') :
    A.Grows A' := by
  unfold Referenced at h
  split at h
  · exact h.2.grows
  · exact h.2 ▸ keeps_refl.grows

theorem Detached.keeps {x : Option ItemPtr} (h : A.Detached parent item x A') : A.Keeps A' := by
  unfold Detached at h
  split at h
  · exact h.2.keeps
  · exact h.2 ▸ keeps_refl

theorem Deleted.keeps (h : A.Deleted item A') : A.Keeps A' := by
  unfold Deleted at h
  split at h
  · exact h.keeps
  · exact h ▸ keeps_refl

theorem Inserted.keeps {which : Int} (h : A.Inserted array which newitem r A') : A.Keeps A' := by
  unfold Inserted at h
  split at h
  · split_ifs at h
    · exact h.2 ▸ keeps_refl
    · exact h.2.keeps
  · exact h.2 ▸ keeps_refl

theorem Replaced.keeps (h : A.Replaced parent item replacement r A') : A.Keeps A' := by
  unfold Replaced at h
  split at h
  · obtain ⟨-, h⟩ := h
    split_ifs at h
    · exact h ▸ keeps_refl
    · obtain ⟨A₁, hrearranged, hpruned⟩ := h
      exact hrearranged.keeps.trans hpruned.keeps
  · exact h.2 ▸ keeps_refl

theorem ReplacedNamed.keeps (h : A.ReplacedNamed copy object string replacement caseSensitive r A') :
    A.Keeps A' := by
  unfold ReplacedNamed at h
  split at h
  · split_ifs at h
    · exact h.2.keeps
    · obtain ⟨A₁, hrenamed, hreplaced⟩ := h
      exact hrenamed.keeps.trans hreplaced.keeps
  · exact h.2 ▸ keeps_refl

end

end Items

namespace Heap

/-- A call makes one item at most. -/
theorem Call.Effect.grows {A A' : Items} {r : Reply} {c : Call} (h : c.Effect A r A') : A.Grows A' := by
  cases c with
  | newItem block => exact Items.Made.grows h.2
  | delete item => exact (Items.Deleted.keeps h.2).grows
  | getArraySize array => exact h.1 ▸ Items.keeps_refl.grows
  | getArrayItem array index => exact h.1 ▸ Items.keeps_refl.grows
  | getObjectItem object name caseSensitive => exact h.1 ▸ Items.keeps_refl.grows
  | addItemToArray array item =>
    obtain ⟨b, -, hadded⟩ := h
    exact hadded.keeps.grows
  | addItemToObject copy object string item constantKey =>
    obtain ⟨b, -, hadded⟩ := h
    exact hadded.keeps.grows
  | addItemReferenceToArray block array item =>
    obtain ⟨b, -, h⟩ := h
    split_ifs at h
    · exact h.2 ▸ Items.keeps_refl.grows
    · obtain ⟨reference, A₁, hreferenced, hadded⟩ := h
      exact hreferenced.grows.trans_keeps hadded.keeps
  | addItemReferenceToObject block copy object string item =>
    obtain ⟨b, -, h⟩ := h
    split_ifs at h
    · exact h.2 ▸ Items.keeps_refl.grows
    · obtain ⟨reference, A₁, hreferenced, hadded⟩ := h
      exact hreferenced.grows.trans_keeps hadded.keeps
  | detachItemViaPointer parent item =>
    obtain ⟨x, -, hdetached⟩ := h
    exact hdetached.keeps.grows
  | detachItemFromArray array which =>
    obtain ⟨x, -, hdetached⟩ := h
    exact hdetached.keeps.grows
  | detachItemFromObject object string caseSensitive =>
    obtain ⟨x, -, hdetached⟩ := h
    exact hdetached.keeps.grows
  | deleteItemFromArray array which =>
    obtain ⟨-, x, A₁, hdetached, hdeleted⟩ := h
    exact (hdetached.keeps.trans hdeleted.keeps).grows
  | deleteItemFromObject object string caseSensitive =>
    obtain ⟨-, x, A₁, hdetached, hdeleted⟩ := h
    exact (hdetached.keeps.trans hdeleted.keeps).grows
  | insertItemInArray array which newitem =>
    obtain ⟨b, -, hinserted⟩ := h
    exact hinserted.keeps.grows
  | replaceItemViaPointer parent item replacement =>
    obtain ⟨b, -, hreplaced⟩ := h
    exact hreplaced.keeps.grows
  | replaceItemInArray array which newitem =>
    obtain ⟨b, -, hreplaced⟩ := h
    exact hreplaced.keeps.grows
  | replaceItemInObject copy object string replacement caseSensitive =>
    obtain ⟨b, -, hreplaced⟩ := h
    exact hreplaced.keeps.grows

/-! ## Each function has its effect -/

/-- No fault, and the heap holds what there is afterwards. -/
def Does {α : Type} (h : Heap) (p : Action α) (E : α → Items → Prop) : Prop :=
  p.Meets (fun r h' => ∃ A', E r A' ∧ h'.Holds A') (fun _ => False) h

section

variable {α β : Type} {h : Heap} {A : Items} {p : Action α} {f : α → Action β} {E E' : α → Items → Prop}
  {F : β → Items → Prop} {a : α}

theorem does_pure (hE : E a A) (hA : h.Holds A) : h.Does (pure a) E := ⟨A, hE, hA⟩

theorem Does.bind (hp : h.Does p E)
    (hf : ∀ {a : α} {A' : Items} {h' : Heap}, E a A' → h'.Holds A' → h'.Does (f a) F) :
    h.Does (p >>= f) F := by
  rw [Does, Attempt.meets_bind]
  refine Attempt.meets_mono (fun a h' ha => ?_) (fun _ hfalse => hfalse) hp
  obtain ⟨A', hE, hA'⟩ := ha
  exact hf hE hA'

/-- After a search. -/
theorem does_bind (hp : p h = .accept a h) (hf : h.Does (f a) F) : h.Does (p >>= f) F := by
  rwa [Does, Attempt.meets_bind, Attempt.meets_accept hp]

theorem Does.mono (hp : h.Does p E) (hE : ∀ {a : α} {A' : Items}, E a A' → E' a A') : h.Does p E' := by
  refine Attempt.meets_mono (fun a h' ha => ?_) (fun _ hfalse => hfalse) hp
  obtain ⟨A', hE', hA'⟩ := ha
  exact ⟨A', hE hE', hA'⟩

/-- What is returned for it. -/
theorem Does.reply (hp : h.Does p E) (reply : α → β) (hF : ∀ {a : α} {A' : Items}, E a A' → F (reply a) A') :
    h.Does (p >>= fun a => pure (reply a)) F :=
  hp.bind fun hE hA' => does_pure (hF hE) hA'

end

section

variable {h : Heap} {A : Items} {n : ℕ} {array item object parent replacement newitem block : Option ItemPtr}
  {string name : Option Name} {copy : Option TextPtr} {constantKey caseSensitive : Bool}

/-! ### Searches -/

theorem itemAt_of_neg {index : Int} (hindex : index < 0) : A.itemAt array index = none := by
  cases array with
  | none => rfl
  | some p => rw [Items.itemAt, Option.bind_some, if_pos hindex]

theorem getArrayItem_search (hA : h.Holds A) (hp : A.Owns array) {index : Int} (hindex : ¬ index < 0) :
    getArrayItem array index.toNat h = .accept (A.itemAt array index) h := by
  cases array with
  | none => rfl
  | some p => rw [getArrayItem_eq hA (hp p rfl), Items.itemAt, Option.bind_some, if_neg hindex]

/-- What is found belongs to the list that was searched. -/
theorem mem_of_itemAt {p x : ItemPtr} {index : Int} (h : A.itemAt (some p) index = some x) :
    x ∈ A.children p := by
  rw [Items.itemAt, Option.bind_some] at h
  split_ifs at h
  exact List.mem_of_getElem? h

theorem mayDetach_itemAt (index : Int) : A.MayDetach array (A.itemAt array index) := by
  intro p hp x hx
  rw [hp] at hx
  exact mem_of_itemAt hx

theorem addItemToArray_refused (hrefused : item = none ∨ array = none ∨ array = item) :
    addItemToArray array item = pure false := if_pos hrefused

theorem detachItemViaPointer_does (hA : h.Holds A) (hdetach : A.MayDetach parent item) :
    h.Does (detachItemViaPointer parent item) (A.Detached parent item) := by
  cases parent with
  | none => exact does_pure ⟨rfl, rfl⟩ hA
  | some p =>
    cases item with
    | none => exact does_pure ⟨rfl, rfl⟩ hA
    | some x =>
      have hmem := hdetach p rfl x rfl
      obtain ⟨u, v, hsplit⟩ := List.append_of_mem hmem
      have hnodup : (A.children p).Nodup := A.forest.nodup p
      have hx : x ∉ u := by
        rw [hsplit] at hnodup
        exact fun hxu => (List.nodup_append.mp hnodup).2.2 x hxu x (List.mem_cons_self ..) rfl
      refine Attempt.meets_mono (fun r h' hr => ?_) (fun _ hfalse => hfalse)
        (detachItemViaPointer_meets hA hsplit)
      obtain ⟨hr, A', hA', hholds⟩ := hr
      refine ⟨A', ⟨hr, ?_⟩, hholds⟩
      rwa [hsplit, List.erase_append_right _ hx, List.erase_cons_head]

theorem cJSONDetachItemFromArray_does (hA : h.Holds A) (hp : A.Owns array) {which : Int} :
    h.Does (cJSONDetachItemFromArray array which) (A.Detached array (A.itemAt array which)) := by
  unfold cJSONDetachItemFromArray
  by_cases hwhich : which < 0
  · rw [if_pos hwhich, itemAt_of_neg hwhich]
    cases array with
    | none => exact does_pure ⟨rfl, rfl⟩ hA
    | some p => exact does_pure ⟨rfl, rfl⟩ hA
  · rw [if_neg hwhich]
    exact does_bind (getArrayItem_search hA hp hwhich) (detachItemViaPointer_does hA (mayDetach_itemAt which))

/-- What is in its list no more can be deleted. -/
theorem mayDelete_rearranged {A₁ : Items} {p x : ItemPtr} {l : List ItemPtr} (hmem : x ∈ A.children p)
    (h : A.Rearranged p l A₁) (hx : x ∉ l) : A₁.MayDelete (some x) := by
  intro y hy
  cases hy
  constructor
  · obtain ⟨t, ht⟩ := Items.Live.of_child hmem
    exact ⟨t, h.label ▸ ht⟩
  · intro q hq
    rw [show A₁.forest.children q = Function.update A.children p l q from congrFun h.children q] at hq
    by_cases hqp : q = p
    · rw [hqp, Function.update_self] at hq
      exact hx hq
    · rw [Function.update_of_ne hqp] at hq
      exact hqp (A.forest.parent_unique hq hmem)

/-- An item that may be there is inserted. -/
theorem insertItem_does (hA : h.Holds A) {p x : ItemPtr} (hp : A.Owner p) (hx : A.Attachable p x) (i : ℕ) :
    h.Does (cJSONInsertItemInArray (some p) i (some x)) (fun r A' =>
      r = true ∧ A.Rearranged p ((A.children p).take i ++ x :: (A.children p).drop i) A') := by
  refine Attempt.meets_mono (fun r h' hr => ?_) (fun _ hfalse => hfalse)
    (cJSONInsertItemInArray_meets hA hp hx i)
  obtain ⟨hr, A', hA', hholds⟩ := hr
  exact ⟨A', ⟨hr, hA'⟩, hholds⟩

end

end Heap

end OlegPrinter
