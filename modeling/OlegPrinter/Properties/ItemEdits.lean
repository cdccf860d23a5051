/-
  What the functions for arrays and objects do to a heap, whatever items it holds.

  * The searches change nothing, and find what there is in the list of children: the item at an index
    (`getArrayItem_eq`), the first one of a name (`getObjectItem_eq`), how many there are
    (`cJSONGetArraySize_eq`).
  * The others leave a heap that holds what there is after a change of that list: an item behind the last
    (`addItemToArray_meets`), one at an index (`cJSONInsertItemInArray_meets`), one less
    (`detachItemViaPointer_meets`), one for another (`takePlace_meets`).
-/
import OlegPrinter.Properties.Items

namespace OlegPrinter

open CLib

/-! ## Lists of children -/

namespace Items

variable (A : Items)

/-- The first of that name. If case matters, no further than the first without a name. -/
def named (caseSensitive : Bool) (name : CStr) (l : List ItemPtr) : Option ItemPtr :=
  (if caseSensitive then l.takeWhile fun c => (A.string c).isSome else l).find? fun c =>
    (A.string c).any fun s => Heap.sameName caseSensitive name s.text

/-- A constant, or the name of an item that is not the one given. -/
def Readable (item : Option ItemPtr) (name : Name) : Prop :=
  name.isConst = true ∨ ∃ q, A.string q = some name ∧ some q ≠ item

variable {A}

theorem Readable.any {item : Option ItemPtr} {name : Name} (h : A.Readable item name) : A.Readable none name :=
  h.imp_right fun h => h.imp fun q h => ⟨h.1, Option.some_ne_none q⟩

theorem readable_string {c : ItemPtr} {name : Name} (h : A.string c = some name) : A.Readable none name :=
  Or.inr ⟨c, h, Option.some_ne_none c⟩

end Items

namespace Heap

/-! ## Fields -/

section

variable {α β : Type} {h : Heap} {p : ItemPtr} {Q : α → Heap → Prop} {R : Heap → Prop}

theorem field_eq {f : Heap → ItemPtr → β} (hp : h.live p = true) :
    field f (some p) h = .accept (f h p) h := by
  simp only [field, hp, if_true]

theorem meets_field {f : Heap → ItemPtr → β} {k : β → Action α} (hp : h.live p = true)
    (hk : (k (f h p)).Meets Q R h) : (field f (some p) >>= k).Meets Q R h := by
  rwa [Attempt.meets_bind, Attempt.meets_accept (field_eq hp)]

theorem meets_assign {f : ItemPtr → Heap → Heap} {k : Unit → Action α} (hp : h.live p = true)
    (hk : (k ()).Meets Q R (f p h)) : (assign f (some p) >>= k).Meets Q R h := by
  have hassign : assign f (some p) h = .accept () (f p h) := by
    simp only [assign, hp, if_true]
  rwa [Attempt.meets_bind, Attempt.meets_accept hassign]

/-- The last one of a sequence. -/
theorem meets_assigned {f : ItemPtr → Heap → Heap} {Q : Unit → Heap → Prop} (hp : h.live p = true)
    (hq : Q () (f p h)) : (assign f (some p)).Meets Q R h := by
  have hassign : assign f (some p) h = .accept () (f p h) := by
    simp only [assign, hp, if_true]
  rwa [Attempt.meets_accept hassign]

theorem read_eq {name : Name} (htext : ∀ {b s}, name = .copy b s → h.text b = some s) :
    read name.ptr h = .accept name.text h := by
  cases name with
  | const s => rfl
  | copy b s => simp only [Name.ptr, read, htext rfl, Name.text]

/-- The name is freed, if it is the item's own. -/
theorem freeString_eq {name : Option Name} (hp : h.live p = true) (hstring : h.string p = name.map Name.ptr)
    (hconst : ∀ s ∈ name, h.stringIsConst p = s.isConst)
    (htext : ∀ {b s}, name = some (.copy b s) → h.text b = some s) :
    freeString (some p) h = .accept () { h with text := dropText name h.text } := by
  unfold freeString
  rw [Attempt.bind_accept (field_eq hp), Attempt.bind_accept (field_eq hp), hstring]
  cases name with
  | none => rfl
  | some name =>
    rw [hconst name rfl]
    cases name with
    | const c => rfl
    | copy b c =>
      show freeText (.block b) h = _
      simp only [freeText, htext rfl, dropText]

end

/-! ## Searches -/

section

variable {h : Heap} {A : Items} {p : ItemPtr} {l : List ItemPtr} {before : Option ItemPtr}

theorem itemFrom_eq (hlinked : Linked h.next h.prev before l none) (hlive : ∀ c ∈ l, h.live c = true)
    (index : ℕ) : itemFrom index l.head? h = .accept l[index]? h := by
  induction l generalizing before index with
  | nil => cases index <;> rfl
  | cons c l ih =>
    cases index with
    | zero => rfl
    | succ index =>
      obtain ⟨-, hnext, hrest⟩ := hlinked
      rw [Option.or_none] at hnext
      show (field Heap.next (some c) >>= itemFrom index) h = _
      rw [Attempt.bind_accept (field_eq (hlive c (List.mem_cons_self ..))), hnext,
        ih hrest (fun d hd => hlive d (List.mem_cons_of_mem _ hd)), List.getElem?_cons_succ]

theorem getArrayItem_eq (hA : h.Holds A) (hp : A.Owner p) (index : ℕ) :
    getArrayItem (some p) index h = .accept (A.children p)[index]? h := by
  unfold getArrayItem
  rw [if_neg (Option.some_ne_none p), Attempt.bind_accept (field_eq (hA.live_of hp.live)), hA.child hp]
  exact itemFrom_eq (hA.ring p) (fun c hc => hA.live_child hc) index

theorem Holds.string_eq (hA : h.Holds A) {c : ItemPtr} (hc : A.Live c) :
    h.string c = (A.string c).map Name.ptr := by
  obtain ⟨t, ht⟩ := hc
  rw [hA.string ht, Items.string_of_label ht]

theorem Holds.read_eq (hA : h.Holds A) {name : Name} (hname : A.Readable none name) :
    read name.ptr h = .accept name.text h := by
  refine Heap.read_eq fun {b s} heq => ?_
  rcases hname with hconst | ⟨q, hq, -⟩
  · rw [heq] at hconst
    cases hconst
  · exact hA.text.mpr ⟨q, heq ▸ hq⟩

theorem memberFrom_eq (hA : h.Holds A) (caseSensitive : Bool) {name : Name} (hname : A.Readable none name)
    (hlinked : Linked h.next h.prev before l none) (hlive : ∀ c ∈ l, A.Live c) {n : ℕ} (hn : l.length ≤ n) :
    memberFrom caseSensitive name.ptr n l.head? h = .accept (A.named caseSensitive name.text l) h := by
  induction l generalizing before n with
  | nil => cases n <;> cases caseSensitive <;> rfl
  | cons c l ih =>
    obtain ⟨n, rfl⟩ := Nat.exists_eq_succ_of_ne_zero (Nat.ne_of_gt (Nat.lt_of_lt_of_le l.length.succ_pos hn))
    obtain ⟨-, hnext, hrest⟩ := hlinked
    rw [Option.or_none] at hnext
    have hc := hlive c (List.mem_cons_self ..)
    have hrest := ih hrest (fun d hd => hlive d (List.mem_cons_of_mem _ hd)) (Nat.le_of_succ_le_succ hn)
    rw [List.head?_cons, memberFrom, Attempt.bind_accept (field_eq (hA.live_of hc)), hA.string_eq hc]
    have hgo : (field Heap.next (some c) >>= memberFrom caseSensitive name.ptr n) h =
        .accept (A.named caseSensitive name.text l) h := by
      rw [Attempt.bind_accept (field_eq (hA.live_of hc)), hnext, hrest]
    cases hstring : A.string c with
    | none =>
      cases caseSensitive with
      | true => simp [Items.named, hstring, pure]
      | false => simpa [Items.named, hstring] using hgo
    | some string =>
      rw [Option.map_some]
      dsimp only
      rw [Attempt.bind_accept (hA.read_eq hname),
        Attempt.bind_accept (hA.read_eq (Items.readable_string hstring))]
      cases hsame : sameName caseSensitive name.text string.text with
      | true => cases caseSensitive <;> simp [Items.named, hstring, hsame, pure]
      | false => cases caseSensitive <;> simpa [Items.named, hstring, hsame] using hgo

theorem getObjectItem_eq (hA : h.Holds A) (hp : A.Owner p) (caseSensitive : Bool) {name : Name}
    (hname : A.Readable none name) {n : ℕ} (hn : (A.children p).length ≤ n) :
    getObjectItem n (some p) (some name.ptr) caseSensitive h =
      .accept (A.named caseSensitive name.text (A.children p)) h := by
  unfold getObjectItem
  dsimp only
  rw [if_neg (Option.some_ne_none p), Attempt.bind_accept (field_eq (hA.live_of hp.live)), hA.child hp]
  exact memberFrom_eq hA caseSensitive hname (hA.ring p) (fun c hc => Items.Live.of_child hc) hn

end

section

variable {h : Heap} {A : Items} {p x : ItemPtr}

/-! ## Adding -/

theorem addItemToArray_meets (hA : h.Holds A) (hp : A.Owner p) (hx : A.Attachable p x) :
    (addItemToArray (some p) (some x)).Meets
      (fun r h' => r = true ∧ ∃ A', A.Rearranged p (A.children p ++ [x]) A' ∧ h'.Holds A')
      (fun _ => False) h := by
  have hlive := hA.live_of hp.live
  have hliveX := hA.live_of hx.live
  have hnext := hA.root hx.live hx.root
  have hmem := hx.not_mem p
  have hring := hA.ring p
  unfold addItemToArray
  rw [if_neg (by simp [hx.ne])]
  refine meets_field hlive ?_
  rw [hA.child hp]
  cases hhead : (A.children p).head? with
  | none =>
    have hnil := List.head?_eq_none_iff.mp hhead
    rw [if_pos rfl]
    refine meets_assign hlive (meets_assign hliveX (meets_assign hliveX ⟨rfl, ?_⟩))
    refine hA.insert (List.append_nil _).symm hp hx ?_ ?_ fun c _ hcx => ?_
    · rw [hnil]
      rfl
    · rw [hnil]
      exact ring_singleton x
    · exact ⟨Function.update_of_ne hcx .., Function.update_of_ne hcx ..⟩
  | some first =>
    have hprev := hring.prev_head hhead
    rw [if_neg (Option.some_ne_none _)]
    refine meets_field (hA.live_head hhead) ?_
    cases hlast : (A.children p).getLast? with
    | none =>
      rw [List.getLast?_eq_none_iff.mp hlast] at hhead
      cases hhead
    | some last =>
      rw [hprev, hlast, if_pos (Option.some_ne_none _)]
      have hliveLast := hA.live_child (List.mem_of_getLast? hlast)
      unfold suffixObject
      rw [Attempt.meets_bind]
      refine meets_assign hliveLast (meets_assigned hliveX (meets_field hlive ?_))
      rw [show Heap.child _ p = some first from (hA.child hp).trans hhead]
      refine meets_assign (hA.live_head hhead) ⟨rfl, ?_⟩
      refine hA.insert (List.append_nil _).symm hp hx ?_
        (hring.push hhead hlast (A.forest.nodup p) hmem hnext) fun c hc hcx => ?_
      · rw [List.head?_append, hhead, Option.some_or, ← hhead, ← hA.child hp, Function.update_eq_self]
      · have hcFirst : c ≠ first := (ne_of_mem_of_not_mem (List.mem_of_mem_head? hhead) hc).symm
        have hcLast : c ≠ last := (ne_of_mem_of_not_mem (List.mem_of_getLast? hlast) hc).symm
        exact ⟨Function.update_of_ne hcLast ..,
          (Function.update_of_ne hcFirst ..).trans (Function.update_of_ne hcx ..)⟩

/-! ## Inserting -/

theorem cJSONInsertItemInArray_meets (hA : h.Holds A) (hp : A.Owner p) (hx : A.Attachable p x) (i : ℕ) :
    (cJSONInsertItemInArray (some p) i (some x)).Meets
      (fun r h' => r = true ∧
        ∃ A', A.Rearranged p ((A.children p).take i ++ x :: (A.children p).drop i) A' ∧ h'.Holds A')
      (fun _ => False) h := by
  unfold cJSONInsertItemInArray
  rw [if_neg (Int.not_lt.mpr (Int.natCast_nonneg i)), Int.toNat_natCast, Attempt.meets_bind,
    Attempt.meets_accept (getArrayItem_eq hA hp i)]
  cases hitem : (A.children p)[i]? with
  | none =>
    have hlength := List.getElem?_eq_none_iff.mp hitem
    rw [if_pos rfl, List.take_of_length_le hlength, List.drop_eq_nil_of_le hlength]
    exact addItemToArray_meets hA hp hx
  | some a =>
    obtain ⟨hi, ha⟩ := List.getElem?_eq_some_iff.mp hitem
    have hsplit : A.children p = (A.children p).take i ++ a :: (A.children p).drop (i + 1) := by
      rw [← ha, ← List.drop_eq_getElem_cons hi, List.take_append_drop]
    have hdrop : (A.children p).drop i = a :: (A.children p).drop (i + 1) := by
      rw [← ha, ← List.drop_eq_getElem_cons hi]
    rw [hdrop]
    generalize (A.children p).take i = u at hsplit ⊢
    generalize (A.children p).drop (i + 1) = v at hsplit ⊢
    have hmem : a ∈ A.children p := List.mem_of_getElem? hitem
    have hxp := hx.not_mem p
    have hxa : x ≠ a := (ne_of_mem_of_not_mem hmem hxp).symm
    have hlive := hA.live_of hp.live
    have hliveX := hA.live_of hx.live
    have hliveA := hA.live_child hmem
    have hring := hA.ring p
    have hnodup : (A.children p).Nodup := A.forest.nodup p
    have hchild := hA.child hp
    have hframe : ∀ {c d : ItemPtr} {f : ItemPtr → Option ItemPtr} {y : Option ItemPtr}, d ∈ A.children p →
        c ∉ A.children p → Function.update f d y c = f c := fun hd hc =>
      Function.update_of_ne (ne_of_mem_of_not_mem hd hc).symm ..
    rw [if_neg (Option.some_ne_none _)]
    refine meets_assign hliveX (meets_field hliveA (meets_assign hliveX (meets_assign hliveA
      (meets_field hlive ?_))))
    cases hlast : u.getLast? with
    | none =>
      obtain rfl := List.getLast?_eq_none_iff.mp hlast
      rw [List.nil_append] at hsplit
      rw [hsplit] at hring hnodup hxp hchild
      rw [show Heap.child _ p = some a from hchild, if_pos rfl]
      refine meets_assign hlive ⟨rfl, ?_⟩
      refine hA.insert hsplit hp hx rfl (hring.insertFirst hnodup hxp) fun c hc hcx => ?_
      exact ⟨Function.update_of_ne hcx .., (hframe hmem hc).trans (Function.update_of_ne hcx ..)⟩
    | some c =>
      have hc : c ∈ A.children p := hsplit ▸ List.mem_append_left _ (List.mem_of_getLast? hlast)
      obtain ⟨b, hhead⟩ : ∃ b, u.head? = some b := by
        cases hu : u.head? with
        | some b => exact ⟨b, rfl⟩
        | none => rw [List.head?_eq_none_iff.mp hu] at hlast; cases hlast
      rw [hsplit] at hring hnodup hxp hchild
      rw [List.head?_append, hhead, Option.some_or] at hchild
      have hab : some a ≠ some b := fun heq =>
        (List.nodup_append.mp hnodup).2.2 b (List.mem_of_mem_head? hhead) a (List.mem_cons_self ..)
          (Option.some.inj heq).symm
      have hprev : h.prev a = some c := by
        rw [(ring_append.mp hring).2.1, hlast, Option.some_or]
      rw [show Heap.child _ p = some b from hchild, if_neg hab]
      refine meets_field hliveX ?_
      rw [show Heap.prev _ x = some c from
        (Function.update_of_ne hxa ..).trans ((Function.update_self ..).trans hprev)]
      refine meets_assign (hA.live_child hc) ⟨rfl, ?_⟩
      refine hA.insert hsplit hp hx ?_ (hring.insertBefore hlast hnodup hxp) fun d hd hdx => ?_
      · rw [List.head?_append, hhead, Option.some_or, ← hchild, Function.update_eq_self]
      · exact ⟨(hframe hc hd).trans (Function.update_of_ne hdx ..),
          (hframe hmem hd).trans (Function.update_of_ne hdx ..)⟩

/-! ## Detaching -/

theorem detachItemViaPointer_meets (hA : h.Holds A) {u v : List ItemPtr}
    (hsplit : A.children p = u ++ x :: v) :
    (detachItemViaPointer (some p) (some x)).Meets
      (fun r h' => r = some x ∧ ∃ A', A.Rearranged p (u ++ v) A' ∧ h'.Holds A') (fun _ => False) h := by
  have hmem : x ∈ A.children p := hsplit ▸ List.mem_append_right _ (List.mem_cons_self ..)
  have hp : A.Owner p := (A.owned hmem).1
  have hlive := hA.live_of hp.live
  have hliveX := hA.live_child hmem
  have hnodup := A.forest.nodup p
  change (A.children p).Nodup at hnodup
  have hring := hA.ring p
  have hchild := hA.child hp
  rw [hsplit] at hnodup hring hchild
  have hx : x ∉ u ++ v := (List.nodup_middle.mp hnodup).notMem
  have hnextX : h.next x = v.head? := (ring_append.mp hring).2.2.1
  have hsub : ∀ {c}, c ∈ u ++ v → c ∈ A.children p := by
    intro c hc
    rw [hsplit]
    exact List.perm_middle.symm.subset (List.mem_cons_of_mem _ hc)
  have hframe : ∀ {c d : ItemPtr} {f : ItemPtr → Option ItemPtr} {y : Option ItemPtr}, d ∈ u ++ v → c ∉ A.children p →
      Function.update f d y c = f c := fun hd hc =>
    Function.update_of_ne (ne_of_mem_of_not_mem (hsub hd) hc).symm ..
  unfold detachItemViaPointer
  rw [if_neg (by simp)]
  refine meets_field hlive ?_
  rw [hchild]
  cases hlast : u.getLast? with
  | none =>
    obtain rfl := List.getLast?_eq_none_iff.mp hlast
    rw [List.nil_append] at *
    refine Attempt.meets_unless (fun hne => hne rfl) (meets_field hliveX ?_)
    rw [hnextX]
    cases hhead : v.head? with
    | none =>
      obtain rfl := List.head?_eq_none_iff.mp hhead
      refine Attempt.meets_unless (fun hne => hne rfl) (meets_field hlive (meets_field hliveX ?_))
      refine Attempt.meets_when hchild.symm (meets_assigned hlive ?_)
      refine Attempt.meets_unless (fun hne => hne.1 hchild.symm) ?_
      refine meets_assign hliveX (meets_assign hliveX ⟨rfl, ?_⟩)
      refine hA.detach hsplit ?_ ring_nil fun c _ => ⟨rfl, rfl⟩
      exact congrArg (Function.update h.child p) hnextX
    | some b =>
      have hb : b ∈ v := List.mem_of_mem_head? hhead
      have hbx : x ≠ b := (ne_of_mem_of_not_mem hb hx).symm
      refine Attempt.meets_when (Option.some_ne_none _) (meets_field hliveX ?_)
      refine meets_assigned (hA.live_child (hsub hb)) (meets_field hlive (meets_field hliveX ?_))
      refine Attempt.meets_when hchild.symm (meets_assigned hlive ?_)
      refine Attempt.meets_unless (fun hne => hne.1 hchild.symm) ?_
      refine meets_assign hliveX (meets_assign hliveX ⟨rfl, ?_⟩)
      refine hA.detach hsplit ?_ (hring.removeFirst hhead hnodup) fun c hc => ⟨rfl, hframe hb hc⟩
      exact congrArg (Function.update h.child p) hnextX
  | some c =>
    have hc : c ∈ u := List.mem_of_getLast? hlast
    obtain ⟨a, hhead⟩ : ∃ a, u.head? = some a := by
      cases hu : u.head? with
      | some a => exact ⟨a, rfl⟩
      | none => rw [List.head?_eq_none_iff.mp hu] at hc; cases hc
    have ha : a ∈ u := List.mem_of_mem_head? hhead
    have hax : x ≠ a := (ne_of_mem_of_not_mem (List.mem_append_left _ ha) hx).symm
    have hcx : x ≠ c := (ne_of_mem_of_not_mem (List.mem_append_left _ hc) hx).symm
    have hfirst : (u ++ x :: v).head? = some a := by rw [List.head?_append, hhead, Option.some_or]
    have hfirst' : (u ++ v).head? = some a := by rw [List.head?_append, hhead, Option.some_or]
    have hkept : h.child = Function.update h.child p (u ++ v).head? := by
      rw [hfirst', ← hfirst, ← hchild, Function.update_eq_self]
    have hprevX : h.prev x = some c := by
      rw [(ring_append.mp hring).2.1, hlast, Option.some_or]
    have hne : some x ≠ h.child p := by
      rw [hchild, hfirst]
      exact fun heq => hax (Option.some.inj heq)
    rw [hfirst]
    refine Attempt.meets_when (fun heq => hax (Option.some.inj heq)) (meets_field hliveX ?_)
    rw [hprevX]
    refine meets_field hliveX (meets_assigned (hA.live_child (hsub (List.mem_append_left _ hc))) ?_)
    refine meets_field hliveX ?_
    rw [show Heap.next _ x = v.head? from (Function.update_of_ne hcx ..).trans hnextX]
    cases hheadV : v.head? with
    | none =>
      obtain rfl := List.head?_eq_none_iff.mp hheadV
      have hremoved := hring.removeLast hhead hlast hnodup
      rw [← List.append_nil u] at hremoved
      refine Attempt.meets_unless (fun hne => hne rfl) (meets_field hlive (meets_field hliveX ?_))
      refine Attempt.meets_unless hne (Attempt.meets_when ⟨hne, ?_⟩ ?_)
      · exact (Function.update_of_ne hcx ..).trans hnextX
      · refine meets_field hliveX ?_
        rw [show Heap.child _ p = some a from hchild.trans hfirst]
        refine meets_assigned (hA.live_child (hsub (List.mem_append_left _ ha))) ?_
        refine meets_assign hliveX (meets_assign hliveX ⟨rfl, ?_⟩)
        exact hA.detach hsplit hkept hremoved fun d hd =>
          ⟨hframe (List.mem_append_left _ hc) hd, hframe (List.mem_append_left _ ha) hd⟩
    | some b =>
      have hb : b ∈ v := List.mem_of_mem_head? hheadV
      refine Attempt.meets_when (Option.some_ne_none _) (meets_field hliveX ?_)
      refine meets_assigned (hA.live_child (hsub (List.mem_append_right _ hb))) ?_
      refine meets_field hlive (meets_field hliveX ?_)
      refine Attempt.meets_unless hne (Attempt.meets_unless (fun hne => ?_) ?_)
      · have hnext := ((Function.update_of_ne hcx ..).trans hnextX).symm.trans hne.2
        rw [hheadV] at hnext
        cases hnext
      · refine meets_assign hliveX (meets_assign hliveX ⟨rfl, ?_⟩)
        exact hA.detach hsplit hkept (hring.removeBetween hlast hheadV hnodup) fun d hd =>
          ⟨hframe (List.mem_append_left _ hc) hd, hframe (List.mem_append_right _ hb) hd⟩

/-! ## Replacing -/

end

end Heap

end OlegPrinter
