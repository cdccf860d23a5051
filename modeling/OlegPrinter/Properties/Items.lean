/-
  Arrays and objects without pointers, and the heaps that hold them.

  * `Items`: the items there are, with their names, in a forest of their own. A name that is no constant is in a
    block of its own. `Rearranged`, `Created`, `Renamed` and `Pruned` are the ways in which they change.
  * `Heap.Holds`: the heap holds these items, every list of children linked as a ring and every root linked to
    nothing. The blocks that are allocated are the items and their names, and no others.
  * `Holds.rearrange`, `Holds.create`, `Holds.rename`, `Holds.prune`: what a heap has to be like after each of
    these changes, so that it holds what there is then. `Holds.detach` and `Holds.exchange` are the
    first for an item that goes, and for one that comes in its place.
-/
import OlegPrinter.CJson.Heap
import OlegPrinter.Lib.Forest
import OlegPrinter.Lib.Ring
import Mathlib.Data.List.Nodup

namespace OlegPrinter

open CLib

/-! ## Items -/

/-- A name is a constant, or a copy in a block. -/
inductive Name where
  | const (s : CStr)
  | copy (b : TextPtr) (s : CStr)
  deriving DecidableEq

namespace Name

def text : Name → CStr
  | const s => s
  | copy _ s => s

def ptr : Name → NamePtr
  | const s => .const s
  | copy b _ => .block b

def isConst : Name → Bool
  | const _ => true
  | copy _ _ => false

end Name

/-- What there is to an item apart from its children. -/
structure ItemTag where
  string : Option Name
  isReference : Bool

/-- The name that the label of an item gives. -/
def nameIn (label : ItemPtr → Option ItemTag) (p : ItemPtr) : Option Name := (label p).bind ItemTag.string

/-- The items there are. A reference has no children of its own, and no block is the name of two items. -/
structure Items where
  forest : Forest ItemPtr
  label : ItemPtr → Option ItemTag
  owned : ∀ {p c}, c ∈ forest.children p →
    (∃ l, label p = some l ∧ l.isReference = false) ∧ ∃ l, label c = some l
  unshared : ∀ {p q b s t}, nameIn label p = some (.copy b s) → nameIn label q = some (.copy b t) → p = q

namespace Items

variable (A : Items)

def children (p : ItemPtr) : List ItemPtr := A.forest.children p

def Live (p : ItemPtr) : Prop := ∃ l, A.label p = some l

/-- The name. -/
def string (p : ItemPtr) : Option Name := nameIn A.label p

/-- The block is nobody's name, apart perhaps from the item's. -/
def Spare (item : Option ItemPtr) (b : TextPtr) : Prop :=
  ∀ q s, A.string q = some (.copy b s) → some q = item

/-- It can have children. -/
def Owner (p : ItemPtr) : Prop := ∃ l, A.label p = some l ∧ l.isReference = false

/-- It belongs to nothing, so that it can be made a child of `p`. -/
structure Attachable (p x : ItemPtr) : Prop where
  live : A.Live x
  root : A.forest.IsRoot x
  apart : ¬ A.forest.Below p x

/-- The children of `p` are now those of `l`, and nothing else has changed. -/
structure Rearranged (p : ItemPtr) (l : List ItemPtr) (A' : Items) : Prop where
  children : A'.children = Function.update A.children p l
  label : A'.label = A.label

/-- There is an item more, without children. -/
structure Created (b : ItemPtr) (tag : ItemTag) (A' : Items) : Prop where
  children : A'.children = A.children
  label : A'.label = Function.update A.label b (some tag)

/-- An item has another name. -/
structure Renamed (x : ItemPtr) (name : Option Name) (A' : Items) : Prop where
  children : A'.children = A.children
  label : ∃ t, A.label x = some t ∧
    A'.label = Function.update A.label x (some { t with string := name })

/-- What was below `x` is gone. -/
structure Pruned (x : ItemPtr) (A' : Items) : Prop where
  children : ∀ q, ¬ A.forest.Below q x → A'.children q = A.children q
  label : ∀ q, ¬ A.forest.Below q x → A'.label q = A.label q
  gone : ∀ q, A.forest.Below q x → A'.children q = [] ∧ A'.label q = none

variable {A} {p x : ItemPtr} {l : List ItemPtr}

theorem Owner.live (h : A.Owner p) : A.Live p := h.imp fun _ h => h.1

theorem isRoot_congr {A' : Items} (h : A'.children = A.children) :
    A'.forest.IsRoot x ↔ A.forest.IsRoot x :=
  forall_congr' fun q => not_congr (by rw [show A'.forest.children q = A.forest.children q from congrFun h q])

theorem Attachable.ne (h : A.Attachable p x) : p ≠ x := by
  rintro rfl
  exact h.apart (Forest.below_refl p)

theorem Owner.of_child (h : x ∈ A.children p) : A.Owner p := (A.owned h).1

theorem Live.of_child (h : x ∈ A.children p) : A.Live x := (A.owned h).2

/-- A block that is free has no children. -/
theorem children_of_none (h : A.label p = none) : A.children p = [] := by
  refine List.eq_nil_iff_forall_not_mem.mpr fun c hc => ?_
  obtain ⟨l, hl, -⟩ := Owner.of_child hc
  rw [h] at hl
  cases hl

theorem not_child_of_none (h : A.label x = none) : x ∉ A.children p := by
  intro hx
  obtain ⟨l, hl⟩ := Live.of_child hx
  rw [h] at hl
  cases hl

theorem Attachable.not_mem (h : A.Attachable p x) (q : ItemPtr) : x ∉ A.children q := h.root q

theorem string_of_label {t : ItemTag} (h : A.label p = some t) : A.string p = t.string := by
  rw [string, nameIn, h, Option.bind_some]

theorem live_of_string {name : Name} (h : A.string p = some name) : A.Live p := by
  obtain ⟨t, ht, -⟩ := Option.bind_eq_some_iff.mp h
  exact ⟨t, ht⟩

theorem string_congr {A' : Items} (h : A'.label = A.label) : A'.string = A.string := by
  unfold string
  rw [h]

theorem Created.string_eq {A' : Items} {b : ItemPtr} {tag : ItemTag} (h : A.Created b tag A')
    (hb : A.label b = none) (htag : tag.string = none) : A'.string = A.string := by
  funext q
  by_cases hq : q = b
  · have hself : A'.label b = some tag := h.label ▸ Function.update_self ..
    rw [hq, string_of_label hself, htag, string, nameIn, hb]
    rfl
  · rw [string, nameIn, h.label, Function.update_of_ne hq]
    rfl

theorem exists_rearranged (hp : A.Owner p) (hnodup : l.Nodup)
    (hl : ∀ c ∈ l, c ∈ A.children p ∨ A.Attachable p c) : ∃ A', A.Rearranged p l A' := by
  have hl' : ∀ c ∈ l, c ∈ A.forest.children p ∨ A.forest.IsRoot c ∧ ¬ A.forest.Below p c :=
    fun c hc => (hl c hc).imp_right fun h => ⟨h.root, h.apart⟩
  refine ⟨⟨A.forest.setChildren p l hnodup hl', A.label, ?_, A.unshared⟩, rfl, rfl⟩
  intro q c hc
  rw [Forest.children_setChildren] at hc
  by_cases hq : q = p
  · rw [hq, Function.update_self] at hc
    refine ⟨hq ▸ hp, ?_⟩
    rcases hl c hc with hold | hnew
    · exact (A.owned hold).2
    · exact hnew.live
  · rw [Function.update_of_ne hq] at hc
    exact A.owned hc

/-- The same forest, with labels that may differ in the name, and with items more. -/
theorem exists_relabelled {label : ItemPtr → Option ItemTag}
    (h : ∀ p t, A.label p = some t → ∃ t', label p = some t' ∧ t'.isReference = t.isReference)
    (hunshared : ∀ {p q b s t}, nameIn label p = some (.copy b s) → nameIn label q = some (.copy b t) → p = q) :
    ∃ A' : Items, A'.children = A.children ∧ A'.label = label := by
  refine ⟨⟨A.forest, label, fun {p c} hc => ?_, hunshared⟩, rfl, rfl⟩
  obtain ⟨⟨t, ht, howner⟩, u, hu⟩ := A.owned hc
  obtain ⟨t', ht', hreference⟩ := h p t ht
  obtain ⟨u', hu', -⟩ := h c u hu
  exact ⟨⟨t', ht', hreference.trans howner⟩, u', hu'⟩

theorem exists_created {b : ItemPtr} (hb : A.label b = none) {tag : ItemTag} (htag : tag.string = none) :
    ∃ A', A.Created b tag A' := by
  have hold : ∀ p t, A.label p = some t →
      ∃ t', Function.update A.label b (some tag) p = some t' ∧ t'.isReference = t.isReference := by
    intro p t ht
    have hpb : p ≠ b := fun heq => by
      rw [heq, hb] at ht
      cases ht
    exact ⟨t, (Function.update_of_ne hpb ..).trans ht, rfl⟩
  have hname : ∀ {q name}, nameIn (Function.update A.label b (some tag)) q = some name →
      A.string q = some name := by
    intro q name hname
    by_cases hq : q = b
    · rw [hq, nameIn, Function.update_self, Option.bind_some, htag] at hname
      cases hname
    · rwa [nameIn, Function.update_of_ne hq] at hname
  obtain ⟨A', hchildren, hlabel⟩ := exists_relabelled hold fun hp hq => A.unshared (hname hp) (hname hq)
  exact ⟨A', hchildren, hlabel⟩

open Classical in
theorem exists_pruned (hroot : A.forest.IsRoot x) : ∃ A', A.Pruned x A' := by
  let label : ItemPtr → Option ItemTag := fun q => if A.forest.Below q x then none else A.label q
  have howned : ∀ {p c}, c ∈ (A.forest.prune x).children p →
      (∃ l, label p = some l ∧ l.isReference = false) ∧ ∃ l, label c = some l := by
    intro p c hc
    by_cases hp : A.forest.Below p x
    · rw [Forest.children_prune_of_below hp] at hc
      cases hc
    · rw [Forest.children_prune_of_not hp] at hc
      have hcx : c ≠ x := fun heq => hroot p (heq ▸ hc)
      have hc' : ¬ A.forest.Below c x := fun h => hp (Forest.below_parent hc h hcx)
      obtain ⟨⟨t, ht, hreference⟩, u, hu⟩ := A.owned hc
      exact ⟨⟨t, (if_neg hp).trans ht, hreference⟩, u, (if_neg hc').trans hu⟩
  have hname : ∀ {q name}, nameIn label q = some name → A.string q = some name := by
    intro q name hname
    by_cases hq : A.forest.Below q x
    · rw [nameIn, show label q = none from if_pos hq] at hname
      cases hname
    · rwa [nameIn, show label q = A.label q from if_neg hq] at hname
  refine ⟨⟨A.forest.prune x, label, howned, fun hp hq => A.unshared (hname hp) (hname hq)⟩, ?_, ?_, ?_⟩
  · exact fun q hq => Forest.children_prune_of_not hq
  · exact fun q hq => if_neg hq
  · exact fun q hq => ⟨Forest.children_prune_of_below hq, if_pos hq⟩

end Items

namespace Heap

/-! ## What the heap holds -/

structure Holds (h : Heap) (A : Items) : Prop where
  live : ∀ p, h.live p = (A.label p).isSome
  string : ∀ {p l}, A.label p = some l → h.string p = l.string.map Name.ptr
  isReference : ∀ {p l}, A.label p = some l → h.isReference p = l.isReference
  stringIsConst : ∀ {p name}, A.string p = some name → h.stringIsConst p = name.isConst
  text : ∀ {b s}, h.text b = some s ↔ ∃ p, A.string p = some (.copy b s)
  child : ∀ {p}, A.Owner p → h.child p = (A.children p).head?
  ring : ∀ p, Ring h.next h.prev (A.children p)
  root : ∀ {p}, A.Live p → A.forest.IsRoot p → h.next p = none

section

variable {h h' : Heap} {A : Items} {p x : ItemPtr} {l : List ItemPtr}

theorem Holds.live_of (hA : h.Holds A) (hp : A.Live p) : h.live p = true := by
  obtain ⟨l, hl⟩ := hp
  rw [hA.live, hl]
  rfl

theorem Holds.live_child (hA : h.Holds A) (hx : x ∈ A.children p) : h.live x = true :=
  hA.live_of (A.owned hx).2

theorem Holds.live_head (hA : h.Holds A) (hx : (A.children p).head? = some x) : h.live x = true :=
  hA.live_child (List.mem_of_mem_head? hx)

/-- The children of `p` have been linked anew: what has come in or gone out, and what is around it. -/
theorem Holds.rearrange (hA : h.Holds A) (hp : A.Owner p) (hnodup : l.Nodup)
    (hl : ∀ c ∈ l, c ∈ A.children p ∨ A.Attachable p c) (hlive : h'.live = h.live)
    (hstring : h'.string = h.string) (hreference : h'.isReference = h.isReference)
    (hconst : h'.stringIsConst = h.stringIsConst) (htext : h'.text = h.text)
    (hchild : h'.child = Function.update h.child p l.head?) (hring : Ring h'.next h'.prev l)
    (hframe : ∀ c, c ∉ A.children p → c ∉ l → h'.next c = h.next c ∧ h'.prev c = h.prev c)
    (hgone : ∀ c ∈ A.children p, c ∉ l → h'.next c = none) :
    ∃ A', A.Rearranged p l A' ∧ h'.Holds A' := by
  obtain ⟨A', hA'⟩ := Items.exists_rearranged hp hnodup hl
  have hother : ∀ {q}, q ≠ p → A'.children q = A.children q := by
    intro q hq
    rw [hA'.children, Function.update_of_ne hq]
  have hself : A'.children p = l := by
    rw [hA'.children, Function.update_self]
  refine ⟨A', hA', ⟨?_, ?_, ?_, ?_, ?_, ?_, ?_, ?_⟩⟩
  · rw [hlive, hA'.label]
    exact hA.live
  · rw [hstring, hA'.label]
    exact hA.string
  · rw [hreference, hA'.label]
    exact hA.isReference
  · rw [hconst, Items.string_congr hA'.label]
    exact hA.stringIsConst
  · rw [htext, Items.string_congr hA'.label]
    exact hA.text
  · intro q hq
    unfold Items.Owner at hq
    rw [hA'.label] at hq
    rw [hchild]
    by_cases hqp : q = p
    · rw [hqp, Function.update_self, hself]
    · rw [Function.update_of_ne hqp, hother hqp]
      exact hA.child hq
  · intro q
    by_cases hqp : q = p
    · rw [hqp, hself]
      exact hring
    · rw [hother hqp]
      have houtside : ∀ c ∈ A.children q, c ∉ A.children p ∧ c ∉ l := by
        intro c hc
        have hcp : c ∉ A.children p := fun hcp => hqp (A.forest.parent_unique hc hcp)
        refine ⟨hcp, fun hcl => ?_⟩
        rcases hl c hcl with hold | hnew
        · exact hcp hold
        · exact hnew.not_mem q hc
      refine (ring_congr (fun c hc => ?_) fun c hc => ?_).mp (hA.ring q)
      · exact (hframe c (houtside c hc).1 (houtside c hc).2).1.symm
      · exact (hframe c (houtside c hc).1 (houtside c hc).2).2.symm
  · intro q hq hroot
    unfold Items.Live at hq
    rw [hA'.label] at hq
    have hql : q ∉ l := hself ▸ hroot p
    by_cases hqp : q ∈ A.children p
    · exact hgone q hqp hql
    · rw [(hframe q hqp hql).1]
      refine hA.root hq fun p' hp' => ?_
      by_cases hpp : p' = p
      · exact hqp (hpp ▸ hp')
      · have hchildren := hroot p'
        change q ∉ A'.children p' at hchildren
        rw [hother hpp] at hchildren
        exact hchildren hp'

end

section

variable {h : Heap} {A : Items} {p x : ItemPtr}

/-- An item has been linked in between others. -/
theorem Holds.insert (hA : h.Holds A) {u v : List ItemPtr} (hsplit : A.children p = u ++ v)
    (hp : A.Owner p) (hx : A.Attachable p x) {next prev child : ItemPtr → Option ItemPtr}
    (hchild : child = Function.update h.child p (u ++ x :: v).head?) (hring : Ring next prev (u ++ x :: v))
    (hframe : ∀ c, c ∉ A.children p → c ≠ x → next c = h.next c ∧ prev c = h.prev c) :
    ∃ A', A.Rearranged p (u ++ x :: v) A' ∧
      Holds { h with next := next, prev := prev, child := child } A' := by
  have hnodup : (A.children p).Nodup := A.forest.nodup p
  have hxp := hx.not_mem p
  rw [hsplit] at hnodup hxp
  have hold : ∀ {c}, c ∈ u ++ v → c ∈ u ++ x :: v := fun hc =>
    List.perm_middle.symm.subset (List.mem_cons_of_mem _ hc)
  refine hA.rearrange hp ?_ ?_ rfl rfl rfl rfl rfl hchild hring ?_ ?_
  · exact List.nodup_middle.mpr (List.nodup_cons.mpr ⟨hxp, hnodup⟩)
  · intro c hc
    rcases List.mem_cons.mp (List.perm_middle.subset hc) with hcx | hc
    · exact Or.inr (hcx ▸ hx)
    · exact Or.inl (hsplit ▸ hc)
  · intro c hc hcl
    exact hframe c hc fun heq => hcl (heq ▸ List.mem_append_right _ (List.mem_cons_self ..))
  · intro c hc hcl
    rw [hsplit] at hc
    exact absurd (hold hc) hcl

/-- An item has been taken out of the ring, and points nowhere any more. -/
theorem Holds.detach (hA : h.Holds A) {u v : List ItemPtr} (hsplit : A.children p = u ++ x :: v)
    {next prev child : ItemPtr → Option ItemPtr} (hchild : child = Function.update h.child p (u ++ v).head?)
    (hring : Ring next prev (u ++ v))
    (hframe : ∀ c, c ∉ A.children p → next c = h.next c ∧ prev c = h.prev c) :
    ∃ A', A.Rearranged p (u ++ v) A' ∧ Holds
      { h with
        next := Function.update next x none, prev := Function.update prev x none, child := child } A' := by
  have hnodup := A.forest.nodup p
  change (A.children p).Nodup at hnodup
  rw [hsplit] at hnodup
  have hmem : x ∈ A.children p := hsplit ▸ List.mem_append_right _ (List.mem_cons_self ..)
  have hx : x ∉ u ++ v := (List.nodup_middle.mp hnodup).notMem
  have hsub : ∀ c ∈ u ++ v, c ∈ A.children p := by
    intro c hc
    rw [hsplit]
    exact List.perm_middle.symm.subset (List.mem_cons_of_mem _ hc)
  refine hA.rearrange (A.owned hmem).1 (List.nodup_middle.mp hnodup).of_cons
    (fun c hc => Or.inl (hsub c hc)) rfl rfl rfl rfl rfl hchild ?_ ?_ ?_
  · refine (ring_congr (fun c hc => ?_) fun c hc => ?_).mp hring
    · exact (Function.update_of_ne (ne_of_mem_of_not_mem hc hx) ..).symm
    · exact (Function.update_of_ne (ne_of_mem_of_not_mem hc hx) ..).symm
  · intro c hc _
    have hcx : c ≠ x := (ne_of_mem_of_not_mem hmem hc).symm
    exact ⟨(Function.update_of_ne hcx ..).trans (hframe c hc).1,
      (Function.update_of_ne hcx ..).trans (hframe c hc).2⟩
  · intro c hc hcx
    rw [hsplit] at hc
    rcases List.mem_cons.mp (List.perm_middle.subset hc) with rfl | hc
    · exact Function.update_self ..
    · exact absurd hc hcx

/-- An item has come in the place of another, which points nowhere any more. -/
theorem Holds.exchange (hA : h.Holds A) {u v : List ItemPtr} (hsplit : A.children p = u ++ x :: v)
    {r : ItemPtr} (hr : A.Attachable p r) {next prev child : ItemPtr → Option ItemPtr}
    (hchild : child = Function.update h.child p (u ++ r :: v).head?) (hring : Ring next prev (u ++ r :: v))
    (hframe : ∀ c, c ∉ A.children p → c ≠ r → next c = h.next c ∧ prev c = h.prev c) :
    ∃ A', A.Rearranged p (u ++ r :: v) A' ∧ Holds
      { h with
        next := Function.update next x none, prev := Function.update prev x none, child := child } A' := by
  have hnodup : (A.children p).Nodup := A.forest.nodup p
  have hrp := hr.not_mem p
  rw [hsplit] at hnodup hrp
  have hmem : x ∈ A.children p := hsplit ▸ List.mem_append_right _ (List.mem_cons_self ..)
  have hxuv : x ∉ u ++ v := (List.nodup_middle.mp hnodup).notMem
  have hsub : ∀ {c}, c ∈ u ++ v → c ∈ u ++ x :: v := fun hc =>
    List.perm_middle.symm.subset (List.mem_cons_of_mem _ hc)
  have hne : ∀ c ∈ u ++ r :: v, c ≠ x := by
    intro c hc hcx
    rcases List.mem_cons.mp (List.perm_middle.subset hc) with hcr | hc
    · exact hr.not_mem p (hcr ▸ hcx ▸ hmem)
    · exact hxuv (hcx ▸ hc)
  refine hA.rearrange (Items.Owner.of_child hmem) ?_ ?_ rfl rfl rfl rfl rfl hchild ?_ ?_ ?_
  · exact List.nodup_middle.mpr (List.nodup_cons.mpr
      ⟨fun hc => hrp (hsub hc), (List.nodup_middle.mp hnodup).of_cons⟩)
  · intro c hc
    rcases List.mem_cons.mp (List.perm_middle.subset hc) with hcr | hc
    · exact Or.inr (hcr ▸ hr)
    · exact Or.inl (hsplit ▸ hsub hc)
  · refine (ring_congr (fun c hc => ?_) fun c hc => ?_).mp hring
    · exact (Function.update_of_ne (hne c hc) ..).symm
    · exact (Function.update_of_ne (hne c hc) ..).symm
  · intro c hc hcl
    have hcr : c ≠ r := fun heq => hcl (heq ▸ List.mem_append_right _ (List.mem_cons_self ..))
    have hcx : c ≠ x := fun heq => hc (heq ▸ hmem)
    exact ⟨(Function.update_of_ne hcx ..).trans (hframe c hc hcr).1,
      (Function.update_of_ne hcx ..).trans (hframe c hc hcr).2⟩
  · intro c hc hcl
    rw [hsplit] at hc
    rcases List.mem_cons.mp (List.perm_middle.subset hc) with hcx | hc
    · rw [hcx]
      exact Function.update_self ..
    · exact absurd (List.perm_middle.symm.subset (List.mem_cons_of_mem _ hc)) hcl

/-! ## Other items, and other names -/

/-- A block has been filled. Only a reference may start with a `child`. -/
theorem Holds.create (hA : h.Holds A) {h' : Heap} {b : ItemPtr} (hb : A.label b = none) {tag : ItemTag}
    {prev child : Option ItemPtr} (hlive : h'.live = Function.update h.live b true)
    (hnext : h'.next = Function.update h.next b none) (hprev : h'.prev = Function.update h.prev b prev)
    (hchild : h'.child = Function.update h.child b child)
    (hstring : h'.string = Function.update h.string b none)
    (hreference : h'.isReference = Function.update h.isReference b tag.isReference)
    (hconst : ∀ q, q ≠ b → h'.stringIsConst q = h.stringIsConst q) (htext : h'.text = h.text)
    (htag : tag.string = none) (howner : tag.isReference = false → child = none) :
    ∃ A', A.Created b tag A' ∧ h'.Holds A' := by
  obtain ⟨A', hA'⟩ := Items.exists_created hb htag
  have hself : A'.label b = some tag := by rw [hA'.label, Function.update_self]
  have hother : ∀ {q}, q ≠ b → A'.label q = A.label q := by
    intro q hq
    rw [hA'.label, Function.update_of_ne hq]
  have hne : ∀ {q c}, c ∈ A.children q → c ≠ b := fun hc heq =>
    Items.not_child_of_none hb (heq ▸ hc)
  have hnames : A'.string = A.string := hA'.string_eq hb htag
  refine ⟨A', hA', ⟨?_, ?_, ?_, ?_, ?_, ?_, ?_, ?_⟩⟩
  · intro q
    rw [hlive]
    by_cases hq : q = b
    · rw [hq, Function.update_self, hself]
      rfl
    · rw [Function.update_of_ne hq, hother hq]
      exact hA.live q
  · intro q t ht
    rw [hstring]
    by_cases hq : q = b
    · rw [hq, hself] at ht
      cases ht
      rw [hq, Function.update_self, htag, Option.map_none]
    · rw [hother hq] at ht
      rw [Function.update_of_ne hq]
      exact hA.string ht
  · intro q t ht
    rw [hreference]
    by_cases hq : q = b
    · rw [hq, hself] at ht
      cases ht
      rw [hq, Function.update_self]
    · rw [hother hq] at ht
      rw [Function.update_of_ne hq]
      exact hA.isReference ht
  · intro q name hname
    rw [hnames] at hname
    have hqb : q ≠ b := by
      rintro rfl
      obtain ⟨t, ht⟩ := Items.live_of_string hname
      rw [hb] at ht
      cases ht
    exact (hconst q hqb).trans (hA.stringIsConst hname)
  · rw [htext, hnames]
    exact hA.text
  · intro q hq
    rw [hchild, hA'.children]
    by_cases hqb : q = b
    · obtain ⟨t, ht, hreference⟩ := hq
      rw [hqb, hself] at ht
      cases ht
      rw [hqb, Function.update_self, Items.children_of_none hb]
      exact howner hreference
    · unfold Items.Owner at hq
      rw [hother hqb] at hq
      rw [Function.update_of_ne hqb]
      exact hA.child hq
  · intro q
    rw [hA'.children, hnext, hprev]
    refine (ring_congr (fun c hc => ?_) fun c hc => ?_).mp (hA.ring q)
    · exact (Function.update_of_ne (hne hc) ..).symm
    · exact (Function.update_of_ne (hne hc) ..).symm
  · intro q hq hroot
    rw [hnext]
    by_cases hqb : q = b
    · rw [hqb, Function.update_self]
    · unfold Items.Live at hq
      rw [hother hqb] at hq
      rw [Function.update_of_ne hqb]
      exact hA.root hq ((Items.isRoot_congr hA'.children).mp hroot)

/-- The texts without that of a name. -/
def dropText (name : Option Name) (text : TextPtr → Option CStr) : TextPtr → Option CStr :=
  match name with
  | some (.copy b _) => Function.update text b none
  | _ => text

/-- What is below a root has been freed, with the names. -/
theorem Holds.prune (hA : h.Holds A) (hroot : A.forest.IsRoot x) {live : ItemPtr → Bool}
    {text : TextPtr → Option CStr} (hlive : ∀ q, live q = true ↔ h.live q = true ∧ ¬ A.forest.Below q x)
    (htext : ∀ {b s}, text b = some s ↔
      ∃ q, ¬ A.forest.Below q x ∧ A.string q = some (.copy b s)) :
    ∃ A', A.Pruned x A' ∧ Holds { h with live := live, text := text } A' := by
  obtain ⟨A', hA'⟩ := Items.exists_pruned hroot
  -- what still has a label has the one it had, and is not below `x`
  have hold : ∀ {q t}, A'.label q = some t → ¬ A.forest.Below q x ∧ A.label q = some t := by
    intro q t ht
    by_cases hq : A.forest.Below q x
    · rw [(hA'.gone q hq).2] at ht
      cases ht
    · exact ⟨hq, (hA'.label q hq).symm.trans ht⟩
  have hnames : ∀ {q name}, A'.string q = some name ↔ ¬ A.forest.Below q x ∧ A.string q = some name := by
    intro q name
    by_cases hq : A.forest.Below q x
    · have hnone : A'.string q = none := by rw [Items.string, nameIn, (hA'.gone q hq).2, Option.bind_none]
      rw [hnone]
      exact iff_of_false (Option.some_ne_none name).symm fun hand => hand.1 hq
    · rw [and_iff_right hq, Items.string, nameIn, hA'.label q hq]
      rfl
  refine ⟨A', hA', ⟨?_, ?_, ?_, ?_, ?_, ?_, ?_, ?_⟩⟩
  · intro q
    rw [Bool.eq_iff_iff, hlive]
    by_cases hq : A.forest.Below q x
    · rw [(hA'.gone q hq).2]
      exact iff_of_false (fun hand => hand.2 hq) Bool.false_ne_true
    · rw [hA'.label q hq, and_iff_left hq, hA.live]
  · exact fun ht => hA.string (hold ht).2
  · exact fun ht => hA.isReference (hold ht).2
  · exact fun hs => hA.stringIsConst (hnames.mp hs).2
  · exact htext.trans (exists_congr fun q => hnames.symm)
  · intro q hq
    obtain ⟨t, ht, howner⟩ := hq
    obtain ⟨hqx, ht⟩ := hold ht
    rw [hA'.children q hqx]
    exact hA.child ⟨t, ht, howner⟩
  · intro q
    by_cases hq : A.forest.Below q x
    · rw [(hA'.gone q hq).1]
      exact ring_nil
    · rw [hA'.children q hq]
      exact hA.ring q
  · intro q hq hrootQ
    obtain ⟨t, ht⟩ := hq
    obtain ⟨hqx, ht⟩ := hold ht
    refine hA.root ⟨t, ht⟩ fun p hp => ?_
    by_cases hpx : A.forest.Below p x
    · exact hqx (Forest.below_of_parent hp hpx)
    · have hchildren := hrootQ p
      rw [show A'.forest.children p = A.children p from hA'.children p hpx] at hchildren
      exact hchildren hp

end

end Heap

end OlegPrinter
