/-
  The text of an item, and when printing has room for it.

  * `render`: the text, by recursion over the item alone: no buffer, no allocation. There is none
    for an item that cannot be printed.
  * `Reserve`: what is known of the allocator: nothing (`Reserve.any`), that there is a buffer of `n`
    bytes and no other (`Reserve.fixed`), that everything up to `INT_MAX` is granted
    (`Reserve.plenty`). `short m` says that `m` bytes are more than there may be.
  * `printValue_prints`: under each of them, what is printed is the text, with two bytes to spare at least,
    and nothing is printed only where there is no text or two bytes beyond it are too much.

  So a buffer that the caller provides needs one byte beyond the terminator, and no more
  (`cJSONPrintPreallocated_iff`).
-/
import OlegPrinter.Lib.Attempt
import OlegPrinter.CJson.Print

namespace OlegPrinter

open CLib

/-! ## Texts -/

/-- Only if formatted. -/
def layout (format : Bool) (text : List UInt8) : List UInt8 := if format then text else []

/-- A string between quotes; NULL is an empty one. -/
def renderString : Option CStr → List UInt8
  | none => [quote, quote]
  | some s => quote :: s.bytes.flatMap escape ++ [quote]

mutual

/-- The text of an item in `depth` brackets. -/
def render (format : Bool) (depth : Nat) : CJson → Option (List UInt8)
  | .invalid => none
  | .null => some (ascii "null")
  | .false => some (ascii "false")
  | .true => some (ascii "true")
  | .number valueint d =>
    if 25 < (numberText valueint d).length then none else some (numberText valueint d)
  | .raw none => none
  | .raw (some s) => some s.bytes
  | .string s => some (renderString s)
  | .array child => do
    let elements ← renderElements format (depth + 1) child
    pure (ascii "[" ++ elements ++ ascii "]")
  | .object child => do
    let members ← renderMembers format (depth + 1) child
    pure (ascii "\x7b" ++ layout format (ascii "\n") ++ members ++
      layout format (List.replicate depth tab) ++ ascii "\x7d")

def renderElements (format : Bool) (depth : Nat) : Chain → Option (List UInt8)
  | .nil => some []
  | .cons _ item next => do
    let element ← render format depth item
    let elements ← renderElements format depth next
    pure (element ++ (if next.isNil then [] else ascii "," ++ layout format (ascii " ")) ++ elements)

def renderMembers (format : Bool) (depth : Nat) : Chain → Option (List UInt8)
  | .nil => some []
  | .cons string item next => do
    let value ← render format depth item
    let members ← renderMembers format depth next
    pure (layout format (List.replicate depth tab) ++ renderString string ++ ascii ":" ++
      layout format [tab] ++ value ++ (if next.isNil then [] else ascii ",") ++
      layout format (ascii "\n") ++ members)

end

/-! ## Memory -/

/-- There is room for a terminator, or nothing has been allocated yet. -/
def Printbuffer.Fits (p : Printbuffer) : Prop := p.length = 0 ∨ p.offset < p.length

structure Reserve where
  Holds : Printbuffer → Prop
  short : ℕ → Prop
  ensure : ∀ p needed, Holds p → p.Fits →
    Yields (p.ensure needed) Holds (short (p.offset + needed + 1))
  write : ∀ p text depth, Holds p → Holds { p with text := text, depth := depth }
  mono : ∀ {m m'}, m ≤ m' → short m → short m'

/-- What has been made room for can be written. -/
theorem Printbuffer.ensure_room {p q : Printbuffer} {needed : Nat} (h : p.ensure needed = some q) :
    p.offset + needed + 1 ≤ q.length ∧ q = { p with length := q.length } := by
  unfold Printbuffer.ensure Printbuffer.grow at h
  dsimp only at h
  split_ifs at h
  · cases h
    exact ⟨by omega, rfl⟩
  · cases h
    exact ⟨by dsimp only; omega, rfl⟩
  · cases h
    exact ⟨by dsimp only; omega, rfl⟩

def Reserve.any : Reserve where
  Holds _ := True
  short _ := True
  ensure p needed _ _ := by
    cases p.ensure needed <;> trivial
  write _ _ _ _ := trivial
  mono _ _ := trivial

/-- A buffer of `n` bytes. -/
def Reserve.fixed (n : ℕ) (hn : n ≤ intMax) : Reserve where
  Holds p := p.length = n ∧ ∀ size newsize, p.hooks.reallocate size newsize = false
  short m := n < m
  ensure p needed := by
    rintro ⟨rfl, hhooks⟩ hfits
    unfold Printbuffer.ensure Printbuffer.grow
    unfold Printbuffer.Fits at hfits
    dsimp only
    rw [if_neg (by omega)]
    split_ifs with h1 h2 h3 h4 h5 h6
    · exact Nat.lt_of_le_of_lt hn (by omega)
    · exact ⟨rfl, hhooks⟩
    · exact absurd h5 (by simp [hhooks])
    · exact Nat.lt_of_not_le (by omega)
    · exact Nat.lt_of_not_le (by omega)
    · exact absurd h6 (by simp [hhooks])
    · exact Nat.lt_of_not_le (by omega)
  write _ _ _ h := h
  mono h h' := Nat.lt_of_lt_of_le h' h

/-- Everything up to `INT_MAX` is granted. -/
def Reserve.plenty : Reserve where
  Holds p := p.length ≤ intMax ∧ ∀ size newsize, p.hooks.reallocate size newsize = true
  short m := intMax < m
  ensure p needed := by
    rintro ⟨hlength, hhooks⟩ hfits
    unfold Printbuffer.ensure Printbuffer.grow
    unfold Printbuffer.Fits at hfits
    dsimp only
    rw [if_neg (by omega)]
    split_ifs with h1 h2 h3 h4 h5 h6
    · exact Nat.lt_of_lt_of_le h1 (by omega)
    · exact ⟨hlength, hhooks⟩
    · exact ⟨Nat.le_refl _, hhooks⟩
    · exact absurd (hhooks _ _) h5
    · exact Nat.lt_of_not_le (by omega)
    · exact ⟨by dsimp only; omega, hhooks⟩
    · exact absurd (hhooks _ _) h6
  write _ _ _ h := h
  mono h h' := Nat.lt_of_lt_of_le h' h

/-! ## Appending -/

/-- `t` has been put behind what there was, at this depth, with `spare` bytes left at least. -/
structure Appended (M : Reserve) (p : Printbuffer) (t : List UInt8) (spare depth : ℕ) (q : Printbuffer) :
    Prop where
  text : q.text = p.text ++ t
  depth : q.depth = depth
  format : q.format = p.format
  holds : M.Holds q
  room : q.offset + spare ≤ q.length

/-- `f` is what comes of printing `r` behind `p`: where there is such a text, that is printed unless two
    bytes beyond it are too much. -/
def Prints (M : Reserve) (p : Printbuffer) (f : Option Printbuffer) (r : Option (List UInt8))
    (spare depth : ℕ) : Prop :=
  match r with
  | some t => ∀ m, p.offset + t.length + 2 ≤ m → Yields f (Appended M p t spare depth) (M.short m)
  | none => f = none

section

variable {M : Reserve} {p q q' : Printbuffer} {t u : List UInt8} {spare spare' depth depth' : ℕ}

theorem Appended.offset (h : Appended M p t spare depth q) : q.offset = p.offset + t.length := by
  unfold Printbuffer.offset
  rw [h.text, List.length_append]

theorem Appended.fits (h : Appended M p t (spare + 1) depth q) : q.Fits := by
  have := h.room
  exact Or.inr (by omega)

theorem Appended.trans (h : Appended M p t spare depth q) (h' : Appended M q u spare' depth' q') :
    Appended M p (t ++ u) spare' depth' q' where
  text := by rw [h'.text, h.text, List.append_assoc]
  depth := h'.depth
  format := h'.format.trans h.format
  holds := h'.holds
  room := h'.room

/-- Make room, write, and perhaps change the depth. -/
theorem prints_write (hp : M.Holds p) (hfits : p.Fits) {needed : ℕ} (hspare : spare ≤ 2)
    (hneeded : t.length + spare = needed + 1) {w : Printbuffer → Printbuffer}
    (hw : ∀ length, w { p with length := length } =
      { p with length := length, text := p.text ++ t, depth := depth }) :
    Prints M p (p.ensure needed >>= fun q => pure (w q)) (some t) spare depth := by
  intro m hm
  have hensure := M.ensure p needed hp hfits
  rw [yields_bind]
  cases hq : p.ensure needed with
  | none =>
    rw [hq] at hensure
    exact M.mono (by omega) hensure
  | some q =>
    rw [hq] at hensure
    obtain ⟨hroom, heq⟩ := Printbuffer.ensure_room hq
    rw [yields_some, yields_pure, heq, hw]
    rw [heq] at hensure
    refine ⟨rfl, rfl, rfl, M.write _ _ _ hensure, ?_⟩
    change (p.text ++ t).length + spare ≤ q.length
    rw [List.length_append]
    unfold Printbuffer.offset at hroom
    omega

/-- One after the other. -/
theorem Prints.bind {f : Option Printbuffer} {g : Printbuffer → Option Printbuffer}
    {r r' : Option (List UInt8)} (h : Prints M p f r spare depth)
    (hg : ∀ q t, Appended M p t spare depth q → Prints M q (g q) r' spare' depth') :
    Prints M p (f >>= g) (do
      let t ← r
      let u ← r'
      pure (t ++ u)) spare' depth' := by
  cases r with
  | none =>
    rw [show f = none from h]
    rfl
  | some t =>
    cases r' with
    | none =>
      cases f with
      | none => rfl
      | some q => exact hg q t (h _ (Nat.le_refl _))
    | some u =>
      intro m hm
      rw [List.length_append] at hm
      rw [yields_bind]
      refine yields_mono (fun q hq => ?_) (fun h => h) (h m (by omega))
      refine yields_mono (fun q' hq' => hq.trans hq') (fun h => h) (hg q t hq m ?_)
      rw [hq.offset]
      omega

/-- Nothing at all. -/
theorem prints_nil (hp : M.Holds p) (hroom : p.offset + spare ≤ p.length) (hdepth : p.depth = depth) :
    Prints M p (some p) (some []) spare depth := by
  intro m hm
  exact ⟨(List.append_nil _).symm, hdepth, rfl, hp, hroom⟩

/-! ## Pieces -/

theorem printText_prints (hp : M.Holds p) (hfits : p.Fits) (bytes : List UInt8) :
    Prints M p (printText bytes p) (some bytes) 2 p.depth :=
  prints_write hp hfits (Nat.le_refl 2) rfl fun _ => rfl

theorem printStringPtr_prints (hp : M.Holds p) (hfits : p.Fits) (s : Option CStr) :
    Prints M p (printStringPtr s p) (some (renderString s)) 2 p.depth := by
  cases s with
  | none => exact prints_write hp hfits (Nat.le_refl 2) rfl fun _ => rfl
  | some s =>
    have hlength : (renderString (some s)).length + 2 = outputLength s.bytes + 3 + 1 := by
      rw [renderString, List.length_append, List.length_cons, length_flatMap_escape]
      rfl
    unfold printStringPtr
    -- both branches write the escaped string
    have hwrite : ∀ q : Printbuffer,
        (if (s.bytes.map escapeCharacters).sum = 0 then
          (pure (q.write (quote :: s.bytes ++ [quote])) : Option Printbuffer)
        else pure (q.write (quote :: s.bytes.flatMap escape ++ [quote]))) =
          pure (q.write (renderString (some s))) := by
      intro q
      split_ifs with h
      · rw [renderString, flatMap_escape_eq_self h]
      · rfl
    simp only [hwrite]
    exact prints_write hp hfits (Nat.le_refl 2) hlength fun _ => rfl

theorem printNumber_prints (hp : M.Holds p) (hfits : p.Fits) (valueint : Int) (d : Double) :
    Prints M p (printNumber valueint d p)
      (if 25 < (numberText valueint d).length then none else some (numberText valueint d)) 2 p.depth := by
  unfold printNumber
  dsimp only
  split_ifs with h
  · rfl
  · exact prints_write hp hfits (Nat.le_refl 2) rfl fun _ => rfl

theorem printComma_prints (hp : M.Holds p) (hfits : p.Fits) :
    Prints M p (printComma p) (some (ascii "," ++ layout p.format (ascii " "))) 2 p.depth := by
  unfold printComma
  refine prints_write hp hfits (Nat.le_refl 2) ?_ fun length => ?_
  · cases p.format <;> rfl
  · cases p.format <;> simp [Printbuffer.write, layout, ascii]

theorem openObject_prints (hp : M.Holds p) (hfits : p.Fits) :
    Prints M p (openObject p) (some (ascii "\x7b" ++ layout p.format (ascii "\n"))) 2
      (p.depth + 1) := by
  unfold openObject
  refine prints_write hp hfits (Nat.le_refl 2) ?_ fun length => ?_
  · cases p.format <;> rfl
  · cases p.format <;> simp [Printbuffer.write, layout, ascii]

theorem closeObject_prints (hp : M.Holds p) (hfits : p.Fits) (hdepth : p.depth = depth + 1) :
    Prints M p (closeObject p)
      (some (layout p.format (List.replicate depth tab) ++ ascii "\x7d")) 2 depth := by
  unfold closeObject
  refine prints_write hp hfits (Nat.le_refl 2) ?_ fun length => ?_
  · rw [hdepth]
    cases p.format <;> simp [layout, ascii]
  · cases p.format <;> simp [Printbuffer.write, layout, hdepth]

theorem printKey_prints (hp : M.Holds p) (hroom : p.offset + 1 ≤ p.length) (string : Option CStr) :
    Prints M p (printKey string p) (some (layout p.format (List.replicate p.depth tab) ++
      (renderString string ++ (ascii ":" ++ layout p.format [tab])))) 1 p.depth := by
  have hindent : Prints M p (if p.format then do
        let p ← p.ensure p.depth
        pure (p.write (List.replicate p.depth tab))
      else pure p) (some (layout p.format (List.replicate p.depth tab))) 1 p.depth := by
    cases hformat : p.format with
    | false => exact prints_nil hp hroom rfl
    | true =>
      refine prints_write hp (Or.inr (by omega)) (Nat.le_succ 1) ?_ fun _ => rfl
      simp [layout]
  have hprint : printKey string p = ((if p.format then do
        let p ← p.ensure p.depth
        pure (p.write (List.replicate p.depth tab))
      else pure p) >>= fun q => printStringPtr string q >>= fun q => do
        let q ← q.ensure (if q.format then 2 else 1)
        pure (q.write (if q.format then ascii ":\t" else ascii ":"))) := by
    unfold printKey
    cases p.format
    · rfl
    · cases p.ensure p.depth <;> rfl
  rw [hprint]
  change Prints M p _ (do
    let t ← some (layout p.format (List.replicate p.depth tab))
    let u ← (do
      let t ← some (renderString string)
      let u ← some (ascii ":" ++ layout p.format [tab])
      pure (t ++ u))
    pure (t ++ u)) 1 p.depth
  refine hindent.bind fun q t hq => ?_
  rw [← hq.format, ← hq.depth]
  refine (printStringPtr_prints hq.holds hq.fits string).bind fun q' t hq' => ?_
  rw [← hq'.format, ← hq'.depth]
  refine prints_write hq'.holds hq'.fits (Nat.le_succ 1) ?_ fun length => ?_
  · cases q'.format <;> rfl
  · cases q'.format <;> simp [Printbuffer.write, layout, ascii, tab]

theorem endMember_prints (hp : M.Holds p) (hfits : p.Fits) (last : Bool) :
    Prints M p (endMember last p)
      (some ((if last then [] else ascii ",") ++ layout p.format (ascii "\n"))) 2 p.depth :=
  prints_write hp hfits (Nat.le_refl 2) rfl fun _ => rfl

/-! ## Values -/

theorem openArray_prints (hp : M.Holds p) (hfits : p.Fits) :
    Prints M p (do
      let p ← p.ensure 1
      pure { p.write (ascii "[") with depth := p.depth + 1 }) (some (ascii "[")) 1 (p.depth + 1) :=
  prints_write hp hfits (Nat.le_succ 1) rfl fun _ => rfl

theorem closeArray_prints (hp : M.Holds p) (hfits : p.Fits) (hdepth : p.depth = depth + 1) :
    Prints M p (do
      let p ← p.ensure 2
      pure { p.write (ascii "]") with depth := p.depth - 1 }) (some (ascii "]")) 2 depth :=
  prints_write hp hfits (Nat.le_refl 2) rfl fun _ => by simp [Printbuffer.write, hdepth]

end

mutual

theorem printValue_prints (M : Reserve) : ∀ (item : CJson) (p : Printbuffer), M.Holds p → p.Fits →
    Prints M p (printValue item p) (render p.format p.depth item) 2 p.depth
  | .invalid, p, _, _ => by
    rw [printValue, render]
    rfl
  | .null, p, hp, hfits => by
    rw [printValue, render]
    exact printText_prints hp hfits _
  | .false, p, hp, hfits => by
    rw [printValue, render]
    exact printText_prints hp hfits _
  | .true, p, hp, hfits => by
    rw [printValue, render]
    exact printText_prints hp hfits _
  | .number valueint d, p, hp, hfits => by
    rw [printValue, render]
    exact printNumber_prints hp hfits valueint d
  | .raw none, p, _, _ => by
    rw [printValue, render]
    rfl
  | .raw (some s), p, hp, hfits => by
    rw [printValue, render]
    exact printText_prints hp hfits _
  | .string s, p, hp, hfits => by
    rw [printValue, render]
    exact printStringPtr_prints hp hfits s
  | .array child, p, hp, hfits => by
    have hprint : printValue (.array child) p = ((do
        let p ← p.ensure 1
        pure { p.write (ascii "[") with depth := p.depth + 1 }) >>= fun q =>
          printElements child q >>= fun q => do
            let q ← q.ensure 2
            pure { q.write (ascii "]") with depth := q.depth - 1 }) := by
      rw [printValue]
      cases p.ensure 1 <;> rfl
    have hrender : render p.format p.depth (.array child) = (do
        let t ← some (ascii "[")
        let u ← (do
          let t ← renderElements p.format (p.depth + 1) child
          let u ← some (ascii "]")
          pure (t ++ u))
        pure (t ++ u)) := by
      rw [render]
      cases renderElements p.format (p.depth + 1) child <;> simp
    rw [hprint, hrender]
    refine (openArray_prints hp hfits).bind fun q t hq => ?_
    have hchild := printElements_prints M child q hq.holds hq.room
    rw [hq.format, hq.depth] at hchild
    exact hchild.bind fun q' u hq' => closeArray_prints hq'.holds hq'.fits hq'.depth
  | .object child, p, hp, hfits => by
    have hrender : render p.format p.depth (.object child) = (do
        let t ← some (ascii "\x7b" ++ layout p.format (ascii "\n"))
        let u ← (do
          let t ← renderMembers p.format (p.depth + 1) child
          let u ← some (layout p.format (List.replicate p.depth tab) ++ ascii "\x7d")
          pure (t ++ u))
        pure (t ++ u)) := by
      rw [render]
      cases renderMembers p.format (p.depth + 1) child <;> simp
    rw [printValue, hrender]
    refine (openObject_prints hp hfits).bind fun q t hq => ?_
    have hroom := hq.room
    have hchild := printMembers_prints M child q hq.holds (by omega)
    rw [hq.format, hq.depth] at hchild
    refine hchild.bind fun q' u hq' => ?_
    have hclose := closeObject_prints hq'.holds hq'.fits hq'.depth
    rw [hq'.format, hq.format] at hclose
    exact hclose

theorem printElements_prints (M : Reserve) : ∀ (chain : Chain) (p : Printbuffer), M.Holds p →
    p.offset + 1 ≤ p.length →
      Prints M p (printElements chain p) (renderElements p.format p.depth chain) 1 p.depth
  | .nil, p, hp, hroom => by
    rw [printElements, renderElements]
    exact prints_nil hp hroom rfl
  | .cons string item next, p, hp, hroom => by
    have hrender : renderElements p.format p.depth (.cons string item next) = (do
        let t ← render p.format p.depth item
        let u ← (do
          let t ← some (if next.isNil then [] else ascii "," ++ layout p.format (ascii " "))
          let u ← renderElements p.format p.depth next
          pure (t ++ u))
        pure (t ++ u)) := by
      rw [renderElements]
      cases render p.format p.depth item with
      | none => rfl
      | some t => cases renderElements p.format p.depth next <;> simp
    have hprint : printElements (.cons string item next) p = (printValue item p >>= fun q =>
        (if next.isNil then pure q else printComma q) >>= printElements next) := by
      rw [printElements]
      cases next.isNil <;> rfl
    rw [hprint, hrender]
    refine (printValue_prints M item p hp (Or.inr (by omega))).bind fun q t hq => ?_
    have hcomma : Prints M q (if next.isNil then pure q else printComma q)
        (some (if next.isNil then [] else ascii "," ++ layout p.format (ascii " "))) 2 p.depth := by
      rw [← hq.format, ← hq.depth]
      split_ifs
      · exact prints_nil hq.holds hq.room rfl
      · exact printComma_prints hq.holds hq.fits
    refine hcomma.bind fun q' u hq' => ?_
    have hroom' := hq'.room
    have hnext := printElements_prints M next q' hq'.holds (by omega)
    rw [hq'.format, hq'.depth, hq.format] at hnext
    exact hnext

theorem printMembers_prints (M : Reserve) : ∀ (chain : Chain) (p : Printbuffer), M.Holds p →
    p.offset + 1 ≤ p.length →
      Prints M p (printMembers chain p) (renderMembers p.format p.depth chain) 1 p.depth
  | .nil, p, hp, hroom => by
    rw [printMembers, renderMembers]
    exact prints_nil hp hroom rfl
  | .cons string item next, p, hp, hroom => by
    have hrender : renderMembers p.format p.depth (.cons string item next) = (do
        let t ← some (layout p.format (List.replicate p.depth tab) ++
          (renderString string ++ (ascii ":" ++ layout p.format [tab])))
        let u ← (do
          let t ← render p.format p.depth item
          let u ← (do
            let t ← some ((if next.isNil then [] else ascii ",") ++ layout p.format (ascii "\n"))
            let u ← renderMembers p.format p.depth next
            pure (t ++ u))
          pure (t ++ u))
        pure (t ++ u)) := by
      rw [renderMembers]
      cases render p.format p.depth item with
      | none => rfl
      | some t => cases renderMembers p.format p.depth next <;> simp
    rw [printMembers, hrender]
    refine (printKey_prints hp hroom string).bind fun q t hq => ?_
    have hvalue := printValue_prints M item q hq.holds hq.fits
    rw [hq.format, hq.depth] at hvalue
    refine hvalue.bind fun q' u hq' => ?_
    have hend := endMember_prints hq'.holds hq'.fits next.isNil
    rw [hq'.format, hq'.depth, hq.format] at hend
    refine hend.bind fun q'' v hq'' => ?_
    have hroom' := hq''.room
    have hnext := printMembers_prints M next q'' hq''.holds (by omega)
    rw [hq''.format, hq''.depth, hq'.format, hq.format] at hnext
    exact hnext

end

/-! ## Printing -/

/-- A buffer of `length` bytes, from the start. -/
theorem printValue_start (M : Reserve) {item : CJson} {p : Printbuffer} (hp : M.Holds p)
    (htext : p.text = []) (hdepth : p.depth = 0) {t : List UInt8}
    (hrender : render p.format 0 item = some t) :
    Yields (printValue item p) (fun q => q.text = t ∧ M.Holds q ∧ t.length + 2 ≤ q.length)
      (M.short (t.length + 2)) := by
  have hoffset : p.offset = 0 := by
    unfold Printbuffer.offset
    rw [htext]
    rfl
  have hfits : p.Fits := (Nat.eq_zero_or_pos p.length).imp_right fun h => hoffset ▸ h
  have hprints := printValue_prints M item p hp hfits
  rw [hdepth, hrender] at hprints
  refine yields_mono (fun q hq => ?_) (fun h => h) (hprints _ (by rw [hoffset, Nat.zero_add]))
  have hroom := hq.room
  rw [hq.offset, hoffset, Nat.zero_add] at hroom
  exact ⟨by rw [hq.text, htext, List.nil_append], hq.holds, hroom⟩

/-- Whatever fails, a text that is printed is the whole text. -/
theorem printValue_render {item : CJson} {p q : Printbuffer} (htext : p.text = []) (hdepth : p.depth = 0)
    (h : printValue item p = some q) : render p.format 0 item = some q.text := by
  have hoffset : p.offset = 0 := by
    unfold Printbuffer.offset
    rw [htext]
    rfl
  have hfits : p.Fits := (Nat.eq_zero_or_pos p.length).imp_right fun h => hoffset ▸ h
  have hprints := printValue_prints Reserve.any item p trivial hfits
  rw [hdepth] at hprints
  cases hrender : render p.format 0 item with
  | none =>
    rw [hrender] at hprints
    exact absurd (h.symm.trans hprints) (by simp)
  | some t =>
    have hyields := printValue_start Reserve.any trivial htext hdepth hrender
    rw [h] at hyields
    rw [hyields.1]

/-- Where the room there is never too short, that is the only obstacle. -/
theorem printValue_iff {M : Reserve} (hlength : ∀ q, M.Holds q → ∀ m ≤ q.length, ¬ M.short m)
    (item : CJson) {p : Printbuffer} (hp : M.Holds p) (htext : p.text = []) (hdepth : p.depth = 0)
    (t : List UInt8) : (printValue item p).map Printbuffer.text = some t ↔
      render p.format 0 item = some t ∧ ¬ M.short (t.length + 2) := by
  constructor
  · intro h
    obtain ⟨q, hq, rfl⟩ := Option.map_eq_some_iff.mp h
    have hrender := printValue_render htext hdepth hq
    have hyields := printValue_start M hp htext hdepth hrender
    rw [hq] at hyields
    exact ⟨hrender, hlength q hyields.2.1 _ hyields.2.2⟩
  · rintro ⟨hrender, hshort⟩
    have hyields := printValue_start M hp htext hdepth hrender
    cases hq : printValue item p with
    | none =>
      rw [hq] at hyields
      exact absurd hyields hshort
    | some q =>
      rw [hq] at hyields
      exact congrArg some hyields.1

theorem print_some (item : CJson) (format : Bool) (hooks : Hooks) :
    print (some item) format hooks =
      if hooks.allocate 256 then
        printValue item ⟨[], 256, 0, format, hooks⟩ >>= fun q =>
          if hooks.reallocate q.length (q.offset + 1) then some q.text else none
      else none := rfl

/-- Of a tree, `cJSON_Print` and `cJSON_PrintUnformatted` return the whole text or nothing. -/
theorem print_render {item : CJson} {format : Bool} {hooks : Hooks} {t : List UInt8}
    (h : print (some item) format hooks = some t) : render format 0 item = some t := by
  rw [print_some] at h
  split_ifs at h
  obtain ⟨q, hq, h⟩ := Option.bind_eq_some_iff.mp h
  split_ifs at h
  cases h
  exact printValue_render rfl rfl hq

/-- With memory enough, there is a text unless `INT_MAX` is too small for it and two bytes, whatever is
    allocated at first. -/
theorem printValue_plenty_iff (item : CJson) {length : ℕ} (hlength : length ≤ intMax) (format : Bool)
    (t : List UInt8) :
    (printValue item ⟨[], length, 0, format, Hooks.plenty⟩).map Printbuffer.text = some t ↔
      render format 0 item = some t ∧ t.length + 2 ≤ intMax := by
  have hholds : Reserve.plenty.Holds ⟨[], length, 0, format, Hooks.plenty⟩ := ⟨hlength, fun _ _ => rfl⟩
  rw [printValue_iff (M := Reserve.plenty)
    (fun q hq m hm => Nat.not_lt.mpr (hm.trans hq.1)) item hholds rfl rfl]
  exact and_congr_right fun _ => Nat.not_lt

theorem print_plenty (item : CJson) (format : Bool) : print (some item) format Hooks.plenty =
    (printValue item ⟨[], 256, 0, format, Hooks.plenty⟩).map Printbuffer.text := by
  rw [print_some]
  cases printValue item ⟨[], 256, 0, format, Hooks.plenty⟩ <;> rfl

theorem print_plenty_iff (item : CJson) (format : Bool) (t : List UInt8) :
    print (some item) format Hooks.plenty = some t ↔
      render format 0 item = some t ∧ t.length + 2 ≤ intMax := by
  rw [print_plenty]
  exact printValue_plenty_iff item (by decide) format t

/-- So the size that `cJSON_PrintBuffered` starts with makes no difference. -/
theorem cJSONPrintBuffered_plenty (item : CJson) {prebuffer : Int} (hprebuffer : 0 ≤ prebuffer)
    (hmax : prebuffer ≤ intMax) (format : Bool) :
    cJSONPrintBuffered Hooks.plenty (some item) prebuffer format =
      print (some item) format Hooks.plenty := by
  have hbuffered : cJSONPrintBuffered Hooks.plenty (some item) prebuffer format =
      (printValue item ⟨[], prebuffer.toNat, 0, format, Hooks.plenty⟩).map Printbuffer.text := by
    unfold cJSONPrintBuffered
    rw [if_neg (Int.not_lt.mpr hprebuffer), Option.map_eq_bind]
    rfl
  have hlength : prebuffer.toNat ≤ intMax := by omega
  rw [hbuffered, print_plenty]
  apply Option.ext
  intro t
  rw [printValue_plenty_iff item hlength,
    printValue_plenty_iff item (show 256 ≤ intMax by decide)]

theorem cJSONPrintBuffered_plenty_one :
    cJSONPrintBuffered Hooks.plenty (some (.array (.cons none .null .nil))) 1 true =
      print (some (.array (.cons none .null .nil))) true Hooks.plenty :=
  cJSONPrintBuffered_plenty _ (by decide) (by decide) true

/-- A buffer of the caller's needs two bytes more than the text, one of them for the terminator. -/
theorem cJSONPrintPreallocated_iff (item : CJson) {length : Int} (hlength : length ≤ intMax)
    (format : Bool) (t : List UInt8) :
    cJSONPrintPreallocated (some item) length format = some t ↔
      render format 0 item = some t ∧ (t.length : Int) + 2 ≤ length := by
  have hprint : cJSONPrintPreallocated (some item) length format =
      if length < 0 then none else
        (printValue item ⟨[], length.toNat, 0, format, ⟨fun _ => false, fun _ _ => false⟩⟩).map
          Printbuffer.text := by
    rw [Option.map_eq_bind]
    rfl
  rw [hprint]
  split_ifs with hneg
  · exact iff_of_false (by simp) fun h => by omega
  · have hn : length.toNat ≤ intMax := by omega
    have hiff := printValue_iff (M := Reserve.fixed length.toNat hn)
      (p := ⟨[], length.toNat, 0, format, ⟨fun _ => false, fun _ _ => false⟩⟩)
      (fun q hq m hm => Nat.not_lt.mpr (hm.trans_eq hq.1)) item ⟨rfl, fun _ _ => rfl⟩ rfl rfl t
    refine hiff.trans (and_congr_right fun _ => ?_)
    change ¬ length.toNat < t.length + 2 ↔ _
    omega

/-- The text and its terminator take five bytes; they do not fit. -/
theorem cJSONPrintPreallocated_null :
    cJSONPrintPreallocated (some .null) 5 false ≠ some (ascii "null") := by
  rw [ne_eq, cJSONPrintPreallocated_iff .null (by decide) false (ascii "null")]
  decide

end OlegPrinter
