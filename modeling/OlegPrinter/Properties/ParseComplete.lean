/-
  Everything in the language is accepted, if memory does not run out.

  `parseValue_accepts`: on a text of an item, with something behind it that cannot belong to a
  numeral, `parse_value` returns that item and stops behind that text. Values, items and literals are
  taken in the order of the grammar; what soundness does not need is that a scanner takes all it
  can, and no more.

  `cJSONParseWithOpts_iff`: with `require_null_terminated`, an item is returned for the documents that
  denote it, up to control characters at the end, and for nothing else.
-/
import OlegPrinter.Properties.ParseSound

namespace OlegPrinter

open CLib ParseBuffer

/-! ## What comes next -/

/-- Every allocation succeeds. -/
def Granted (b : ParseBuffer) : Prop := ∀ i, b.heap.grants i = true

/-- Reads `t`, and returns `a`. -/
def Accepts {α : Type} (p : Attempt ParseBuffer α) (b : ParseBuffer) (t : List UInt8) (a : α) : Prop :=
  p.Meets (fun a' b' => a' = a ∧ Reads b t b') (fun _ => False) b

section

variable {b b' : ParseBuffer} {c : UInt8} {s t u w : List UInt8}

theorem Granted.of_reads (hg : Granted b) (h : Reads b t b') : Granted b' := by
  unfold Granted
  rw [h.grants]
  exact hg

theorem Reads.rest_eq (h : Reads b t b') (hrest : b.rest = t ++ u) : b'.rest = u :=
  List.append_cancel_left (h.rest.symm.trans hrest)

theorem nextIs_cons (h : b.rest = c :: s) (d : UInt8) : b.nextIs d = decide (c = d) := by
  unfold nextIs
  simp only [h, List.head?_cons, Option.some.injEq]

theorem canAccess_cons (h : b.rest = c :: s) : b.canAccess := by
  rw [canAccess_iff, h]
  exact List.cons_ne_nil _ _

theorem startsWith_append (h : b.rest = t ++ u) : b.startsWith t :=
  List.isPrefixOf_iff_prefix.mpr ⟨u, h.symm⟩

theorem startsWith_cons_ne {d : UInt8} (h : b.rest = c :: s) (hd : c ≠ d) (literal : List UInt8) :
    b.startsWith (d :: literal) = false := by
  unfold startsWith
  rw [h, List.isPrefixOf_cons_cons, beq_false_of_ne hd.symm, Bool.false_and]

theorem stops_cons (h : Numeral.numberByte c = false) : Numeral.Stops (c :: s) := by
  intro d hd
  cases hd
  exact h

theorem stops_blanks (hw : Blanks isBlank w) (hs : Numeral.Stops s) : Numeral.Stops (w ++ s) := by
  cases w with
  | nil => exact hs
  | cons d w => exact stops_cons (numberByte_of_isBlank (hw d (List.mem_cons_self ..)))

/-- Where only blanks are left, skipping stays on the last of them. -/
theorem skipWhitespace_end (hw : Blanks isBlank w) (hc : isBlank c) (h : b.rest = w ++ [c]) :
    b.skipWhitespace = b.advance w.length := by
  have haccess : b.canAccess := by
    rw [canAccess_iff, h]
    simp
  have htake : b.rest.takeWhile isBlank = w ++ [c] := by
    rw [h, List.takeWhile_append_of_pos hw, List.takeWhile_cons_of_pos hc, List.takeWhile_nil]
  have hlength := congrArg List.length h
  have haccess' := haccess
  unfold ParseBuffer.rest at hlength
  unfold canAccess at haccess'
  rw [decide_eq_true_eq] at haccess'
  rw [List.length_drop, List.length_append, List.length_singleton] at hlength
  unfold skipWhitespace
  rw [if_pos haccess, htake]
  dsimp only
  rw [if_pos]
  · unfold back advance
    rw [List.length_append, List.length_singleton]
    rfl
  · change b.offset + (w ++ [c]).length = b.content.length
    rw [List.length_append, List.length_singleton]
    omega

theorem reads_blanks (hw : Blanks isBlank w) (h : b.rest = w ++ c :: s) (hc : isBlank c = false) :
    Reads b w b.skipWhitespace := by
  rw [skipWhitespace_blanks hw h hc]
  exact reads_advance h

/-! ## Scalars -/

theorem newBlock_accepts (hg : Granted b) :
    newBlock.Meets (fun _ b' => Reads b [] b' ∧ b'.heap.live = b.heap.live + 1) (fun _ => False) b := by
  have hgrants := hg b.heap.calls
  unfold Attempt.Meets newBlock
  rw [if_pos hgrants]
  exact ⟨⟨rfl, rfl, rfl, rfl, rfl⟩, rfl⟩

theorem parseString_accepts (hg : Granted b) (hs : Literal t s)
    (hrest : b.rest = quote :: (t ++ [quote]) ++ u) :
    Accepts parseString b (quote :: (t ++ [quote])) (CStr.ofMemory s) := by
  obtain ⟨⟨skipped, hclosed⟩, hdecodes⟩ := hs
  have hrest' : b.rest = quote :: (t ++ quote :: u) := by simpa using hrest
  unfold Accepts parseString
  rw [Attempt.meets_bind]
  refine Attempt.meets_mono ?_ (fun _ h => h) (peek_meets (canAccess_cons hrest'))
  rintro c _ ⟨rfl, s', hs'⟩
  cases hs'.symm.trans hrest'
  have hscan : scanString (b.rest.drop 1) = some (t.length, skipped) := by
    rw [hrest', List.drop_one, List.tail_cons]
    exact scanString_closed hclosed u
  rw [if_neg (fun h => h rfl), Attempt.meets_bind, Attempt.meets_get, hscan]
  dsimp only
  rw [Attempt.meets_bind, Attempt.meets_onReject]
  refine Attempt.meets_mono ?_ (fun _ h => h) (newBlock_accepts hg)
  rintro ⟨⟩ b1 ⟨hreads, hlive⟩
  refine Attempt.meets_mono ?_ ?_
    (unescape_meets hclosed (hreads.rest.symm.trans hrest') hlive)
  · rintro _ b2 ⟨⟨v, hv, rfl⟩, hreads', -⟩
    exact ⟨by rw [hv.unique hdecodes], hreads.trans hreads'⟩
  · rintro b2 ⟨-, hnone⟩
    exact hnone s hdecodes

theorem parseNumber_accepts (S : Strtod) {n : Numeral} (hn : IsNumber n) (hrest : b.rest = n.text ++ u)
    (hu : Numeral.Stops u) : Accepts (parseNumber S) b n.text (S.item n) := by
  have hrun : (b.rest.take 63).takeWhile Numeral.numberByte = n.text := by
    rw [hrest, List.take_append, List.take_of_length_le hn.1]
    refine Numeral.takeWhile_run (Numeral.numberByte_text n) fun c hc => hu c ?_
    cases hlength : 63 - n.text.length with
    | zero =>
      rw [hlength] at hc
      cases hc
    | succ k =>
      rw [hlength] at hc
      cases u with
      | nil => cases hc
      | cons d u => exact hc
  have hscan : Numeral.scan n.text = some n := by
    have hstops : Numeral.scan (n.text ++ []) = some n := n.scan_append fun c hc => by cases hc
    rwa [List.append_nil] at hstops
  unfold Accepts Attempt.Meets parseNumber
  rw [hrun, hscan]
  exact ⟨rfl, reads_advance hrest⟩

end

/-! ## Items -/

/-- An item that stands at the front is taken, whatever there was before it. -/
def AcceptsItem (Core : Option CStr × CJson → List UInt8 → Prop) (depth : ℕ)
    (parseItem : Chain → Attempt ParseBuffer (Option CStr × CJson)) : Prop :=
  ∀ {head b e t u}, Core e t → Granted b → b.depth = depth → b.rest = t ++ u → Numeral.Stops u →
    Accepts (parseItem head) b t e

/-- A value that stands at the front is taken. A number has to end there. -/
def AcceptsValue (T : CJson → List UInt8 → Prop) (depth : ℕ)
    (parseValue : Attempt ParseBuffer CJson) : Prop :=
  ∀ {b item t u}, T item t → Granted b → b.depth = depth → b.rest = t ++ u →
    (item.isNumber → Numeral.Stops u) → Accepts parseValue b t item

/-- A closing bracket: not a blank, not a comma, not part of a number. -/
def IsClosing (close : UInt8) : Prop :=
  isBlank close = false ∧ close ≠ commaByte ∧ Numeral.numberByte close = false

/-- How items begin. -/
def Starts (close : UInt8) (Core : Option CStr × CJson → List UInt8 → Prop) : Prop :=
  ∀ {e t}, Core e t → ∃ c s, t = c :: s ∧ isBlank c = false ∧ c ≠ close

section

variable {Core : Option CStr × CJson → List UInt8 → Prop} {close opening : UInt8} {depth : ℕ}
  {parseItem : Chain → Attempt ParseBuffer (Option CStr × CJson)} {b : ParseBuffer}

theorem parseItemsTurn_accepts (hitem : AcceptsItem Core depth parseItem) (hstarts : Starts close Core)
    (hclose : IsClosing close) {head : Chain} {e : Option CStr × CJson} {t u : List UInt8} {c : UInt8}
    (ht : Padded isBlank Core e t) (hc : c = commaByte ∨ c = close) (hg : Granted b)
    (hdepth : b.depth = depth) (hrest : (b.advance 1).rest = t ++ c :: u) :
    (parseItemsTurn close parseItem head).Meets
      (fun r b' => r = (if c = commaByte then .inr (head.push e.1 e.2) else .inl (head.push e.1 e.2)) ∧
        Reads (b.advance 1) t b')
      (fun _ => False) b := by
  obtain ⟨w, v, w', hw, hv, hw', rfl⟩ := ht
  have hblank : isBlank c = false := by
    rcases hc with rfl | rfl
    · decide
    · exact hclose.1
  have hnumber : Numeral.numberByte c = false := by
    rcases hc with rfl | rfl
    · decide
    · exact hclose.2.2
  unfold parseItemsTurn
  rw [Attempt.meets_bind, Attempt.meets_onReject]
  refine Attempt.meets_mono ?_ (fun _ h => h) (newBlock_accepts hg)
  rintro ⟨⟩ b1 ⟨hblock, -⟩
  rw [Attempt.meets_bind, Attempt.meets_modify, Attempt.meets_bind]
  have hblock' := hblock.behind
  have hrest1 : (b1.advance 1).rest = w ++ (v ++ (w' ++ c :: u)) := by
    rw [hblock'.rest_eq hrest]
    simp
  obtain ⟨d, s, hd, hblank', -⟩ := hstarts hv
  have hreads1 := reads_blanks hw (c := d) (s := s ++ (w' ++ c :: u)) (by rw [hrest1, hd]; rfl) hblank'
  have hreads := hblock'.trans hreads1
  have hg' : Granted (b.advance 1) := hg
  refine Attempt.meets_mono ?_ (fun _ h => h) (hitem hv (hg'.of_reads hreads)
    (hreads.depth.trans hdepth) (hreads1.rest_eq hrest1) (stops_blanks hw' (stops_cons hnumber)))
  rintro _ b2 ⟨rfl, hreads2⟩
  have hrest2 := hreads2.rest_eq (hreads1.rest_eq hrest1)
  have hreads3 := reads_blanks hw' hrest2 hblank
  have hrest3 := hreads3.rest_eq hrest2
  dsimp only
  rw [Attempt.meets_bind, Attempt.meets_modify, Attempt.meets_bind, Attempt.meets_get]
  rw [nextIs_cons hrest3, nextIs_cons hrest3]
  have hall : Reads (b.advance 1) (w ++ (v ++ w')) b2.skipWhitespace := by
    simpa using hreads.trans (hreads2.trans hreads3)
  rcases hc with rfl | rfl
  · simp only [decide_true, if_true, Attempt.meets_pure, true_and]
    exact hall
  · simp only [hclose.2.1, decide_true, decide_false, Bool.false_eq_true, if_true, if_false,
      Attempt.meets_pure, true_and]
    exact hall

/-- By induction on the items. -/
theorem parseItemsLoop_accepts (hitem : AcceptsItem Core depth parseItem)
    (hstarts : Starts close Core) (hclose : IsClosing close) {es : List (Option CStr × CJson)}
    {t u : List UInt8} (h : Separated commaByte (Padded isBlank Core) es t)
    (hs : List (Option CStr × CJson)) {n : ℕ} (hn : es.length ≤ n) (hg : Granted b)
    (hdepth : b.depth = depth) (hrest : (b.advance 1).rest = t ++ close :: u) :
    (Attempt.turns (parseItemsTurn close parseItem) n (Chain.ofEntries hs)).Meets
      (fun head b' => head = Chain.ofEntries (hs ++ es) ∧
        Reads (b.advance 1) (t ++ [close]) (b'.advance 1))
      (fun _ => False) b := by
  induction h generalizing hs n b with
  | @one e t ht =>
    obtain ⟨m, rfl⟩ : ∃ m, n = m + 1 := Nat.exists_eq_add_of_le' hn
    rw [Attempt.meets_turns_succ]
    refine Attempt.meets_mono ?_ (fun _ h => h)
      (parseItemsTurn_accepts hitem hstarts hclose ht (Or.inr rfl) hg hdepth hrest)
    rintro _ b' ⟨rfl, hreads⟩
    rw [if_neg hclose.2.1]
    refine ⟨ofEntries_push hs e.1 e.2, hreads.trans (reads_next ?_)⟩
    exact nextIs_iff.mpr ⟨u, hreads.rest_eq hrest⟩
  | @cons e es t t' ht _ ih =>
    obtain ⟨m, rfl⟩ : ∃ m, n = m + 1 := Nat.exists_eq_add_of_le' (Nat.le_of_add_left_le hn)
    rw [Attempt.meets_turns_succ]
    have hrest' : (b.advance 1).rest = t ++ commaByte :: (t' ++ close :: u) := by simpa using hrest
    refine Attempt.meets_mono ?_ (fun _ h => h)
      (parseItemsTurn_accepts hitem hstarts hclose ht (Or.inl rfl) hg hdepth hrest')
    rintro _ b' ⟨rfl, hreads⟩
    rw [if_pos rfl]
    have hcomma := hreads.rest_eq hrest'
    have hnext := reads_next (nextIs_iff.mpr ⟨_, hcomma⟩)
    dsimp only
    rw [ofEntries_push]
    have hg' : Granted (b.advance 1) := hg
    refine Attempt.meets_mono ?_ (fun _ h => h) (ih (hs ++ [e])
      (Nat.le_of_succ_le_succ hn) (hg'.of_reads hreads) (hreads.depth.trans hdepth)
      (hnext.rest_eq hcomma))
    rintro head b'' ⟨rfl, hreads'⟩
    refine ⟨by simp, ?_⟩
    simpa using hreads.trans (hnext.trans hreads')

theorem parseItems_accepts (hitem : AcceptsItem Core depth parseItem) (hstarts : Starts close Core)
    (hclose : IsClosing close) {es : List (Option CStr × CJson)} {t u : List UInt8}
    (h : Listed isBlank commaByte Core es t) (hg : Granted b) (hdepth : b.depth = depth)
    (hrest : b.rest = opening :: (t ++ close :: u)) : (parseItems close parseItem).Meets
      (fun head b' => head = Chain.ofEntries es ∧
        ∃ b1, b' = b1.shallower ∧ Reads b (opening :: (t ++ [close])) b1)
      (fun _ => False) b := by
  have hopening := reads_next (nextIs_iff.mpr ⟨_, hrest⟩)
  have hrest1 := hopening.rest_eq hrest
  unfold parseItems
  rw [Attempt.meets_bind, Attempt.meets_modify, Attempt.meets_bind, Attempt.meets_get]
  rcases h with ⟨rfl, hblanks⟩ | h
  · have hreads := reads_blanks hblanks hrest1 hclose.1
    have hnext := nextIs_iff.mpr ⟨u, hreads.rest_eq hrest1⟩
    rw [if_pos hnext, Attempt.meets_bind, Attempt.meets_modify, Attempt.meets_pure]
    exact ⟨rfl, _, rfl, hopening.trans (hreads.trans (reads_next hnext))⟩
  · obtain ⟨w, e, v, s, rfl, hw, hv, h⟩ := h.trim
    obtain ⟨c, v', rfl, hblank, hne⟩ := hstarts hv
    have hrest1' : (b.advance 1).rest = w ++ c :: (v' ++ (s ++ close :: u)) := by simpa using hrest1
    have hreads := reads_blanks hw hrest1' hblank
    have hrest2 := hreads.rest_eq hrest1'
    have hback := back_advance (hopening.trans hreads) (List.cons_ne_nil _ _)
    have hcontent := hreads.content
    generalize (b.advance 1).skipWhitespace = b2 at hreads hrest2 hback hcontent ⊢
    rw [nextIs_cons hrest2, if_neg (by simpa using hne),
      if_neg (by simpa using canAccess_cons hrest2), Attempt.meets_bind, Attempt.meets_modify,
      Attempt.meets_bind]
    have hn : es.length ≤ b2.content.length := by
      have hle := h.length_le
      have hlength := congrArg List.length hrest
      unfold ParseBuffer.rest at hlength
      rw [hcontent]
      change _ ≤ b.content.length
      simp only [List.length_drop, List.length_cons, List.length_append] at hlength hle
      omega
    have hg' : Granted (b.advance 1) := hg
    have hg2 : Granted b2 := hg'.of_reads hreads
    have hdepth2 : b2.back.depth = depth := hreads.depth.trans hdepth
    refine Attempt.meets_mono ?_ (fun _ h => h)
      (parseItemsLoop_accepts (u := u) hitem hstarts hclose h [] hn hg2 hdepth2 ?_)
    · rintro _ b3 ⟨rfl, hreads'⟩
      rw [Attempt.meets_bind, Attempt.meets_modify, Attempt.meets_pure]
      refine ⟨rfl, b3.advance 1, rfl, ?_⟩
      rw [hback] at hreads'
      simpa using hopening.trans (hreads.trans hreads')
    · rw [hback, hrest2]
      simp

end

section

variable {T : CJson → List UInt8 → Prop} {depth : ℕ} {parseValue : Attempt ParseBuffer CJson}

theorem parseElement_accepts (h : AcceptsValue T depth parseValue) :
    AcceptsItem (IsElement T) depth (parseElement parseValue) := by
  rintro head b ⟨string, item⟩ t u ⟨hnone, ht⟩ hg hdepth hrest hu
  unfold Accepts parseElement
  rw [Attempt.meets_bind, Attempt.meets_onReject]
  refine Attempt.meets_mono ?_ (fun _ h => h) (h ht hg hdepth hrest fun _ => hu)
  rintro item' b' ⟨rfl, hreads⟩
  rw [Attempt.meets_pure]
  exact ⟨by rw [← hnone], hreads⟩

theorem parseMember_accepts (h : AcceptsValue T depth parseValue)
    (hstarts : ∀ {item t}, T item t → ∃ c s, t = c :: s ∧ isBlank c = false) :
    AcceptsItem (IsMember T) depth (parseMember parseValue) := by
  rintro head b ⟨string, item⟩ t u ⟨name, s, w, w', v, hs, hw, hw', hstring, hv, rfl⟩ hg hdepth hrest hu
  obtain ⟨c, v', rfl, hc⟩ := hstarts hv
  have hrest' : b.rest = quote :: (name ++ [quote]) ++ (w ++ colon :: (w' ++ c :: (v' ++ u))) := by
    simpa using hrest
  unfold Accepts parseMember
  rw [Attempt.meets_bind, Attempt.meets_onReject]
  refine Attempt.meets_mono ?_ (fun _ h => h) (parseString_accepts hg hs hrest')
  rintro _ b1 ⟨rfl, hreads1⟩
  have hrest1 := hreads1.rest_eq hrest'
  have hreads2 := reads_blanks hw hrest1 (by decide)
  have hrest2 := hreads2.rest_eq hrest1
  rw [Attempt.meets_bind, Attempt.meets_modify, Attempt.meets_bind, Attempt.meets_get]
  generalize b1.skipWhitespace = b2 at hreads2 hrest2 ⊢
  have hcolon := nextIs_iff.mpr ⟨_, hrest2⟩
  have hreads3 := reads_next hcolon
  have hrest3 := hreads3.rest_eq hrest2
  have hreads4 := reads_blanks hw' hrest3 hc
  have hrest4 := hreads4.rest_eq hrest3
  rw [if_neg (not_not.mpr hcolon), Attempt.meets_bind, Attempt.meets_modify, Attempt.meets_bind,
    Attempt.meets_onReject]
  generalize (b2.advance 1).skipWhitespace = b4 at hreads4 hrest4 ⊢
  have hreads := hreads1.trans (hreads2.trans (hreads3.trans hreads4))
  refine Attempt.meets_mono ?_ (fun _ h => h)
    (h hv (hg.of_reads hreads) (hreads.depth.trans hdepth) hrest4 fun _ => hu)
  rintro _ b5 ⟨rfl, hreads5⟩
  rw [Attempt.meets_pure]
  refine ⟨Prod.ext hstring.symm rfl, ?_⟩
  simpa using hreads.trans hreads5

/-! ## Values -/

theorem parseArray_accepts (h : AcceptsValue T (depth + 1) parseValue)
    (hstarts : Starts rightBracket (IsElement T)) (hdepth : depth < nestingLimit) {b : ParseBuffer}
    {es : List (Option CStr × CJson)} {t u : List UInt8}
    (ht : Listed isBlank commaByte (IsElement T) es t) (hg : Granted b) (hb : b.depth = depth)
    (hrest : b.rest = leftBracket :: (t ++ [rightBracket]) ++ u) :
    Accepts (parseArray parseValue) b (leftBracket :: (t ++ [rightBracket]))
      (.array (Chain.ofEntries es)) := by
  have hrest' : b.deeper.rest = leftBracket :: (t ++ rightBracket :: u) := by
    change b.rest = _
    simpa using hrest
  unfold Accepts parseArray
  rw [Attempt.meets_bind, Attempt.meets_get, if_neg (by omega), Attempt.meets_bind,
    Attempt.meets_modify, Attempt.meets_bind]
  refine Attempt.meets_mono ?_ (fun _ h => h) (peek_meets (canAccess_cons hrest'))
  rintro c _ ⟨rfl, s, hs⟩
  cases hs.symm.trans hrest'
  have hg' : Granted b.deeper := hg
  rw [if_neg (fun h => h rfl), Attempt.meets_bind]
  refine Attempt.meets_mono ?_ (fun _ h => h) (parseItems_accepts (parseElement_accepts h) hstarts
    (by unfold IsClosing; decide) ht hg' (congrArg (· + 1) hb) hrest')
  rintro _ b' ⟨rfl, b1, rfl, hreads⟩
  rw [Attempt.meets_pure]
  exact ⟨rfl, hreads.shallower⟩

theorem parseObject_accepts (h : AcceptsValue T (depth + 1) parseValue)
    (hvalue : ∀ {item t}, T item t → ∃ c s, t = c :: s ∧ isBlank c = false)
    (hdepth : depth < nestingLimit) {b : ParseBuffer}
    {es : List (Option CStr × CJson)} {t u : List UInt8}
    (ht : Listed isBlank commaByte (IsMember T) es t) (hg : Granted b) (hb : b.depth = depth)
    (hrest : b.rest = leftBrace :: (t ++ [rightBrace]) ++ u) :
    Accepts (parseObject parseValue) b (leftBrace :: (t ++ [rightBrace]))
      (.object (Chain.ofEntries es)) := by
  have hrest' : b.deeper.rest = leftBrace :: (t ++ rightBrace :: u) := by
    change b.rest = _
    simpa using hrest
  have hstarts : Starts rightBrace (IsMember T) := by
    rintro e t ⟨name, s, w, w', v, -, -, -, -, -, rfl⟩
    exact ⟨quote, _, rfl, by decide, by decide⟩
  have hg' : Granted b.deeper := hg
  unfold Accepts parseObject
  rw [Attempt.meets_bind, Attempt.meets_get, if_neg (by omega), Attempt.meets_bind,
    Attempt.meets_modify, Attempt.meets_bind, Attempt.meets_get,
    if_neg (not_not.mpr (nextIs_iff.mpr ⟨_, hrest'⟩)), Attempt.meets_bind]
  refine Attempt.meets_mono ?_ (fun _ h => h) (parseItems_accepts (parseMember_accepts h hvalue)
    hstarts (by unfold IsClosing; decide) ht hg' (congrArg (· + 1) hb) hrest')
  rintro _ b' ⟨rfl, b1, rfl, hreads⟩
  rw [Attempt.meets_pure]
  exact ⟨rfl, hreads.shallower⟩

end

/-- Where neither of the three words can stand. -/
theorem parseValue_cons (S : Strtod) (n : ℕ) {b : ParseBuffer} {c : UInt8} {s : List UInt8}
    (hrest : b.rest = c :: s) (hn : c ≠ 0x6e) (hf : c ≠ 0x66) (ht : c ≠ 0x74) :
    parseValue S (n + 1) b =
      (if c = quote then (do
        let s ← parseString
        pure (.string (some s)))
      else if c = minus ∨ isDigit c then parseNumber S
      else if c = leftBracket then parseArray (parseValue S n)
      else if c = leftBrace then parseObject (parseValue S n)
      else Attempt.reject : Attempt ParseBuffer CJson) b := by
  have hnull : b.startsWith (ascii "null") = false := startsWith_cons_ne hrest hn _
  have hfalse : b.startsWith (ascii "false") = false := startsWith_cons_ne hrest hf _
  have htrue : b.startsWith (ascii "true") = false := startsWith_cons_ne hrest ht _
  have hnumber : startsNumber b = decide (c = minus ∨ isDigit c) := by
    unfold startsNumber
    rw [hrest, List.head?_cons, Option.any_some]
  rw [parseValue]
  change Attempt.bind Attempt.get _ b = _
  simp only [Attempt.bind, Attempt.get, hnull, hfalse, htrue, hnumber, nextIs_cons hrest,
    decide_eq_true_eq, Bool.false_eq_true, if_false]

theorem Scalar.accepts {S : Strtod} {n : ℕ} {b : ParseBuffer} {item : CJson} {t u : List UInt8}
    (h : Scalar S item t) (hg : Granted b) (hrest : b.rest = t ++ u)
    (hu : item.isNumber → Numeral.Stops u) :
    Accepts (parseValue S (n + 1)) b t item := by
  unfold Accepts
  cases h with
  | null =>
    rw [parseValue, Attempt.meets_bind, Attempt.meets_get, if_pos (startsWith_append hrest)]
    exact ⟨rfl, reads_advance hrest⟩
  | false =>
    have hnull : b.startsWith (ascii "null") = Bool.false :=
      startsWith_cons_ne (c := 0x66) hrest (by decide) _
    rw [parseValue, Attempt.meets_bind, Attempt.meets_get, if_neg (Bool.not_eq_true _ ▸ hnull),
      if_pos (startsWith_append hrest)]
    exact ⟨rfl, reads_advance hrest⟩
  | true =>
    have hnull : b.startsWith (ascii "null") = Bool.false :=
      startsWith_cons_ne (c := 0x74) hrest (by decide) _
    have hfalse : b.startsWith (ascii "false") = Bool.false :=
      startsWith_cons_ne (c := 0x74) hrest (by decide) _
    rw [parseValue, Attempt.meets_bind, Attempt.meets_get, if_neg (Bool.not_eq_true _ ▸ hnull),
      if_neg (Bool.not_eq_true _ ▸ hfalse), if_pos (startsWith_append hrest)]
    exact ⟨rfl, reads_advance hrest⟩
  | string hs =>
    rw [Attempt.meets_congr (parseValue_cons S n hrest (by decide) (by decide) (by decide)),
      if_pos rfl, Attempt.meets_bind]
    refine Attempt.meets_mono ?_ (fun _ h => h) (parseString_accepts hg hs hrest)
    rintro _ b' ⟨rfl, hreads⟩
    exact ⟨rfl, hreads⟩
  | number hn =>
    obtain ⟨c, s, htext, hc⟩ := hn.2
    have hne : c ≠ 0x6e ∧ c ≠ 0x66 ∧ c ≠ 0x74 ∧ c ≠ quote := by
      rcases hc with rfl | hc
      · decide
      · refine ⟨?_, ?_, ?_, ?_⟩ <;> rintro rfl <;> exact absurd hc (by decide)
    have hcons : b.rest = c :: (s ++ u) := by rw [hrest, htext, List.cons_append]
    rw [Attempt.meets_congr (parseValue_cons S n hcons hne.1 hne.2.1 hne.2.2.1),
      if_neg hne.2.2.2, if_pos hc]
    exact parseNumber_accepts S hn hrest (hu rfl)

/-- By induction on the depth of the text. -/
theorem parseValue_accepts (S : Strtod) {n k depth : ℕ} (hn : k < n)
    (hdepth : depth + k ≤ nestingLimit) : AcceptsValue (IsText S k) depth (parseValue S n) := by
  induction k generalizing n depth with
  | zero =>
    intro b item t u ht hg _ hrest hu
    obtain ⟨m, rfl⟩ : ∃ m, n = m + 1 := Nat.exists_eq_add_of_le' hn
    exact Scalar.accepts ht hg hrest hu
  | succ k ih =>
    intro b item t u ht hg hb hrest hu
    obtain ⟨m, rfl⟩ : ∃ m, n = m + 1 := Nat.exists_eq_add_of_le' (Nat.zero_lt_of_lt hn)
    have hvalue : ∀ {item t}, IsText S k item t → ∃ c s, t = c :: s ∧ startsValue c :=
      fun h => h.starts
    have hblank : ∀ {item t}, IsText S k item t → ∃ c s, t = c :: s ∧ isBlank c = false := by
      intro item t h
      obtain ⟨c, s, hs, hc⟩ := hvalue h
      exact ⟨c, s, hs, hc.ne.1⟩
    have hih : AcceptsValue (IsText S k) (depth + 1) (parseValue S m) := ih (by omega) (by omega)
    rcases ht with ht | ht
    · exact Scalar.accepts ht hg hrest hu
    · unfold Accepts
      cases ht with
      | array ht =>
        have hstarts : Starts rightBracket (IsElement (IsText S k)) := by
          rintro e t ⟨-, h⟩
          obtain ⟨c, s, hs, hc⟩ := hvalue h
          exact ⟨c, s, hs, hc.ne.1, hc.ne.2.1⟩
        rw [Attempt.meets_congr (parseValue_cons S m hrest (by decide) (by decide) (by decide)),
          if_neg (by decide), if_neg (by decide), if_pos rfl]
        exact parseArray_accepts hih hstarts (by omega) ht hg hb hrest
      | object ht =>
        rw [Attempt.meets_congr (parseValue_cons S m hrest (by decide) (by decide) (by decide)),
          if_neg (by decide), if_neg (by decide), if_neg (by decide), if_pos rfl]
        exact parseObject_accepts hih hblank (by omega) ht hg hb hrest

/-! ## Documents -/

theorem startsValue.ne_bom {c : UInt8} (h : startsValue c) : c ≠ 0xEF := by
  rintro rfl
  revert h
  unfold startsValue
  decide

theorem skipUtf8Bom_of_ne {b : ParseBuffer} {c : UInt8} {s : List UInt8} (h : b.rest = c :: s)
    (hc : c ≠ 0xEF) : b.skipUtf8Bom = b := by
  unfold skipUtf8Bom
  rw [if_neg]
  rintro ⟨-, hstart⟩
  rw [startsWith_cons_ne h hc] at hstart
  cases hstart

/-- The front of a document. -/
theorem reads_front {b : ParseBuffer} {bom w s v : List UInt8} {c d : UInt8}
    (hbom : bom = [] ∨ bom = utf8Bom) (hw : Blanks isBlank w) (hc : startsValue c)
    (hrest : b.rest = bom ++ (w ++ c :: s) ++ d :: v) :
    Reads b (bom ++ w) b.skipUtf8Bom.skipWhitespace := by
  have hblanks : ∀ {b' : ParseBuffer}, b'.rest = w ++ c :: (s ++ d :: v) →
      Reads b' w b'.skipWhitespace := fun h => reads_blanks hw h hc.ne.1
  rcases hbom with rfl | rfl
  · have hrest' : b.rest = w ++ c :: (s ++ d :: v) := by simpa using hrest
    have hskip : b.skipUtf8Bom = b := by
      cases w with
      | nil => exact skipUtf8Bom_of_ne hrest' hc.ne_bom
      | cons e w =>
        refine skipUtf8Bom_of_ne hrest' ?_
        rintro rfl
        exact absurd (hw 0xEF (List.mem_cons_self ..)) (by decide)
    rw [hskip]
    exact hblanks hrest'
  · have hrest' : b.rest = utf8Bom ++ (w ++ c :: (s ++ d :: v)) := by simpa using hrest
    have hlength := congrArg List.length hrest'
    unfold ParseBuffer.rest at hlength
    simp only [List.length_drop, List.length_append, List.length_cons, utf8Bom, List.length_nil]
      at hlength
    have hskip : b.skipUtf8Bom = b.advance 3 := by
      unfold skipUtf8Bom
      rw [if_pos ⟨by omega, startsWith_append hrest'⟩]
    rw [hskip]
    have hreads : Reads b utf8Bom (b.advance 3) := reads_advance hrest'
    exact hreads.trans (hblanks (hreads.rest_eq hrest'))

/-- A document that the terminator follows, behind blanks if it has to follow. -/
theorem parseRoot_accepts (S : Strtod) {requireNullTerminated : Bool} {b : ParseBuffer} {item : CJson}
    {t w u : List UInt8} (ht : IsDocument S item t) (hg : Granted b) (hdepth : b.depth = 0)
    (hrest : b.rest = t ++ (w ++ u)) (hu : item.isNumber → Numeral.Stops (w ++ u)) (hne : w ++ u ≠ [])
    (hend : if requireNullTerminated then Blanks isBlank w ∧ u = [0] else w = []) :
    Accepts (parseRoot S requireNullTerminated) b (t ++ w) item := by
  obtain ⟨bom, w', v, hbom, hw', hv, rfl⟩ := ht
  obtain ⟨c, s, rfl, hc⟩ := hv.starts
  obtain ⟨d, s', hd⟩ := List.exists_cons_of_ne_nil hne
  unfold Accepts parseRoot
  rw [Attempt.meets_bind]
  refine Attempt.meets_mono ?_ (fun _ h => h) (newBlock_accepts hg)
  rintro ⟨⟩ b1 ⟨hreads1, -⟩
  have hrest1 := hreads1.rest_eq (t := []) hrest
  have hreads2 := hreads1.trans (reads_front hbom hw' hc (hd ▸ hrest1))
  rw [Attempt.meets_bind, Attempt.meets_modify, Attempt.meets_bind, Attempt.meets_onReject]
  have hrest2 := hreads2.rest_eq (u := c :: s ++ (w ++ u)) (by simpa using hrest)
  refine Attempt.meets_mono ?_ (fun _ h => h) (parseValue_accepts S (Nat.lt_succ_self _)
    (Nat.le_of_eq (Nat.zero_add _)) hv (hg.of_reads hreads2) (hreads2.depth.trans hdepth) hrest2 hu)
  rintro _ b3 ⟨rfl, hreads3⟩
  have hrest3 := hreads3.rest_eq hrest2
  have hreads := hreads2.trans hreads3
  split_ifs at hend ⊢ with hrequire
  · obtain ⟨hw, rfl⟩ := hend
    have hskip := skipWhitespace_end hw (by decide) hrest3
    have hreads4 : Reads b3 w b3.skipWhitespace := by
      rw [hskip]
      exact reads_advance hrest3
    rw [Attempt.meets_bind, Attempt.meets_modify, Attempt.meets_bind, Attempt.meets_get,
      if_pos (nextIs_iff.mpr ⟨[], hreads4.rest_eq hrest3⟩), Attempt.meets_pure]
    refine ⟨rfl, ?_⟩
    simpa using hreads.trans hreads4
  · subst hend
    rw [Attempt.meets_pure]
    refine ⟨rfl, ?_⟩
    simpa using hreads

/-- A string that begins with a document: followed by blanks only if a terminator is required, and else
    by anything, but behind a number by nothing that could belong to it. -/
theorem cJSONParseWithOpts_accepts (S : Strtod) {heap : Allocator} (hgrants : ∀ i, heap.grants i = true)
    {value : CStr} {requireNullTerminated : Bool} {item : CJson} {t w : List UInt8}
    (ht : IsDocument S item t) (hvalue : value.bytes = t ++ w)
    (hend : if requireNullTerminated then Blanks isBlank w else item.isNumber → Numeral.Stops w) :
    ∃ r, cJSONParseWithOpts S heap (some value) requireNullTerminated = .ok r ∧
      r.item = some item := by
  have haccepts : (parseRoot S requireNullTerminated).Meets (fun item' _ => item' = item)
      (fun _ => False) ⟨value.bytes ++ [0], 0, 0, heap⟩ := by
    have hstop : Numeral.Stops [0] := stops_cons (by decide)
    cases requireNullTerminated with
    | true =>
      rw [if_pos rfl] at hend
      refine Attempt.meets_mono (fun _ _ h => h.1) (fun _ h => h) (parseRoot_accepts S (u := [0]) ht
        hgrants rfl ?_ (fun _ => stops_blanks hend hstop) (by simp) ⟨hend, rfl⟩)
      change value.bytes ++ [0] = _
      rw [hvalue, List.append_assoc]
    | false =>
      rw [if_neg Bool.false_ne_true] at hend
      refine Attempt.meets_mono (fun _ _ h => h.1) (fun _ h => h) (parseRoot_accepts S (w := [])
        (u := w ++ [0]) ht hgrants rfl ?_ ?_ (by simp) rfl)
      · change value.bytes ++ [0] = _
        rw [hvalue, List.append_assoc, List.nil_append]
      · intro hnumber
        cases w with
        | nil => exact hstop
        | cons c w => exact stops_cons (hend hnumber c rfl)
  obtain ⟨item', b, hroot, rfl⟩ := Attempt.accepts_of_meets haccepts
  refine ⟨⟨some item', some b.offset, none, b.heap⟩, ?_, rfl⟩
  unfold cJSONParseWithOpts
  cases hbytes : value.bytes with
  | nil =>
    rw [hbytes] at hroot
    simp only [Option.map_some, hbytes, cJSONParseWithLengthOpts, List.nil_append]
    rw [List.nil_append] at hroot
    rw [hroot]
  | cons c s =>
    rw [hbytes] at hroot
    simp only [Option.map_some, hbytes, cJSONParseWithLengthOpts, List.cons_append]
    rw [List.cons_append] at hroot
    rw [hroot]

/-- With a terminator required, a string that is accepted is a document and blanks. -/
theorem document_of_parse {S : Strtod} {heap : Allocator} {value : CStr} {r : Parsed} {item : CJson}
    (hr : cJSONParseWithOpts S heap (some value) true = .ok r) (hitem : r.item = some item) :
    ∃ t w, IsDocument S item t ∧ Blanks isBlank w ∧ value.bytes = t ++ w := by
  have haccounts := accounts_of_parse hr hitem
  unfold Parsed.Accounts at haccounts
  rw [hitem] at haccounts
  obtain ⟨-, -, t, w, rest, ht, hw, hcontent, -, s, rfl⟩ := haccounts
  refine ⟨t, w, ht, hw, ?_⟩
  -- the NUL at the front of the rest is the terminator
  cases hs : s.reverse with
  | nil =>
    rw [List.reverse_eq_nil_iff] at hs
    subst hs
    rw [← List.append_assoc] at hcontent
    exact List.append_cancel_right hcontent
  | cons c s' =>
    rw [List.reverse_eq_cons_iff] at hs
    subst hs
    have hbytes : value.bytes ++ [0] = (t ++ (w ++ 0 :: s'.reverse)) ++ [c] := by
      simpa using hcontent
    have hfront := (List.append_inj' hbytes rfl).1
    exact absurd (hfront ▸ by simp) value.noNul

/-- With a terminator required, exactly the documents that denote the item. -/
theorem cJSONParseWithOpts_iff (S : Strtod) {heap : Allocator} (hgrants : ∀ i, heap.grants i = true)
    (value : CStr) (item : CJson) :
    (∃ r, cJSONParseWithOpts S heap (some value) true = .ok r ∧ r.item = some item) ↔
      ∃ t w, IsDocument S item t ∧ Blanks isBlank w ∧ value.bytes = t ++ w := by
  constructor
  · rintro ⟨r, hr, hitem⟩
    exact document_of_parse hr hitem
  · rintro ⟨t, w, ht, hw, hvalue⟩
    exact cJSONParseWithOpts_accepts S hgrants ht hvalue hw

theorem scalar_document {S : Strtod} {item : CJson} {t : List UInt8} (h : Scalar S item t) :
    IsDocument S item t := ⟨[], [], t, Or.inl rfl, Blanks.nil, Or.inl h, rfl⟩

theorem cJSONParseWithOpts_null :
    ∃ r, cJSONParseWithOpts Strtod.one .granting (some (CStr.lit "null ")) true = .ok r ∧
      r.item = some .null := by
  rw [cJSONParseWithOpts_iff Strtod.one (fun _ => rfl) (CStr.lit "null ") .null]
  refine ⟨ascii "null", ascii " ", scalar_document .null, fun c hc => ?_, rfl⟩
  rw [List.mem_singleton.mp hc]
  decide

/-- A string of JSON is read as what it stands for, whichever way its characters are escaped. -/
theorem cJSONParseWithOpts_escaped (S : Strtod) {heap : Allocator}
    (hgrants : ∀ i, heap.grants i = true) {t s : List UInt8} (h : Escaped t s)
    (hnul : (0 : UInt8) ∉ t) :
    ∃ r, cJSONParseWithOpts S heap (some (CStr.ofMemory (quote :: (t ++ [quote])))) true = .ok r ∧
      r.item = some (.string (some (CStr.ofMemory s))) := by
  have hbytes : (CStr.ofMemory (quote :: (t ++ [quote]))).bytes = quote :: (t ++ [quote]) := by
    refine cstr_eq_self ?_
    simp only [List.mem_cons, List.mem_append, List.not_mem_nil, or_false, not_or]
    exact ⟨by decide, hnul, by decide⟩
  refine cJSONParseWithOpts_accepts S hgrants (w := []) (scalar_document (.string h.literal)) ?_
    Blanks.nil
  rw [hbytes, List.append_nil]

/-- Two code units for a character beyond the basic plane. -/
theorem cJSONParseWithOpts_clef :
    ∃ r, cJSONParseWithOpts Strtod.one .granting
      (some (CStr.ofMemory (quote :: (ascii "\\uD834\\udd1e" ++ [quote])))) true = .ok r ∧
        r.item = some (.string (some (CStr.ofMemory [0xF0, 0x9D, 0x84, 0x9E]))) := by
  have hescaped : Escaped (unicodeEscape (ascii "D834") ++ (unicodeEscape (ascii "dd1e") ++ []))
      (String.utf8EncodeChar (Char.ofNat 0x1D11E) ++ []) :=
    .pair (Char.ofNat 0x1D11E) (by decide) rfl rfl (by decide) (by decide) .nil
  have hclef : Escaped (ascii "\\uD834\\udd1e") [0xF0, 0x9D, 0x84, 0x9E] := hescaped
  exact cJSONParseWithOpts_escaped Strtod.one (fun _ => rfl) hclef (by decide)

/-- Without a terminator required, a document is followed by anything. -/
theorem document_of_cJSONParse {S : Strtod} {heap : Allocator} {value : CStr} {r : Parsed} {item : CJson}
    (hr : cJSONParse S heap (some value) = .ok r) (hitem : r.item = some item) :
    ∃ t w, IsDocument S item t ∧ value.bytes = t ++ w := by
  have haccounts := accounts_of_parse hr hitem
  unfold Parsed.Accounts at haccounts
  rw [hitem] at haccounts
  obtain ⟨-, -, t, _, rest, ht, -, hcontent, -, rfl⟩ := haccounts
  rw [List.nil_append] at hcontent
  -- a document does not end with the terminator
  obtain ⟨s, c, hs, hc⟩ := ht.ends
  cases hrest : rest.reverse with
  | nil =>
    rw [List.reverse_eq_nil_iff] at hrest
    rw [hrest, List.append_nil, hs] at hcontent
    obtain ⟨-, hlast⟩ := List.append_inj' hcontent rfl
    cases hlast
    exact absurd hc (by decide)
  | cons d u =>
    rw [List.reverse_eq_cons_iff] at hrest
    rw [hrest, ← List.append_assoc] at hcontent
    exact ⟨t, u.reverse, ht, (List.append_inj' hcontent rfl).1⟩

/-- Exactly what begins with a document that denotes the item, if that is not a number. -/
theorem cJSONParse_iff (S : Strtod) {heap : Allocator} (hgrants : ∀ i, heap.grants i = true)
    (value : CStr) {item : CJson} (hitem : item.isNumber = false) :
    (∃ r, cJSONParse S heap (some value) = .ok r ∧ r.item = some item) ↔
      ∃ t w, IsDocument S item t ∧ value.bytes = t ++ w := by
  constructor
  · rintro ⟨r, hr, hsome⟩
    exact document_of_cJSONParse hr hsome
  · rintro ⟨t, w, ht, hvalue⟩
    refine cJSONParseWithOpts_accepts S hgrants ht hvalue ?_
    rw [if_neg Bool.false_ne_true, hitem]
    exact fun h => absurd h Bool.false_ne_true

end OlegPrinter
