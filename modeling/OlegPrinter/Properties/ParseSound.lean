/-
  What `cJSON_Parse` accepts is in the language, and what it rejects leaves nothing behind.

  Each function of the parser gets one statement, for all buffers in which the last byte is
  not a comma (`Guarded`), so for all that end with their terminator: it does not read or write
  outside an object; if it accepts, it has gone over a text of what it returns, with the blocks
  of that and no others more than before; if it fails, the blocks are those from before.

  `parseItems_meets`: the loop of `parse_array` and `parse_object`; its invariant says that
  what was read goes on to a list of items if items follow. `parseValue_meets`: by induction on
  the depth that is left. `parseRoot_meets` and `cJSONParseWithLengthOpts_sound` put them together.
-/
import OlegPrinter.CJson.Reads

namespace OlegPrinter

open CLib ParseBuffer

section

variable {b b' b'' : ParseBuffer} {t u : List UInt8}

/-! ## Steps -/

theorem peek_meets {R : ParseBuffer → Prop} (h : b.canAccess) :
    peek.Meets (fun c b' => b = b' ∧ ∃ s, b.rest = c :: s) R b := by
  cases hrest : b.rest with
  | nil => exact absurd hrest (canAccess_iff.mp h)
  | cons c s =>
    have hpeek : peek b = .accept c b := by
      unfold peek
      rw [hrest]
    rw [Attempt.meets_accept hpeek]
    exact ⟨rfl, s, rfl⟩

theorem reads_next {c : UInt8} (h : b.nextIs c) : Reads b [c] (b.advance 1) := by
  obtain ⟨s, hs⟩ := nextIs_iff.mp h
  exact reads_advance (t := [c]) hs

/-- A failure that frees what was there. -/
theorem Fails.free {live n : ℕ} (h : Fails (live + n) b b') : Fails live b (b'.free n) where
  content := h.content
  offset := h.offset
  grants := h.grants
  live := by
    have := h.live
    change b'.heap.live - n = live
    omega

theorem Reads.offset_le' (h : Reads b t b') (hb : b.offset ≤ b.content.length) :
    b'.offset ≤ b'.content.length := by
  rw [h.content]
  exact h.offset_le hb

/-- Where nothing is read, nothing is read behind the next byte. -/
theorem Reads.behind (h : Reads b [] b') : Reads (b.advance 1) [] (b'.advance 1) where
  content := h.content
  offset := congrArg (· + 1) h.offset
  rest := by
    rw [rest_advance, rest_advance, List.nil_append]
    exact congrArg (List.drop 1) h.rest
  depth := h.depth
  grants := h.grants

/-- Out of the brackets again. -/
theorem Reads.shallower (h : Reads b.deeper t b') : Reads b t b'.shallower where
  content := h.content
  offset := h.offset
  rest := h.rest
  depth := by
    have := h.depth
    change b'.depth - 1 = b.depth
    change b'.depth = b.depth + 1 at this
    omega
  grants := h.grants

theorem back_advance (h : Reads b t b') (ht : t ≠ []) : b'.back.advance 1 = b' := by
  have hoffset := h.offset
  have hlength := List.length_pos_iff.mpr ht
  unfold back advance
  dsimp only
  rw [Nat.sub_add_cancel (by omega)]

/-! ## Strings -/

/-- The second pass, with the allocation that `parse_string` makes. -/
theorem unescape_meets {skipped : ℕ} (h : Closed t skipped) {rest : List UInt8}
    (hrest : b.rest = quote :: (t ++ quote :: rest)) {live : ℕ} (hlive : b.heap.live = live + 1) :
    (unescape t.length (t.length + 1 - skipped + 1)).Meets
      (fun s b' => (∃ v, Decodes t v ∧ s = CStr.ofMemory v) ∧ Reads b (quote :: (t ++ [quote])) b' ∧
        b'.heap.live = live + 1)
      (fun b' => Fails live b b' ∧ ∀ v, ¬ Decodes t v) b := by
  have htext : (b.rest.drop 1).take t.length = t := by
    rw [hrest, List.drop_one, List.tail_cons, List.take_left]
  have hreads : Reads b (quote :: (t ++ [quote])) (b.advance (t.length + 2)) := by
    have := reads_advance (b := b) (t := quote :: (t ++ [quote])) (u := rest) (by simp [hrest])
    simpa using this
  unfold Attempt.Meets unescape
  rw [htext]
  have hroom : t.length + 2 ≤ t.length + 1 - skipped + 1 + skipped := by omega
  rcases decode_meets h hroom with
    ⟨d, hd, hdecodes⟩ | ⟨d, hd, hlength, hnone⟩
  · rw [hd]
    exact ⟨⟨d.output, hdecodes, rfl⟩, hreads, hlive⟩
  · rw [hd]
    refine ⟨Fails.free ⟨rfl, ?_, rfl, hlive⟩, hnone⟩
    have hle : (b.advance (t.length + 2)).offset ≤ b.content.length :=
      hreads.offset_le (offset_le_of_canAccess (hreads.canAccess_left (by simp)))
    change b.offset + (t.length + 2) ≤ _ at hle
    change b.offset + (1 + (t.length - d.input.length)) ≤ _
    omega

theorem parseString_meets (h : b.canAccess) : parseString.Meets
    (fun s b' => ∃ t v, Literal t v ∧ s = CStr.ofMemory v ∧ Reads b (quote :: (t ++ [quote])) b' ∧
      b'.heap.live = b.heap.live + 1)
    (fun b' => Fails b.heap.live b b') b := by
  unfold parseString
  rw [Attempt.meets_bind]
  refine Attempt.meets_mono ?_ (fun _ h => h) (peek_meets h)
  rintro c _ ⟨rfl, s, hs⟩
  have hskip : Fails b.heap.live b (b.advance 1) :=
    (reads_advance (t := [c]) hs).fails (offset_le_of_canAccess h) rfl
  split_ifs with hquote
  · exact hskip
  · rw [not_not] at hquote
    subst hquote
    rw [Attempt.meets_bind, Attempt.meets_get]
    cases hscan : scanString (b.rest.drop 1) with
    | none => exact hskip
    | some r =>
      obtain ⟨length, skipped⟩ := r
      obtain ⟨t, rest, ht, rfl, hclosed⟩ := closed_of_scanString hscan
      rw [hs, List.drop_one, List.tail_cons] at ht
      subst ht
      dsimp only
      rw [Attempt.meets_bind, Attempt.meets_onReject]
      refine Attempt.meets_mono ?_ ?_ (newBlock_meets b)
      · rintro ⟨⟩ b1 ⟨hreads, hlive⟩
        have hrest := hreads.rest.symm.trans hs
        refine Attempt.meets_mono ?_ ?_ (unescape_meets hclosed hrest hlive)
        · rintro s b2 ⟨⟨v, hv, rfl⟩, hreads', hlive'⟩
          exact ⟨t, v, ⟨⟨skipped, hclosed⟩, hv⟩, rfl, hreads.trans hreads', hlive'⟩
        · rintro b2 ⟨hfails, -⟩
          exact Fails.of_reads hreads hfails
      · rintro b1 ⟨hreads, hlive⟩
        have hrest := hreads.rest.symm.trans hs
        exact Fails.of_reads hreads ((reads_advance (t := [quote]) hrest).fails
          (hreads.offset_le' (offset_le_of_canAccess h)) hlive)

/-! ## Numbers -/

theorem parseNumber_meets (S : Strtod) (h : startsNumber b) : (parseNumber S).Meets
    (fun item b' => (∃ n, IsNumber n ∧ item = S.item n ∧ Reads b n.text b') ∧
      b'.heap.live = b.heap.live)
    (fun b' => b' = b) b := by
  unfold Attempt.Meets parseNumber
  cases hscan : Numeral.scan ((b.rest.take 63).takeWhile Numeral.numberByte) with
  | none => exact rfl
  | some n =>
    obtain ⟨u, hu⟩ := Numeral.scan_sound hscan
    obtain ⟨w, hw⟩ := List.takeWhile_prefix Numeral.numberByte (l := b.rest.take 63)
    have htake : b.rest.take 63 = n.text ++ (u ++ w) := by rw [← hw, hu, List.append_assoc]
    have hlength := congrArg List.length htake
    rw [List.length_take, List.length_append] at hlength
    have hrest : b.rest = n.text ++ (u ++ w ++ b.rest.drop 63) := by
      rw [← List.append_assoc, ← htake, List.take_append_drop]
    refine ⟨⟨n, ⟨by omega, ?_⟩, rfl, reads_advance hrest⟩, rfl⟩
    -- the numeral starts where the text does
    cases htext : n.text with
    | nil => exact absurd htext (Numeral.text_ne_nil n)
    | cons c s =>
      rw [htext, List.cons_append] at hrest
      unfold startsNumber at h
      rw [hrest, List.head?_cons, Option.any_some, decide_eq_true_eq] at h
      exact ⟨c, s, rfl, h⟩

end

/-! ## Items -/

/-- An item of an array or object, from its first byte on. Its block has been allocated: that is the one
    beyond `live` and the blocks of the chain. -/
def ReadsItem (Core : Option CStr × CJson → List UInt8 → Prop) (depth live : ℕ)
    (parseItem : Chain → Attempt ParseBuffer (Option CStr × CJson)) : Prop :=
  ∀ head b, Guarded b → b.depth = depth → b.canAccess → b.heap.live = live + head.blocks + 1 →
    (parseItem head).Meets
      (fun e b' => (∃ t, Core e t ∧ Reads b t b') ∧ b'.heap.live = live + (head.push e.1 e.2).blocks)
      (fun b' => Fails live b b') b

/-- A value, its block allocated. -/
def ReadsValue (T : CJson → List UInt8 → Prop) (depth : ℕ) (parseValue : Attempt ParseBuffer CJson) :
    Prop :=
  ∀ b, Guarded b → b.depth = depth → b.offset ≤ b.content.length →
    parseValue.Meets
      (fun item b' => (∃ t, T item t ∧ Reads b t b') ∧
        b'.heap.live + 1 = b.heap.live + item.blocks)
      (fun b' => Fails b.heap.live b b') b

/-- Where the loop over the items stands: before an opening bracket or a comma behind which `head` can
    be continued. -/
structure Continues (Core : Option CStr × CJson → List UInt8 → Prop) (opening : UInt8)
    (start : ParseBuffer) (head : Chain) (b : ParseBuffer) : Prop where
  access : (b.advance 1).canAccess
  live : b.heap.live = start.heap.live + head.blocks
  reads : ∃ es t, head = Chain.ofEntries es ∧ Reads start (opening :: t) (b.advance 1) ∧
    ∀ es' u, Separated commaByte (Padded isBlank Core) es' u →
      Separated commaByte (Padded isBlank Core) (es ++ es') (t ++ u)

section

variable {Core : Option CStr × CJson → List UInt8 → Prop} {close opening : UInt8} {start : ParseBuffer}
  {parseItem : Chain → Attempt ParseBuffer (Option CStr × CJson)}

/-- An item behind those before it, and blanks around it. -/
theorem Continues.item {head : Chain} {b b1 b2 b3 : ParseBuffer} {e : Option CStr × CJson}
    {w v w' : List UInt8} (h : Continues Core opening start head b) (hw : Blanks isBlank w)
    (hreads1 : Reads (b.advance 1) w b1) (hv : Core e v) (hreads2 : Reads b1 v b2)
    (hw' : Blanks isBlank w') (hreads3 : Reads b2 w' b3) :
    ∃ es t, head.push e.1 e.2 = Chain.ofEntries es ∧ Reads start (opening :: t) b3 ∧
      Separated commaByte (Padded isBlank Core) es t ∧
      ∀ es' u, Separated commaByte (Padded isBlank Core) es' u →
        Separated commaByte (Padded isBlank Core) (es ++ es') (t ++ commaByte :: u) := by
  obtain ⟨es, t, rfl, hreads, hes⟩ := h.reads
  have hpadded : Padded isBlank Core e (w ++ (v ++ w')) := ⟨w, v, w', hw, hv, hw', rfl⟩
  refine ⟨es ++ [e], t ++ (w ++ (v ++ w')), ofEntries_push es e.1 e.2, ?_, ?_, fun es' u hu => ?_⟩
  · simpa using hreads.trans (hreads1.trans (hreads2.trans hreads3))
  · exact hes [e] _ (.one hpadded)
  · simpa using hes (e :: es') _ (.cons hpadded hu)

theorem parseItemsTurn_meets (hg : Guarded start) (hstart : start.offset ≤ start.content.length)
    (hitem : ReadsItem Core start.depth start.heap.live parseItem) {head : Chain} {b : ParseBuffer}
    (h : Continues Core opening start head b) : (parseItemsTurn close parseItem head).Meets
      (fun r b' => match r with
        | .inl head' => (∃ es t, head' = Chain.ofEntries es ∧
            Separated commaByte (Padded isBlank Core) es t ∧
              Reads start (opening :: (t ++ [close])) (b'.advance 1)) ∧
            b'.heap.live = start.heap.live + head'.blocks
        | .inr head' => Continues Core opening start head' b' ∧ b.offset < b'.offset)
      (fun b' => Fails start.heap.live start b') b := by
  obtain ⟨-, t0, -, hreads0, -⟩ := h.reads
  have hoffset : b.offset + 1 ≤ start.content.length := hreads0.offset_le hstart
  have hcontent : b.content = start.content := hreads0.content
  unfold parseItemsTurn
  rw [Attempt.meets_bind, Attempt.meets_onReject]
  refine Attempt.meets_mono ?_ ?_ (newBlock_meets b)
  · rintro ⟨⟩ b1 ⟨hblock, hlive1⟩
    rw [Attempt.meets_bind, Attempt.meets_modify, Attempt.meets_bind]
    obtain ⟨w, hw, hreads1, haccess⟩ := reads_skipWhitespace (b1.advance 1)
    have hblock' := hblock.behind
    have haccess1 : (b1.advance 1).canAccess := by
      rw [canAccess_iff, ← List.nil_append (ParseBuffer.rest _), ← hblock'.rest]
      exact canAccess_iff.mp h.access
    have hreads01 := hreads0.trans (hblock'.trans hreads1)
    refine Attempt.meets_mono ?_ ?_ (hitem head _ (hg.of_content hreads01.content)
      hreads01.depth (haccess haccess1) ?_)
    · rintro ⟨string, item⟩ b2 ⟨⟨v, hv, hreads2⟩, hlive2⟩
      dsimp only at hlive2 ⊢
      rw [Attempt.meets_bind, Attempt.meets_modify, Attempt.meets_bind, Attempt.meets_get]
      obtain ⟨w', hw', hreads3, -⟩ := reads_skipWhitespace b2
      obtain ⟨es, t, hhead, hreads, hes, hmore⟩ :=
        h.item hw (hblock'.trans hreads1) hv hreads2 hw' hreads3
      have hlive3 : b2.skipWhitespace.heap.live = start.heap.live + (head.push string item).blocks := by
        rw [skipWhitespace_heap, hlive2]
      have hle := hreads.offset_le hstart
      split_ifs with hcomma hclose
      · rw [Attempt.meets_pure]
        have hnext := reads_next hcomma
        refine ⟨⟨?_, hlive3, es, t ++ [commaByte], hhead, hreads.trans hnext, fun es' u hu => ?_⟩, ?_⟩
        · exact (hg.of_content hreads.content).canAccess hcomma
        · simpa using hmore es' u hu
        · have h1 := hreads1.offset
          have h2 := hreads2.offset
          have h3 := hreads3.offset
          have h0 := hblock'.offset
          change b1.offset + 1 = b.offset + 1 + 0 at h0
          change _ = b1.offset + 1 + _ at h1
          omega
      · rw [Attempt.meets_pure]
        exact ⟨⟨es, t, hhead, hes, hreads.trans (reads_next hclose)⟩, hlive3⟩
      · rw [Attempt.meets_onReject, Attempt.meets_reject]
        exact Fails.free (hreads.fails hstart hlive3)
    · intro b2 hfails
      exact Fails.of_reads hreads01 hfails
    · rw [skipWhitespace_heap]
      change b1.heap.live = _
      rw [hlive1, h.live]
  · rintro b1 ⟨hblock, hlive1⟩
    refine Fails.free ⟨hblock.content.trans hcontent, ?_, ?_, by rw [hlive1, h.live]⟩
    · rw [hblock.offset, List.length_nil]
      omega
    · exact hblock.grants.trans hreads0.grants

/-- The loop ends before the buffer does. -/
theorem parseItemsLoop_meets (hg : Guarded start) (hstart : start.offset ≤ start.content.length)
    (hitem : ReadsItem Core start.depth start.heap.live parseItem) {head : Chain} {b : ParseBuffer}
    {n : ℕ} (h : Continues Core opening start head b) (hn : start.content.length ≤ b.offset + n) :
    (Attempt.turns (parseItemsTurn close parseItem) n head).Meets
      (fun head' b' => (∃ es t, head' = Chain.ofEntries es ∧
          Separated commaByte (Padded isBlank Core) es t ∧
            Reads start (opening :: (t ++ [close])) (b'.advance 1)) ∧
          b'.heap.live = start.heap.live + head'.blocks)
      (fun b' => Fails start.heap.live start b') b := by
  refine Attempt.meets_turns (fun n head b => Continues Core opening start head b ∧
    start.content.length ≤ b.offset + n) ?_ ?_ n ⟨h, hn⟩
  · rintro head b ⟨h, hn⟩
    obtain ⟨-, t, -, hreads, -⟩ := h.reads
    have haccess := h.access
    unfold canAccess at haccess
    rw [decide_eq_true_eq, hreads.content] at haccess
    change b.offset + 1 < _ at haccess
    omega
  · rintro n head b ⟨h, hn⟩
    refine Attempt.meets_mono (fun r b' hr => ?_) (fun _ h => h)
      (parseItemsTurn_meets hg hstart hitem h)
    cases r with
    | inl head' => exact hr
    | inr head' => exact ⟨hr.1, by have := hr.2; omega⟩

theorem parseItems_meets (hg : Guarded start) (hopening : start.nextIs opening)
    (hitem : ReadsItem Core start.depth start.heap.live parseItem) :
    (parseItems close parseItem).Meets
      (fun head b' => (∃ es t b1, head = Chain.ofEntries es ∧ Listed isBlank commaByte Core es t ∧
          Reads start (opening :: (t ++ [close])) b1 ∧ b' = b1.shallower) ∧
          b'.heap.live = start.heap.live + head.blocks)
      (fun b' => Fails start.heap.live start b') start := by
  have hstart : start.offset ≤ start.content.length := by
    obtain ⟨s, hs⟩ := nextIs_iff.mp hopening
    exact offset_le_of_canAccess (canAccess_iff.mpr (by simp [hs]))
  obtain ⟨w, hw, hreads, -⟩ := reads_skipWhitespace (start.advance 1)
  have hreads' : Reads start (opening :: w) (start.advance 1).skipWhitespace :=
    (reads_next hopening).trans hreads
  have hlive := skipWhitespace_heap (start.advance 1)
  unfold parseItems
  rw [Attempt.meets_bind, Attempt.meets_modify, Attempt.meets_bind, Attempt.meets_get]
  generalize (start.advance 1).skipWhitespace = b at hreads' hlive ⊢
  have hlive' : b.heap.live = start.heap.live := by rw [hlive]; rfl
  have hback := back_advance hreads' (List.cons_ne_nil _ _)
  split_ifs with hclose haccess
  · rw [Attempt.meets_bind, Attempt.meets_modify, Attempt.meets_pure]
    exact ⟨⟨[], w, b.advance 1, rfl, Or.inl ⟨rfl, hw⟩, hreads'.trans (reads_next hclose), rfl⟩, hlive'⟩
  · rw [Attempt.meets_bind, Attempt.meets_modify, Attempt.meets_bind]
    have hfirst : Continues Core opening start .nil b.back := by
      refine ⟨hback.symm ▸ haccess, hlive', [], w, rfl, hback.symm ▸ hreads', fun es' u hu => ?_⟩
      -- the blanks before the first item belong to it
      exact hu.blanks_append hw
    refine Attempt.meets_mono ?_ (fun _ h => h) (parseItemsLoop_meets hg hstart hitem hfirst ?_)
    · rintro head b' ⟨⟨es, t, rfl, ht, hreads''⟩, hlive''⟩
      rw [Attempt.meets_bind, Attempt.meets_modify, Attempt.meets_pure]
      exact ⟨⟨es, t, b'.advance 1, rfl, Or.inr ht, hreads'', rfl⟩, hlive''⟩
    · rw [hreads'.content]
      omega
  · rw [Attempt.meets_bind, Attempt.meets_modify, Attempt.meets_reject]
    refine ⟨hreads'.content, ?_, hreads'.grants, hlive'⟩
    have hle := hreads'.offset_le hstart
    change b.offset - 1 ≤ _
    omega

end

section

variable {T : CJson → List UInt8 → Prop} {depth : ℕ} {parseValue : Attempt ParseBuffer CJson}

theorem parseElement_meets (h : ReadsValue T depth parseValue) (live : ℕ) :
    ReadsItem (IsElement T) depth live (parseElement parseValue) := by
  intro head b hg hdepth haccess hlive
  unfold parseElement
  rw [Attempt.meets_bind, Attempt.meets_onReject]
  refine Attempt.meets_mono ?_ ?_ (h b hg hdepth (offset_le_of_canAccess haccess))
  · rintro item b' ⟨⟨t, ht, hreads⟩, hlive'⟩
    rw [Attempt.meets_pure]
    refine ⟨⟨t, ⟨rfl, ht⟩, hreads⟩, ?_⟩
    rw [blocks_push_none]
    dsimp only
    omega
  · intro b' hfails
    rw [hlive] at hfails
    rw [blocks_push_none, blocks_new.1]
    exact Fails.free hfails

theorem parseMember_meets (h : ReadsValue T depth parseValue) (live : ℕ) :
    ReadsItem (IsMember T) depth live (parseMember parseValue) := by
  intro head b hg hdepth haccess hlive
  have hle := offset_le_of_canAccess haccess
  unfold parseMember
  rw [Attempt.meets_bind, Attempt.meets_onReject]
  refine Attempt.meets_mono ?_ ?_ (parseString_meets haccess)
  · rintro name b1 ⟨t, s, ht, rfl, hreads1, hlive1⟩
    obtain ⟨w, hw, hreads2, -⟩ := reads_skipWhitespace b1
    have hheap := skipWhitespace_heap b1
    rw [Attempt.meets_bind, Attempt.meets_modify, Attempt.meets_bind, Attempt.meets_get]
    generalize b1.skipWhitespace = b2 at hreads2 hheap ⊢
    have hreads := hreads1.trans hreads2
    have hlive2 : b2.heap.live = live + (head.push (some (CStr.ofMemory s)) (.string none)).blocks := by
      rw [hheap, hlive1, hlive, blocks_push_some, blocks_new.2]
      omega
    split_ifs with hcolon
    · obtain ⟨w', hw', hreads3, -⟩ := reads_skipWhitespace (b2.advance 1)
      have hheap' := skipWhitespace_heap (b2.advance 1)
      rw [Attempt.meets_bind, Attempt.meets_modify, Attempt.meets_bind, Attempt.meets_onReject]
      generalize (b2.advance 1).skipWhitespace = b3 at hreads3 hheap' ⊢
      have hreads' := hreads.trans ((reads_next hcolon).trans hreads3)
      have hlive3 : b3.heap.live = b2.heap.live := by rw [hheap']; rfl
      refine Attempt.meets_mono ?_ ?_ (h b3 (hg.of_content hreads'.content)
        (hreads'.depth.trans hdepth) (hreads'.offset_le' hle))
      · rintro item b4 ⟨⟨u, hu, hreads4⟩, hlive4⟩
        rw [Attempt.meets_pure]
        refine ⟨⟨_, ⟨t, s, w, w', u, ht, hw, hw', rfl, hu, rfl⟩, ?_⟩, ?_⟩
        · simpa using hreads'.trans hreads4
        · rw [hlive3, hlive2, blocks_push_some, blocks_new.2] at hlive4
          rw [blocks_push_some]
          dsimp only
          omega
      · intro b4 hfails
        rw [hlive3, hlive2] at hfails
        exact Fails.free (Fails.of_reads hreads' hfails)
    · rw [Attempt.meets_onReject, Attempt.meets_reject]
      exact Fails.free (hreads.fails hle hlive2)
  · intro b1 hfails
    rw [hlive] at hfails
    rw [blocks_push_none, blocks_new.1]
    exact Fails.free hfails

/-! ## Values -/

theorem parseArray_meets {b : ParseBuffer}
    (h : b.depth < nestingLimit → ReadsValue T (b.depth + 1) parseValue) (hg : Guarded b)
    (hopening : b.nextIs leftBracket) : (parseArray parseValue).Meets
      (fun item b' => (b.depth < nestingLimit ∧ ∃ t, Composite T item t ∧ Reads b t b') ∧
        b'.heap.live + 1 = b.heap.live + item.blocks)
      (fun b' => Fails b.heap.live b b') b := by
  have hle : b.offset ≤ b.content.length := by
    obtain ⟨s, hs⟩ := nextIs_iff.mp hopening
    exact offset_le_of_canAccess (canAccess_iff.mpr (by simp [hs]))
  unfold parseArray
  rw [Attempt.meets_bind, Attempt.meets_get]
  split_ifs with hlimit
  · exact ⟨rfl, hle, rfl, rfl⟩
  · rw [Attempt.meets_bind, Attempt.meets_modify, Attempt.meets_bind]
    refine Attempt.meets_mono ?_ (fun _ h => h) (peek_meets (b := b.deeper) ?_)
    · rintro c _ ⟨rfl, s, hs⟩
      split_ifs with hbracket
      · exact ⟨rfl, hle, rfl, rfl⟩
      · rw [Attempt.meets_bind]
        have hitem := parseElement_meets (h (Nat.not_le.mp hlimit)) b.heap.live
        have hg' : Guarded b.deeper := hg
        refine Attempt.meets_mono ?_ ?_ (parseItems_meets hg' hopening hitem)
        · rintro head b' ⟨⟨es, t, b1, rfl, ht, hreads, rfl⟩, hlive⟩
          rw [Attempt.meets_pure]
          refine ⟨⟨Nat.not_le.mp hlimit, _, .array ht, hreads.shallower⟩, ?_⟩
          change b1.shallower.heap.live = b.heap.live + _ at hlive
          rw [CJson.blocks]
          omega
        · rintro b' ⟨hcontent, hoffset, hgrants, hlive⟩
          exact ⟨hcontent, hoffset, hgrants, hlive⟩
    · obtain ⟨s, hs⟩ := nextIs_iff.mp hopening
      rw [canAccess_iff]
      change b.rest ≠ []
      rw [hs]
      exact List.cons_ne_nil _ _

theorem parseObject_meets {b : ParseBuffer}
    (h : b.depth < nestingLimit → ReadsValue T (b.depth + 1) parseValue) (hg : Guarded b)
    (hopening : b.nextIs leftBrace) : (parseObject parseValue).Meets
      (fun item b' => (b.depth < nestingLimit ∧ ∃ t, Composite T item t ∧ Reads b t b') ∧
        b'.heap.live + 1 = b.heap.live + item.blocks)
      (fun b' => Fails b.heap.live b b') b := by
  have hle : b.offset ≤ b.content.length := by
    obtain ⟨s, hs⟩ := nextIs_iff.mp hopening
    exact offset_le_of_canAccess (canAccess_iff.mpr (by simp [hs]))
  unfold parseObject
  rw [Attempt.meets_bind, Attempt.meets_get]
  split_ifs with hlimit
  · exact ⟨rfl, hle, rfl, rfl⟩
  · rw [Attempt.meets_bind, Attempt.meets_modify, Attempt.meets_bind, Attempt.meets_get]
    split_ifs with hbrace
    · rw [Attempt.meets_bind]
      have hitem := parseMember_meets (h (Nat.not_le.mp hlimit)) b.heap.live
      have hg' : Guarded b.deeper := hg
      refine Attempt.meets_mono ?_ ?_ (parseItems_meets hg' hopening hitem)
      · rintro head b' ⟨⟨es, t, b1, rfl, ht, hreads, rfl⟩, hlive⟩
        rw [Attempt.meets_pure]
        refine ⟨⟨Nat.not_le.mp hlimit, _, .object ht, hreads.shallower⟩, ?_⟩
        change b1.shallower.heap.live = b.heap.live + _ at hlive
        rw [CJson.blocks]
        omega
      · rintro b' ⟨hcontent, hoffset, hgrants, hlive⟩
        exact ⟨hcontent, hoffset, hgrants, hlive⟩
    · exact ⟨rfl, hle, rfl, rfl⟩

end

theorem reads_startsWith {b : ParseBuffer} {literal : List UInt8} (h : b.startsWith literal) :
    Reads b literal (b.advance literal.length) := by
  obtain ⟨u, hu⟩ := List.isPrefixOf_iff_prefix.mp h
  exact reads_advance hu.symm

theorem IsText.scalar {S : Strtod} {n : ℕ} {item : CJson} {t : List UInt8} (h : Scalar S item t) :
    IsText S n item t := by
  cases n with
  | zero => exact h
  | succ n => exact Or.inl h

theorem IsText.composite {S : Strtod} {depth : ℕ} (hdepth : depth < nestingLimit) {item : CJson}
    {t : List UInt8} (h : Composite (IsText S (nestingLimit - (depth + 1))) item t) :
    IsText S (nestingLimit - depth) item t := by
  obtain ⟨k, hk⟩ : ∃ k, nestingLimit = depth + k + 1 := Nat.exists_eq_add_of_lt hdepth
  rw [show nestingLimit - (depth + 1) = k by omega] at h
  rw [show nestingLimit - depth = k + 1 by omega]
  exact Or.inr h

/-- By induction on how deep it may go; the limit of the source is reached before that. -/
theorem parseValue_meets (S : Strtod) {n depth : ℕ} (hn : nestingLimit - depth < n) :
    ReadsValue (IsText S (nestingLimit - depth)) depth (parseValue S n) := by
  induction n generalizing depth with
  | zero => exact absurd hn (Nat.not_lt_zero _)
  | succ n ih =>
    intro b hg hdepth hle
    have hscalar : ∀ {item t b'}, Scalar S item t → Reads b t b' → item.blocks = 1 →
        b'.heap.live = b.heap.live →
        (∃ t, IsText S (nestingLimit - depth) item t ∧ Reads b t b') ∧
          b'.heap.live + 1 = b.heap.live + item.blocks := by
      intro item t b' ht hreads hblocks hlive
      exact ⟨⟨t, .scalar ht, hreads⟩, by rw [hlive, hblocks]⟩
    have hfail : Fails b.heap.live b b := ⟨rfl, hle, rfl, rfl⟩
    rw [parseValue, Attempt.meets_bind, Attempt.meets_get]
    split_ifs with hnull hfalse htrue hquote hnumber hbracket hbrace
    · exact hscalar .null (reads_startsWith hnull) rfl rfl
    · exact hscalar .false (reads_startsWith hfalse) rfl rfl
    · exact hscalar .true (reads_startsWith htrue) rfl rfl
    · have haccess : b.canAccess := by
        obtain ⟨s, hs⟩ := nextIs_iff.mp hquote
        exact canAccess_iff.mpr (by simp [hs])
      rw [Attempt.meets_bind]
      refine Attempt.meets_mono ?_ (fun _ h => h) (parseString_meets haccess)
      rintro _ b' ⟨t, v, hv, rfl, hreads, hlive⟩
      exact ⟨⟨_, .scalar (.string hv), hreads⟩, by rw [hlive, CJson.blocks]⟩
    · refine Attempt.meets_mono ?_ ?_ (parseNumber_meets S hnumber)
      · rintro _ b' ⟨⟨m, hm, rfl, hreads⟩, hlive⟩
        exact hscalar (.number hm) hreads rfl hlive
      · rintro _ rfl
        exact hfail
    · refine Attempt.meets_mono ?_ (fun _ h => h)
        (parseArray_meets (fun hlimit => ih (by omega)) hg hbracket)
      rintro item b' ⟨⟨hlimit, t, ht, hreads⟩, hlive⟩
      exact ⟨⟨t, .composite (hdepth ▸ hlimit) (hdepth ▸ ht), hreads⟩, hlive⟩
    · refine Attempt.meets_mono ?_ (fun _ h => h)
        (parseObject_meets (fun hlimit => ih (by omega)) hg hbrace)
      rintro item b' ⟨⟨hlimit, t, ht, hreads⟩, hlive⟩
      exact ⟨⟨t, .composite (hdepth ▸ hlimit) (hdepth ▸ ht), hreads⟩, hlive⟩
    · exact hfail

/-! ## Documents -/

theorem reads_skipUtf8Bom (b : ParseBuffer) :
    ∃ bom, (bom = [] ∨ bom = utf8Bom) ∧ Reads b bom b.skipUtf8Bom ∧ b.skipUtf8Bom.heap = b.heap := by
  unfold skipUtf8Bom
  split_ifs with h
  · exact ⟨utf8Bom, Or.inr rfl, reads_startsWith h.2, rfl⟩
  · exact ⟨[], Or.inl rfl, .refl b, rfl⟩

theorem parseRoot_meets (S : Strtod) (requireNullTerminated : Bool) {b : ParseBuffer} (hg : Guarded b)
    (hdepth : b.depth = 0) (hle : b.offset ≤ b.content.length) :
    (parseRoot S requireNullTerminated).Meets
      (fun item b' => (∃ t w, IsDocument S item t ∧ Blanks isBlank w ∧ Reads b (t ++ w) b' ∧
          if requireNullTerminated then ∃ s, b'.rest = 0 :: s else w = []) ∧
        b'.heap.live = b.heap.live + item.blocks)
      (fun b' => Fails b.heap.live b b') b := by
  unfold parseRoot
  rw [Attempt.meets_bind]
  refine Attempt.meets_mono ?_ (fun b' h => h.1.fails hle h.2) (newBlock_meets b)
  rintro ⟨⟩ b1 ⟨hreads1, hlive1⟩
  obtain ⟨bom, hbom, hreads2, hheap2⟩ := reads_skipUtf8Bom b1
  obtain ⟨w, hw, hreads3, -⟩ := reads_skipWhitespace b1.skipUtf8Bom
  have hheap3 := skipWhitespace_heap b1.skipUtf8Bom
  rw [Attempt.meets_bind, Attempt.meets_modify, Attempt.meets_bind, Attempt.meets_onReject]
  generalize b1.skipUtf8Bom.skipWhitespace = b3 at hreads3 hheap3 ⊢
  have hreads : Reads b (bom ++ w) b3 := hreads1.trans (hreads2.trans hreads3)
  have hlive3 : b3.heap.live = b.heap.live + 1 := by rw [hheap3, hheap2, hlive1]
  have hlimit : nestingLimit - 0 < nestingLimit + 1 := Nat.lt_succ_self _
  refine Attempt.meets_mono ?_ ?_ (parseValue_meets S hlimit b3 (hg.of_content hreads.content)
    (hreads.depth.trans hdepth) (hreads.offset_le' hle))
  · rintro item b4 ⟨⟨u, hu, hreads4⟩, hlive4⟩
    have hdocument : IsDocument S item (bom ++ w ++ u) :=
      ⟨bom, w, u, hbom, hw, hu, List.append_assoc _ _ _⟩
    have hreads' := hreads.trans hreads4
    have hlive : b4.heap.live = b.heap.live + item.blocks := by omega
    split_ifs with hrequire
    · obtain ⟨w', hw', hreads5, -⟩ := reads_skipWhitespace b4
      have hheap5 := skipWhitespace_heap b4
      rw [Attempt.meets_bind, Attempt.meets_modify, Attempt.meets_bind, Attempt.meets_get]
      split_ifs with hnext
      · rw [Attempt.meets_pure, hheap5]
        exact ⟨⟨_, w', hdocument, hw', hreads'.trans hreads5, nextIs_iff.mp hnext⟩, hlive⟩
      · rw [Attempt.meets_onReject, Attempt.meets_reject]
        exact Fails.free ((hreads'.trans hreads5).fails hle (by rw [hheap5, hlive]))
    · rw [Attempt.meets_pure]
      refine ⟨⟨_, [], hdocument, Blanks.nil, ?_, rfl⟩, hlive⟩
      rw [List.append_nil]
      exact hreads'
  · intro b4 hfails
    rw [hlive3] at hfails
    exact Fails.free (Fails.of_reads hreads hfails)

/-- What a call has to leave behind. An item stands for the front of the text up to `return_parse_end`,
    and its blocks are all that was allocated; a failure has a place in the text, and has allocated
    nothing. -/
def Parsed.Accounts (S : Strtod) (heap : Allocator) (content : List UInt8)
    (requireNullTerminated : Bool) (r : Parsed) : Prop :=
  match r.item with
  | some item => r.heap.live = heap.live + item.blocks ∧ r.globalError = none ∧
      ∃ t w rest, IsDocument S item t ∧ Blanks isBlank w ∧ content = t ++ (w ++ rest) ∧
        r.parseEnd = some (t ++ w).length ∧
          if requireNullTerminated then ∃ s, rest = 0 :: s else w = []
  | none => r.heap.live = heap.live ∧
      ∃ position < content.length, r.parseEnd = some position ∧ r.globalError = some position

section

variable {S : Strtod} {heap : Allocator} {content : List UInt8} {requireNullTerminated : Bool}

theorem accounts_accept (hlast : content.getLast? ≠ some commaByte) {item : CJson} {b : ParseBuffer}
    (hroot : parseRoot S requireNullTerminated ⟨content, 0, 0, heap⟩ = .accept item b) :
    Parsed.Accounts S heap content requireNullTerminated ⟨some item, some b.offset, none, b.heap⟩ := by
  have hmeets := parseRoot_meets S requireNullTerminated (b := ⟨content, 0, 0, heap⟩) hlast rfl
    (Nat.zero_le _)
  unfold Attempt.Meets at hmeets
  rw [hroot] at hmeets
  obtain ⟨⟨t, w, ht, hw, hreads, hend⟩, hlive⟩ := hmeets
  refine ⟨hlive, rfl, t, w, b.rest, ht, hw, ?_, ?_, hend⟩
  · have hrest := hreads.rest
    rwa [List.append_assoc] at hrest
  · have hoffset := hreads.offset
    rw [Nat.zero_add] at hoffset
    dsimp only
    rw [hoffset]

theorem accounts_reject (hlast : content.getLast? ≠ some commaByte) (hne : content ≠ [])
    {b : ParseBuffer} (hroot : parseRoot S requireNullTerminated ⟨content, 0, 0, heap⟩ = .reject b) :
    Parsed.Accounts S heap content requireNullTerminated
      ⟨none, some (errorPosition b), some (errorPosition b), b.heap⟩ := by
  have hmeets := parseRoot_meets S requireNullTerminated (b := ⟨content, 0, 0, heap⟩) hlast rfl
    (Nat.zero_le _)
  unfold Attempt.Meets at hmeets
  rw [hroot] at hmeets
  refine ⟨hmeets.live, errorPosition b, ?_, rfl, rfl⟩
  have hlength := List.length_pos_iff.mpr hne
  have hcontent := hmeets.content
  unfold errorPosition
  rw [hcontent]
  split_ifs with h
  · exact h
  · exact Nat.sub_lt hlength Nat.one_pos

theorem cJSONParseWithLengthOpts_eq (hne : content ≠ []) :
    cJSONParseWithLengthOpts S heap (some content) requireNullTerminated =
      match parseRoot S requireNullTerminated ⟨content, 0, 0, heap⟩ with
      | .accept item b => .ok ⟨some item, some b.offset, none, b.heap⟩
      | .reject b => .ok ⟨none, some (errorPosition b), some (errorPosition b), b.heap⟩
      | .fault e => .error e := by
  cases content with
  | nil => exact absurd rfl hne
  | cons c s => rfl

/-- A buffer whose last byte is not a comma is parsed without a look beyond it. -/
theorem cJSONParseWithLengthOpts_sound (hne : content ≠ [])
    (hlast : content.getLast? ≠ some commaByte) :
    ∃ r, cJSONParseWithLengthOpts S heap (some content) requireNullTerminated = .ok r ∧
      r.Accounts S heap content requireNullTerminated := by
  rw [cJSONParseWithLengthOpts_eq hne]
  cases hroot : parseRoot S requireNullTerminated ⟨content, 0, 0, heap⟩ with
  | accept item b => exact ⟨_, rfl, accounts_accept hlast hroot⟩
  | reject b => exact ⟨_, rfl, accounts_reject hlast hne hroot⟩
  | fault e =>
    have hmeets := parseRoot_meets S requireNullTerminated (b := ⟨content, 0, 0, heap⟩) hlast rfl
      (Nat.zero_le _)
    unfold Attempt.Meets at hmeets
    rw [hroot] at hmeets
    exact hmeets.elim

end

/-- A `strtod` that reads one number. -/
def Strtod.one : Strtod where
  nearest _ _ := ⟨false, fun i => i = 1, CStr.lit "1", true, CStr.lit "1"⟩
  truncate _ := 1

/-- Memory for everything. -/
def Allocator.granting : Allocator := ⟨fun _ => true, 0, 0⟩

theorem cJSONParseWithLengthOpts_null :
    ∃ r, cJSONParseWithLengthOpts Strtod.one .granting (some (ascii "null")) false = .ok r ∧
      r.Accounts Strtod.one .granting (ascii "null") false :=
  cJSONParseWithLengthOpts_sound (by decide) (by decide)

/-- Behind a comma, the quote of a name is looked for. -/
example : (cJSONParseWithLengthOpts Strtod.one .granting (some (ascii "\x7b\"\":null,")) false).isOk =
    false := by
  decide +kernel

/-- Of a string, what was accepted. -/
theorem accounts_of_parse {S : Strtod} {heap : Allocator} {value : CStr} {requireNullTerminated : Bool}
    {r : Parsed} {item : CJson}
    (hr : cJSONParseWithOpts S heap (some value) requireNullTerminated = .ok r)
    (hitem : r.item = some item) : r.Accounts S heap (value.bytes ++ [0]) requireNullTerminated := by
  have hlast : (value.bytes ++ [0]).getLast? ≠ some commaByte := by
    rw [List.getLast?_concat]
    decide
  have hne : value.bytes ++ [0] ≠ [] := List.append_ne_nil_of_right_ne_nil _ (List.cons_ne_nil _ _)
  have hcall := hr.symm.trans (cJSONParseWithLengthOpts_eq hne)
  cases hroot : parseRoot S requireNullTerminated ⟨value.bytes ++ [0], 0, 0, heap⟩ with
  | accept item' b =>
    rw [hroot] at hcall
    cases hcall
    exact accounts_accept hlast hroot
  | reject b =>
    rw [hroot] at hcall
    cases hcall
    cases hitem
  | fault e =>
    rw [hroot] at hcall
    cases hcall

end OlegPrinter
