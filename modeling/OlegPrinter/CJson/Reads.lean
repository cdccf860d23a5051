/-
  What a step of the parser does to its buffer.

  * `Reads b t b'`: the parser has gone over the text `t`, and is as deeply nested as before.
  * `Fails live b b'`: it has failed somewhere in the buffer, and `live` blocks are left.
  * `Guarded b`: the last byte of the buffer is not a comma. Behind one, `parse_object` looks for a
    name without asking whether the buffer goes on.

  And what the elementary steps do: `skipWhitespace`, `newBlock`, and the two passes over a string.
  `decode_meets`: the second pass never writes beyond the allocation the first one has measured.
-/
import OlegPrinter.CJson.Grammar

namespace OlegPrinter

open CLib ParseBuffer

/-! ## Buffers -/

structure Reads (b : ParseBuffer) (t : List UInt8) (b' : ParseBuffer) : Prop where
  content : b'.content = b.content
  offset : b'.offset = b.offset + t.length
  rest : b.rest = t ++ b'.rest
  depth : b'.depth = b.depth
  grants : b'.heap.grants = b.heap.grants

structure Fails (live : ℕ) (b b' : ParseBuffer) : Prop where
  content : b'.content = b.content
  offset : b'.offset ≤ b.content.length
  grants : b'.heap.grants = b.heap.grants
  live : b'.heap.live = live

def Guarded (b : ParseBuffer) : Prop := b.content.getLast? ≠ some commaByte

section

variable {b b' b'' : ParseBuffer} {t u : List UInt8}

theorem Reads.refl (b : ParseBuffer) : Reads b [] b := ⟨rfl, rfl, rfl, rfl, rfl⟩

theorem Reads.trans (h : Reads b t b') (h' : Reads b' u b'') : Reads b (t ++ u) b'' where
  content := h'.content.trans h.content
  offset := by rw [h'.offset, h.offset, List.length_append, Nat.add_assoc]
  rest := by rw [h.rest, h'.rest, List.append_assoc]
  depth := h'.depth.trans h.depth
  grants := h'.grants.trans h.grants

theorem rest_advance (n : Nat) (b : ParseBuffer) : (b.advance n).rest = b.rest.drop n := by
  unfold rest advance
  rw [List.drop_drop]

theorem reads_advance (h : b.rest = t ++ u) : Reads b t (b.advance t.length) := by
  refine ⟨rfl, rfl, ?_, rfl, rfl⟩
  rw [rest_advance, h, List.drop_left]

theorem canAccess_iff : b.canAccess ↔ b.rest ≠ [] := by
  unfold canAccess rest
  rw [decide_eq_true_eq, ne_eq, List.drop_eq_nil_iff, Nat.not_le]

theorem nextIs_iff {c : UInt8} : b.nextIs c ↔ ∃ s, b.rest = c :: s := by
  unfold nextIs
  rw [decide_eq_true_eq]
  cases b.rest with
  | nil => simp
  | cons d s =>
    simp only [List.head?_cons, Option.some.injEq, List.cons.injEq]
    exact ⟨fun h => ⟨s, h, rfl⟩, fun ⟨_, h, _⟩ => h⟩

theorem Reads.canAccess_left (h : Reads b t b') (ht : t ≠ []) : b.canAccess := by
  rw [canAccess_iff, h.rest]
  simp [ht]

theorem Reads.offset_le (h : Reads b t b') (hb : b.offset ≤ b.content.length) :
    b'.offset ≤ b.content.length := by
  have hrest := congrArg List.length h.rest
  rw [List.length_append] at hrest
  unfold ParseBuffer.rest at hrest
  rw [List.length_drop] at hrest
  rw [h.offset]
  omega

theorem Fails.of_reads {live : ℕ} (h : Reads b t b') (hf : Fails live b' b'') : Fails live b b'' where
  content := hf.content.trans h.content
  offset := hf.offset.trans_eq (congrArg List.length h.content)
  grants := hf.grants.trans h.grants
  live := hf.live

/-- A failure on the spot. -/
theorem Reads.fails {live : ℕ} (h : Reads b t b') (hb : b.offset ≤ b.content.length)
    (hlive : b'.heap.live = live) : Fails live b b' :=
  ⟨h.content, h.offset_le hb, h.grants, hlive⟩

theorem offset_le_of_canAccess (h : b.canAccess) : b.offset ≤ b.content.length := by
  unfold canAccess at h
  rw [decide_eq_true_eq] at h
  exact h.le

/-- Behind a comma the buffer goes on. -/
theorem Guarded.canAccess (hg : Guarded b) (h : b.nextIs commaByte) : (b.advance 1).canAccess := by
  obtain ⟨s, hs⟩ := nextIs_iff.mp h
  rw [canAccess_iff, rest_advance, hs]
  rintro hnil
  refine hg ?_
  have hlast : b.rest.getLast? = some commaByte := by
    rw [hs, List.drop_one, List.tail_cons] at *
    rw [hnil]
    rfl
  unfold ParseBuffer.rest at hlast
  rw [List.getLast?_drop] at hlast
  split_ifs at hlast
  exact hlast

theorem Guarded.of_content (hg : Guarded b) (h : b'.content = b.content) : Guarded b' := by
  unfold Guarded
  rw [h]
  exact hg

/-! ## White space -/

theorem blanks_takeWhile (s : List UInt8) : Blanks isBlank (s.takeWhile isBlank) :=
  fun _ hc => List.mem_takeWhile_imp hc

/-- Skipping goes over blanks, to a byte that is none or to the last byte of the buffer. -/
theorem reads_skipWhitespace (b : ParseBuffer) :
    ∃ w, Blanks isBlank w ∧ Reads b w b.skipWhitespace ∧
      (b.canAccess → b.skipWhitespace.canAccess) := by
  unfold skipWhitespace
  by_cases haccess : b.canAccess
  · rw [if_pos haccess]
    dsimp only
    have hsplit := (List.takeWhile_append_dropWhile (p := isBlank) (l := b.rest)).symm
    have hblanks := blanks_takeWhile b.rest
    have hne := canAccess_iff.mp haccess
    generalize b.rest.takeWhile isBlank = w at hsplit hblanks ⊢
    generalize b.rest.dropWhile isBlank = u at hsplit
    have hreads := reads_advance hsplit
    split_ifs with hend
    · -- all of the rest is blank: stay on its last byte
      have hu : u = [] := by
        have hrest : (b.advance w.length).rest = [] := by
          unfold ParseBuffer.rest
          rw [hend]
          exact List.drop_length
        have happend := hreads.rest.symm.trans hsplit
        rw [hrest] at happend
        exact (List.append_cancel_left happend).symm
      have hw : w ≠ [] := by
        rintro rfl
        exact hne (hsplit.trans hu)
      rw [hu, List.append_nil, ← List.dropLast_append_getLast hw] at hsplit
      have hback : (b.advance w.length).back = b.advance w.dropLast.length := by
        have := List.length_pos_iff.mpr hw
        unfold back advance
        rw [List.length_dropLast, Nat.add_sub_assoc this]
      rw [hback]
      refine ⟨w.dropLast, fun c hc => hblanks c (List.dropLast_subset w hc),
        reads_advance hsplit, fun _ => ?_⟩
      rw [canAccess_iff, rest_advance, hsplit, List.drop_left]
      exact List.cons_ne_nil _ _
    · refine ⟨w, hblanks, hreads, fun _ => ?_⟩
      have hle := hreads.offset_le (offset_le_of_canAccess haccess)
      change (b.advance w.length).offset ≤ (b.advance w.length).content.length at hle
      unfold canAccess
      rw [decide_eq_true_eq]
      omega
  · rw [if_neg haccess]
    exact ⟨[], Blanks.nil, .refl b, fun h => absurd h haccess⟩

theorem skipWhitespace_heap (b : ParseBuffer) : b.skipWhitespace.heap = b.heap := by
  unfold skipWhitespace
  dsimp only
  split_ifs <;> rfl

/-- It goes over all blanks that something else follows. -/
theorem skipWhitespace_blanks {w s : List UInt8} {c : UInt8} (hw : Blanks isBlank w)
    (h : b.rest = w ++ c :: s) (hc : isBlank c = false) :
    b.skipWhitespace = b.advance w.length := by
  have haccess : b.canAccess := by
    rw [canAccess_iff, h]
    simp
  have htake : b.rest.takeWhile isBlank = w := by
    rw [h, List.takeWhile_append_of_pos hw, List.takeWhile_cons_of_neg (by simp [hc]),
      List.append_nil]
  have haccess' : (b.advance w.length).canAccess := by
    rw [canAccess_iff, rest_advance, h, List.drop_left]
    exact List.cons_ne_nil _ _
  unfold canAccess at haccess'
  rw [decide_eq_true_eq] at haccess'
  unfold skipWhitespace
  rw [if_pos haccess, htake]
  dsimp only
  rw [if_neg haccess'.ne]

/-! ## Blocks -/

theorem newBlock_meets (b : ParseBuffer) : newBlock.Meets
    (fun _ b' => Reads b [] b' ∧ b'.heap.live = b.heap.live + 1)
    (fun b' => Reads b [] b' ∧ b'.heap.live = b.heap.live) b := by
  by_cases h : b.heap.grants b.heap.calls
  · simp only [Attempt.Meets, newBlock, if_pos h]
    exact ⟨⟨rfl, rfl, rfl, rfl, rfl⟩, trivial⟩
  · simp only [Attempt.Meets, newBlock, if_neg h]
    exact ⟨⟨rfl, rfl, rfl, rfl, rfl⟩, trivial⟩

/-- The blocks of an item and its name. -/
def entryBlocks (string : Option CStr) (item : CJson) : ℕ :=
  (if string.isSome then 1 else 0) + item.blocks

theorem blocks_cons (string : Option CStr) (item : CJson) (next : Chain) :
    (Chain.cons string item next).blocks = entryBlocks string item + next.blocks := by
  cases string with
  | none => simp [Chain.blocks, entryBlocks]
  | some s => simp [Chain.blocks, entryBlocks]

theorem blocks_push (head : Chain) (string : Option CStr) (item : CJson) :
    (head.push string item).blocks = head.blocks + entryBlocks string item := by
  induction head, string, item using Chain.push.induct with
  | case1 string item => simp [Chain.push, blocks_cons, Chain.blocks]
  | case2 string' item' next string item ih =>
    rw [Chain.push, blocks_cons, blocks_cons, ih]
    omega

theorem blocks_push_none (head : Chain) (item : CJson) :
    (head.push none item).blocks = head.blocks + item.blocks := by
  rw [blocks_push, entryBlocks, Option.isSome_none, if_neg Bool.false_ne_true, Nat.zero_add]

theorem blocks_push_some (head : Chain) (string : CStr) (item : CJson) :
    (head.push (some string) item).blocks = head.blocks + (1 + item.blocks) := by
  rw [blocks_push, entryBlocks, Option.isSome_some, if_pos rfl]

/-- An item that has nothing yet. -/
theorem blocks_new : CJson.invalid.blocks = 1 ∧ (CJson.string none).blocks = 1 := by
  simp [CJson.blocks]

theorem ofEntries_push (es : List (Option CStr × CJson)) (string : Option CStr) (item : CJson) :
    (Chain.ofEntries es).push string item = Chain.ofEntries (es ++ [(string, item)]) := by
  induction es with
  | nil => rfl
  | cons e es ih =>
    obtain ⟨string', item'⟩ := e
    rw [Chain.ofEntries, Chain.push, ih]
    rfl

end

/-! ## The end of a string -/

theorem scanString_plain {b : UInt8} {s : List UInt8} (hquote : b ≠ quote) (hb : b ≠ backslash) :
    scanString (b :: s) = (scanString s).map fun (length, skipped) => (length + 1, skipped) := by
  rw [scanString.eq_def]
  dsimp only
  rw [if_neg hquote, if_neg hb]

theorem scanString_escape (c : UInt8) (s : List UInt8) :
    scanString (backslash :: c :: s) =
      (scanString s).map fun (length, skipped) => (length + 2, skipped + 1) := by
  rw [scanString, if_neg (by decide), if_pos rfl]

/-- The first pass finds the quote behind a closed text. -/
theorem scanString_closed {t : List UInt8} {skipped : ℕ} (h : Closed t skipped)
    (rest : List UInt8) : scanString (t ++ quote :: rest) = some (t.length, skipped) := by
  induction h with
  | nil => rw [List.nil_append, scanString.eq_def]; rfl
  | plain hquote hb _ ih =>
    rw [List.cons_append, scanString_plain hquote hb, ih]
    rfl
  | pair c _ ih =>
    rw [List.cons_append, List.cons_append, scanString_escape, ih]
    rfl

/-- And only there. -/
theorem closed_of_scanString {s : List UInt8} {length skipped : ℕ}
    (h : scanString s = some (length, skipped)) :
    ∃ t rest, s = t ++ quote :: rest ∧ t.length = length ∧ Closed t skipped := by
  induction s using scanString.induct generalizing length skipped with
  | case1 => cases h
  | case2 s =>
    rw [scanString.eq_def] at h
    cases h
    exact ⟨[], s, rfl, rfl, .nil⟩
  | case3 hb => cases h
  | case4 c s hb ih =>
    rw [scanString_escape] at h
    obtain ⟨⟨n, k⟩, hs, hnk⟩ := Option.map_eq_some_iff.mp h
    cases hnk
    obtain ⟨t, rest, rfl, rfl, ht⟩ := ih hs
    exact ⟨backslash :: c :: t, rest, rfl, rfl, .pair c ht⟩
  | case5 b s hquote hb ih =>
    rw [scanString_plain hquote hb] at h
    obtain ⟨⟨n, k⟩, hs, hnk⟩ := Option.map_eq_some_iff.mp h
    cases hnk
    obtain ⟨t, rest, rfl, rfl, ht⟩ := ih hs
    exact ⟨b :: t, rest, rfl, rfl, .plain hquote hb ht⟩

/-! ## The room for a string -/

/-- Which bytes of a closed text are the backslashes that the first pass skipped. -/
inductive Marked : List UInt8 → List Bool → Prop
  | nil : Marked [] []
  | other {b : UInt8} {t : List UInt8} {m : List Bool} (h : Marked t m) :
      Marked (b :: t) (false :: m)
  | skipped {c : UInt8} {t : List UInt8} {m : List Bool} (h : Marked t m) :
      Marked (backslash :: c :: t) (true :: false :: m)

theorem Closed.marked {t : List UInt8} {skipped : ℕ} (h : Closed t skipped) :
    ∃ m, Marked t m ∧ m.count true = skipped := by
  induction h with
  | nil => exact ⟨[], .nil, rfl⟩
  | plain _ _ _ ih =>
    obtain ⟨m, hm, hcount⟩ := ih
    exact ⟨false :: m, .other hm, by simpa using hcount⟩
  | pair c _ ih =>
    obtain ⟨m, hm, hcount⟩ := ih
    exact ⟨true :: false :: m, .skipped hm, by simpa using hcount⟩

section

variable {t : List UInt8} {m : List Bool}

theorem Marked.length_eq (h : Marked t m) : m.length = t.length := by
  induction h with
  | nil => rfl
  | other _ ih => simp [ih]
  | skipped _ ih => simp [ih]

theorem Marked.drop (h : Marked t m) (n : ℕ) : Marked (t.drop n) (m.drop n) := by
  induction n generalizing t m with
  | zero => exact h
  | succ n ih =>
    cases h with
    | nil => exact .nil
    | other h => exact ih h
    | skipped h => exact ih (.other h)

/-- No two neighbours are marked, so of `n` bytes at most half, rounded up. -/
theorem Marked.count_take (h : Marked t m) (n : ℕ) : 2 * (m.take n).count true ≤ n + 1 := by
  induction h generalizing n with
  | nil => simp
  | other _ ih =>
    cases n with
    | zero => simp
    | succ n =>
      have hih := ih n
      rw [List.take_succ_cons, List.count_cons_of_ne (by decide)]
      omega
  | skipped _ ih =>
    match n with
    | 0 => simp
    | 1 => simp
    | n + 2 =>
      have hih := ih n
      rw [List.take_succ_cons, List.take_succ_cons, List.count_cons_self,
        List.count_cons_of_ne (by decide)]
      omega

theorem Marked.count_drop (m : List Bool) (n : ℕ) :
    m.count true = (m.take n).count true + (m.drop n).count true := by
  rw [← List.count_append, List.take_append_drop]

/-- The last byte is not marked: a backslash takes the byte behind it. -/
theorem Marked.count_single {b : UInt8} (h : Marked [b] m) : m.count true = 0 := by
  cases h with
  | other h =>
    cases h
    rfl

end

/-! ## The second pass -/

theorem decodes_plain_iff {b : UInt8} {t s : List UInt8} (hb : b ≠ backslash) :
    Decodes (b :: t) s ↔ ∃ s', s = [b] ++ s' ∧ Decodes t s' := by
  constructor
  · intro h
    cases h with
    | plain _ h => exact ⟨_, rfl, h⟩
    | escape _ _ => exact absurd rfl hb
  · rintro ⟨s', rfl, h⟩
    exact .plain hb h

theorem decodes_escape_iff {t s : List UInt8} :
    Decodes (backslash :: t) s ↔ ∃ bytes n s', escapeSequence (backslash :: t) = some (bytes, n) ∧
      s = bytes ++ s' ∧ Decodes ((backslash :: t).drop n) s' := by
  constructor
  · intro h
    cases h with
    | plain hb _ => exact absurd rfl hb
    | escape hn h => exact ⟨_, _, _, hn, rfl, h⟩
  · rintro ⟨bytes, n, s', hn, rfl, h⟩
    exact .escape hn h

/-- A text denotes one string at most. -/
theorem Decodes.unique {t s s' : List UInt8} (h : Decodes t s) (h' : Decodes t s') : s = s' := by
  induction h generalizing s' with
  | nil => cases h'; rfl
  | plain hb _ ih =>
    obtain ⟨u, rfl, hu⟩ := (decodes_plain_iff hb).mp h'
    rw [ih hu]
    rfl
  | escape hn _ ih =>
    obtain ⟨bytes, n, u, hn', rfl, hu⟩ := decodes_escape_iff.mp h'
    cases hn.symm.trans hn'
    rw [ih hu]

/-- An escape sequence is longer than what it is decoded to. -/
theorem escapeSequence_size {t bytes : List UInt8} {n : Nat}
    (h : escapeSequence (backslash :: t) = some (bytes, n)) :
    n = 2 ∧ bytes.length = 1 ∨
      n ≤ (backslash :: t).length ∧ (n = 6 ∧ bytes.length ≤ 3 ∨ n = 12 ∧ bytes.length = 4) := by
  unfold escapeSequence at h
  dsimp only at h
  cases hshort : shortEscape (((backslash :: t).drop 1).headD quote) with
  | some e =>
    rw [hshort] at h
    cases h
    exact Or.inl ⟨rfl, rfl⟩
  | none =>
    rw [hshort] at h
    dsimp only at h
    split_ifs at h
    obtain ⟨-, hle, hsize⟩ := utf16_sound h
    exact Or.inr ⟨hle, hsize⟩

/-- What the second pass has done: the string is what it has written and what it will make of the rest;
    and the room is enough for one byte for each of the rest that was not skipped, and two more. -/
structure Progresses (text : List UInt8) (room : Nat) (d : Decoding) : Prop where
  decodes : ∀ s, Decodes text s ↔ ∃ s', s = d.output ++ s' ∧ Decodes d.input s'
  room : ∃ m, Marked d.input m ∧ d.output.length + d.input.length + 2 ≤ room + m.count true
  length : d.input.length ≤ text.length

section

variable {text : List UInt8} {room : Nat} {d : Decoding}

/-- Writing what the front of the input is decoded to. -/
theorem Progresses.write (h : Progresses text room d) {bytes : List UInt8} {n : Nat}
    {m : List Bool} (hm : Marked d.input m)
    (hroom : d.output.length + d.input.length + 2 ≤ room + m.count true)
    (hsize : bytes.length + (m.take n).count true + (d.input.drop n).length ≤ d.input.length)
    (hdecodes : ∀ s, Decodes d.input s ↔ ∃ s', s = bytes ++ s' ∧ Decodes (d.input.drop n) s') :
    (Decoding.write room bytes n).Meets
      (fun r d' => r = .inr () ∧ d'.input = d.input.drop n ∧ Progresses text room d')
      (fun _ => False) d := by
  have hcount := Marked.count_drop m n
  have hlength := (hm.drop n).count_take (m.drop n).length
  rw [List.take_length] at hlength
  have hlength' := (hm.drop n).length_eq
  have hfits : d.output.length + bytes.length ≤ room := by omega
  simp only [Attempt.Meets, Decoding.write, if_pos hfits]
  refine ⟨trivial, trivial, ?_, ⟨m.drop n, hm.drop n, ?_⟩, ?_⟩
  · intro s
    rw [h.decodes]
    constructor
    · rintro ⟨s', rfl, hs'⟩
      obtain ⟨s'', rfl, hs''⟩ := (hdecodes s').mp hs'
      exact ⟨s'', by simp, hs''⟩
    · rintro ⟨s'', rfl, hs''⟩
      exact ⟨bytes ++ s'', by simp, (hdecodes _).mpr ⟨s'', rfl, hs''⟩⟩
  · simp only [List.length_append]
    omega
  · have := h.length
    simp only [List.length_drop]
    omega

theorem decodeTurn_meets (h : Progresses text room d) : (decodeTurn room ()).Meets
    (fun r d' => match r with
      | .inl () => Decodes text d'.output ∧ d'.output.length + 1 ≤ room
      | .inr () => Progresses text room d' ∧ d'.input.length < d.input.length)
    (fun d' => d'.input.length ≤ text.length ∧ ∀ s, ¬ Decodes text s) d := by
  obtain ⟨m, hm, hroom⟩ := h.room
  cases hinput : d.input with
  | nil =>
    have hturn : decodeTurn room () d = .accept (.inl ()) d := by
      unfold decodeTurn
      rw [hinput]
    rw [hinput] at hm hroom
    cases hm
    rw [Attempt.meets_accept hturn]
    refine ⟨(h.decodes _).mpr ⟨[], by simp, ?_⟩, by simp at hroom; omega⟩
    rw [hinput]
    exact .nil
  | cons b t =>
    by_cases hb : b = backslash
    · subst hb
      cases hsequence : escapeSequence (backslash :: t) with
      | none =>
        have hturn : decodeTurn room () d = .reject d := by
          unfold decodeTurn
          simp only [hinput, ne_eq, not_true_eq_false, if_false, hsequence]
        rw [Attempt.meets_rejected hturn]
        refine ⟨h.length, fun s hs => ?_⟩
        obtain ⟨s', -, hs'⟩ := (h.decodes s).mp hs
        rw [hinput] at hs'
        obtain ⟨bytes, n, -, hn, -⟩ := decodes_escape_iff.mp hs'
        rw [hsequence] at hn
        cases hn
      | some r =>
        obtain ⟨bytes, n⟩ := r
        have hturn : decodeTurn room () d = Decoding.write room bytes n d := by
          unfold decodeTurn
          simp only [hinput, ne_eq, not_true_eq_false, if_false, hsequence]
        have hsize := escapeSequence_size hsequence
        rw [Attempt.meets_congr hturn]
        refine Attempt.meets_mono ?_ (fun _ => False.elim) (h.write hm hroom ?_ ?_)
        · rintro r d' ⟨rfl, hinput', h'⟩
          refine ⟨h', ?_⟩
          rw [hinput', hinput, List.length_drop, List.length_cons]
          omega
        · rw [hinput] at hm ⊢
          have htake := hm.count_take n
          rw [List.length_drop]
          rcases hsize with ⟨rfl, hbytes⟩ | ⟨hle, hsize⟩
          · -- a single backslash is in front of the closing quote, and was not skipped
            cases t with
            | nil =>
              have hsingle := hm.count_single
              have hsplit := Marked.count_drop m 2
              simp only [List.length_singleton]
              omega
            | cons c t =>
              simp only [List.length_cons]
              omega
          · omega
        · intro s
          rw [hinput, decodes_escape_iff]
          constructor
          · rintro ⟨bytes', n', s', hn', rfl, hs'⟩
            cases hsequence.symm.trans hn'
            exact ⟨s', rfl, hs'⟩
          · rintro ⟨s', rfl, hs'⟩
            exact ⟨bytes, n, s', hsequence, rfl, hs'⟩
    · have hturn : decodeTurn room () d = Decoding.write room [b] 1 d := by
        unfold decodeTurn
        simp only [hinput, ne_eq, hb, not_false_eq_true, if_true]
      rw [Attempt.meets_congr hturn]
      refine Attempt.meets_mono ?_ (fun _ => False.elim) (h.write hm hroom ?_ ?_)
      · rintro r d' ⟨rfl, hinput', h'⟩
        refine ⟨h', ?_⟩
        rw [hinput', hinput]
        simp
      · -- only backslashes are marked
        rw [hinput] at hm ⊢
        cases hm with
        | other hm =>
          simp only [List.take_succ_cons, List.take_zero, List.drop_succ_cons, List.drop_zero,
            List.length_cons, List.length_nil, List.count_cons_of_ne (show false ≠ true by decide),
            List.count_nil]
          omega
        | skipped hm => exact absurd rfl hb
      · intro s
        rw [hinput]
        exact decodes_plain_iff hb

/-- The second pass over a text of which the first has skipped `skipped` bytes: it never writes outside
    its allocation, and it decodes the text or finds that it cannot be decoded. -/
theorem decode_meets {skipped : ℕ} (h : Closed text skipped)
    (hroom : text.length + 2 ≤ room + skipped) :
    (∃ d, decode room text = .accept () d ∧ Decodes text d.output) ∨
      ∃ d, decode room text = .reject d ∧ d.input.length ≤ text.length ∧ ∀ s, ¬ Decodes text s := by
  obtain ⟨m, hm, hcount⟩ := h.marked
  have hstart : Progresses text room ⟨text, []⟩ := by
    refine ⟨fun s => ?_, ⟨m, hm, by simp only [List.length_nil]; omega⟩, le_refl _⟩
    simp
  have hmeets : (Attempt.turns (decodeTurn room) (text.length + 1) ()).Meets
      (fun _ d' => Decodes text d'.output ∧ d'.output.length + 1 ≤ room)
      (fun d' => d'.input.length ≤ text.length ∧ ∀ s, ¬ Decodes text s) ⟨text, []⟩ := by
    refine Attempt.meets_turns (fun n _ d => Progresses text room d ∧ d.input.length < n)
      (fun _ _ h => absurd h.2 (Nat.not_lt_zero _)) ?_ _ ⟨hstart, Nat.lt_succ_self _⟩
    rintro n ⟨⟩ d ⟨hd, hn⟩
    refine Attempt.meets_mono (fun r d' hr => ?_) (fun _ h => h) (decodeTurn_meets hd)
    cases r with
    | inl x => exact hr
    | inr x => exact ⟨hr.1, by have := hr.2; omega⟩
  unfold decode Attempt.Meets at *
  cases hturns : Attempt.turns (decodeTurn room) (text.length + 1) () ⟨text, []⟩ with
  | accept a d =>
    rw [hturns] at hmeets
    exact Or.inl ⟨d, if_pos hmeets.2, hmeets.1⟩
  | reject d =>
    rw [hturns] at hmeets
    exact Or.inr ⟨d, rfl, hmeets⟩
  | fault e =>
    rw [hturns] at hmeets
    exact hmeets.elim

end

end OlegPrinter
