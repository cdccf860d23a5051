/-
  What the reading loop of `readingJSON` reads, and when it ends.

  * `readTurns_of_ends`: the loop stops at the first line without a byte `0xFF`, with
    the lines up to it, in as many turns as there are such lines.
  * `readTurns_of_not_ends`: if every line has a byte `0xFF` it never stops.
  * `readWhole_iff`: the string handed to `cJSON_Parse` is the file exactly when every
    line but the last has a byte `0xFF`.
  * `readEnds_iff`: the loop ends (then within one turn more than there are lines)
    exactly when the file is empty or some line has no byte `0xFF`.
-/
import OlegPrinter.Server.ReadingJSON

namespace OlegPrinter

open CLib

/-- A file with no NUL byte. -/
structure TextFile where
  bytes : List UInt8
  noNul : (0 : UInt8) ∉ bytes

/-! ## The whole loop -/

theorem linesOf_cons {file : List UInt8} (hf : file ≠ []) :
    linesOf file = (line 511 file).1 :: linesOf (line 511 file).2 :=
  pieces_cons 510 hf

/-- The loop is left at the first line that passes the exit test. -/
theorem readTurns_of_ends (file : List UInt8) (s : ReadState) (hs : s.file = file)
    (h : ∃ l ∈ linesOf file, Ends l) :
    ∃ pre l post, linesOf file = pre ++ l :: post ∧ (∀ p ∈ pre, ¬ Ends p) ∧ Ends l ∧
      readTurns (pre.length + 1) s = some (s.jsonStr ++ ((pre ++ [l]).map cstr).flatten) := by
  induction file using pieces.induct (k := 510) generalizing s with
  | case1 => simp [linesOf] at h
  | case2 file hf ih =>
    have hsf : s.file ≠ [] := hs ▸ hf
    obtain ⟨buf, _, hstep⟩ := readStep_line s hsf
    rw [hs] at hstep
    rw [linesOf_cons hf] at h ⊢
    by_cases he : Ends (line 511 file).1
    · refine ⟨[], _, _, rfl, by simp, he, ?_⟩
      rw [if_pos he] at hstep
      rw [readTurns, List.length_nil, loop_succ_left hstep]
      simp
    · have hrest : ∃ l ∈ linesOf (line 511 file).2, Ends l := by
        obtain ⟨l, hl, hle⟩ := h
        rcases List.mem_cons.mp hl with rfl | hl
        · exact absurd hle he
        · exact ⟨l, hl, hle⟩
      rw [if_neg he] at hstep
      obtain ⟨pre, l, post, hls, hpre, hl, hrun⟩ := ih ⟨_, buf, _⟩ rfl hrest
      refine ⟨(line 511 file).1 :: pre, l, post, by rw [hls]; rfl, ?_, hl, ?_⟩
      · intro p hp
        rcases List.mem_cons.mp hp with rfl | hp
        · exact he
        · exact hpre p hp
      · rw [readTurns, List.length_cons, loop_succ_right hstep]
        rw [readTurns] at hrun
        rw [hrun]
        simp [List.append_assoc]

/-- If no line passes the exit test the loop reaches end of file and stays there. -/
theorem readTurns_of_not_ends (n : Nat) (s : ReadState) (hlines : ∀ l ∈ linesOf s.file, ¬ Ends l)
    (hbuf : s.file = [] → ¬ Ends s.buf.bytes) : readTurns n s = none := by
  refine loop_eq_none_of_invariant
    (fun t => (∀ l ∈ linesOf t.file, ¬ Ends l) ∧ (t.file = [] → ¬ Ends t.buf.bytes)) ?_ n
    ⟨hlines, hbuf⟩
  rintro t ⟨htl, htb⟩
  by_cases hf : t.file = []
  · refine ⟨{ t with jsonStr := t.jsonStr ++ cstr t.buf.bytes }, ?_, htl, htb⟩
    rw [readStep_eof t hf, if_neg (htb hf)]
  · obtain ⟨buf, hb, hstep⟩ := readStep_line t hf
    rw [linesOf_cons hf] at htl
    have he : ¬ Ends (line 511 t.file).1 := htl _ List.mem_cons_self
    rw [if_neg he] at hstep
    refine ⟨_, hstep, fun l hl => htl l (List.mem_cons_of_mem _ hl), fun _ => ?_⟩
    -- at end of file the buffer keeps the line just read
    rw [ends_congr hb]
    exact he

/-! ## Is the whole file read? -/

theorem cstr_of_mem_linesOf (file : TextFile) {l : List UInt8} (hl : l ∈ linesOf file.bytes) :
    cstr l = l := by
  apply cstr_eq_self
  intro h0
  apply file.noNul
  rw [← pieces_flatten 510 file.bytes]
  exact List.mem_flatten.mpr ⟨l, hl, h0⟩

theorem map_cstr_of_subset (file : TextFile) {ls : List (List UInt8)}
    (h : ∀ l ∈ ls, l ∈ linesOf file.bytes) : ls.map cstr = ls := by
  rw [List.map_congr_left fun l hl => cstr_of_mem_linesOf file (h l hl), List.map_id']

/-- Whenever the loop is left, the collected string is the file. -/
def ReadWhole (file : List UInt8) (buf : Obj 512) : Prop :=
  ∀ n out, readTurns n (readStart file buf) = some out → out = file

/-- The empty file, when the buffer passes the exit test: one turn appends what it held. -/
theorem readTurns_nil_ends {buf : Obj 512} (he : Ends buf.bytes) :
    readTurns 1 (readStart [] buf) = some (cstr buf.bytes) := by
  have hstep := readStep_eof (readStart [] buf) rfl
  rw [if_pos (by exact he)] at hstep
  rw [readTurns, loop_succ_left hstep]
  rfl

/-- The empty file: the one turn reads nothing and appends what the buffer held before. -/
theorem readWhole_nil_iff (buf : Obj 512) :
    ReadWhole [] buf ↔ (cstr buf.bytes = [] ∨ ¬ Ends buf.bytes) := by
  by_cases he : Ends buf.bytes
  · have hrun := readTurns_nil_ends he
    constructor
    · intro h
      exact Or.inl (h 1 _ hrun)
    · rintro (h | h) n out hn
      · rw [loop_unique hn hrun, h]
      · exact absurd he h
  · constructor
    · intro _
      exact Or.inr he
    · intro _ n out hn
      rw [readTurns_eof_none n (readStart [] buf) rfl he] at hn
      cases hn

/-- Stopping at `l` is stopping at the end exactly when only the last line passes the test. -/
theorem dropLast_not_ends_iff {pre post : List (List UInt8)} {l : List UInt8}
    (hpre : ∀ p ∈ pre, ¬ Ends p) (hl : Ends l) :
    (∀ x ∈ (pre ++ l :: post).dropLast, ¬ Ends x) ↔ post = [] := by
  constructor
  · intro h
    cases post with
    | nil => rfl
    | cons p post =>
      rw [List.dropLast_append_of_ne_nil (List.cons_ne_nil _ _)] at h
      exact absurd hl (h l (by simp))
  · rintro rfl
    rw [List.dropLast_concat]
    exact hpre

/-- The lines up to `l` are the whole file exactly when none follows. -/
theorem flatten_eq_file_iff {file : List UInt8} {pre post : List (List UInt8)} {l : List UInt8}
    (hls : linesOf file = pre ++ l :: post) : (pre ++ [l]).flatten = file ↔ post = [] := by
  have hflat : (pre ++ [l]).flatten ++ post.flatten = file := by
    rw [← pieces_flatten 510 file, ← List.flatten_append, List.append_assoc]
    exact congrArg List.flatten hls.symm
  constructor
  · intro he
    have hz : post.flatten = [] := by
      rw [he] at hflat
      simpa using hflat
    cases post with
    | nil => rfl
    | cons p post =>
      have hp : p ≠ [] := ne_nil_of_mem_pieces 510 file (p := p) (by
        show p ∈ linesOf file
        rw [hls]; simp)
      rw [List.flatten_cons] at hz
      exact absurd (List.append_eq_nil_iff.mp hz).1 hp
  · rintro rfl
    simpa using hflat

/-- The string collected when some line passes the exit test. -/
theorem readTurns_textFile (file : TextFile) (buf : Obj 512)
    (h : ∃ l ∈ linesOf file.bytes, Ends l) :
    ∃ pre l post, linesOf file.bytes = pre ++ l :: post ∧ (∀ p ∈ pre, ¬ Ends p) ∧ Ends l ∧
      readTurns (pre.length + 1) (readStart file.bytes buf) = some (pre ++ [l]).flatten := by
  obtain ⟨pre, l, post, hls, hpre, hl, hrun⟩ :=
    readTurns_of_ends file.bytes (readStart file.bytes buf) rfl h
  refine ⟨pre, l, post, hls, hpre, hl, ?_⟩
  rw [hrun, map_cstr_of_subset file (fun x hx => by rw [hls]; simp at hx ⊢; tauto)]
  rfl

theorem readTurns_nil_iff (buf : Obj 512) :
    (∃ n, readTurns n (readStart [] buf) = some []) ↔ cstr buf.bytes = [] := by
  by_cases he : Ends buf.bytes
  · have hrun := readTurns_nil_ends he
    constructor
    · rintro ⟨n, hn⟩
      exact (loop_unique hn hrun).symm
    · intro h
      exact ⟨1, by rw [hrun, h]⟩
  · constructor
    · rintro ⟨n, hn⟩
      rw [readTurns_eof_none n (readStart [] buf) rfl he] at hn
      cases hn
    · intro h
      exact absurd (by unfold Ends; rw [h]; simp) he

/-- A non-empty file: the loop must not stop before the last line. -/
theorem readWhole_cons_iff (file : TextFile) (hf : file.bytes ≠ []) (buf : Obj 512) :
    ReadWhole file.bytes buf ↔ ∀ l ∈ (linesOf file.bytes).dropLast, ¬ Ends l := by
  by_cases h : ∃ l ∈ linesOf file.bytes, Ends l
  · obtain ⟨pre, l, post, hls, hpre, hl, hrun⟩ := readTurns_textFile file buf h
    rw [hls, dropLast_not_ends_iff hpre hl, ← flatten_eq_file_iff hls]
    constructor
    · intro hw
      exact hw _ _ hrun
    · intro he n out hn
      rw [loop_unique hn hrun, he]
  · have hall : ∀ l ∈ linesOf file.bytes, ¬ Ends l := fun l hl he => h ⟨l, hl, he⟩
    constructor
    · intro _ l hl
      exact hall l (List.dropLast_subset _ hl)
    · intro _ n out hn
      rw [readTurns_of_not_ends n (readStart file.bytes buf) hall (fun h => absurd h hf)] at hn
      cases hn

theorem readTurns_cons_iff (file : TextFile) (hf : file.bytes ≠ []) (buf : Obj 512) :
    (∃ n, readTurns n (readStart file.bytes buf) = some file.bytes) ↔
      (∀ l ∈ (linesOf file.bytes).dropLast, ¬ Ends l) ∧
        ∀ l ∈ (linesOf file.bytes).getLast?, Ends l := by
  by_cases h : ∃ l ∈ linesOf file.bytes, Ends l
  · obtain ⟨pre, l, post, hls, hpre, hl, hrun⟩ := readTurns_textFile file buf h
    rw [hls, dropLast_not_ends_iff hpre hl, ← flatten_eq_file_iff hls]
    constructor
    · rintro ⟨n, hn⟩
      have hfile := loop_unique hrun hn
      refine ⟨hfile, ?_⟩
      rw [(flatten_eq_file_iff hls).mp hfile]
      simpa using hl
    · rintro ⟨hfile, _⟩
      exact ⟨_, by rw [hrun, hfile]⟩
  · have hall : ∀ l ∈ linesOf file.bytes, ¬ Ends l := fun l hl he => h ⟨l, hl, he⟩
    constructor
    · rintro ⟨n, hn⟩
      rw [readTurns_of_not_ends n (readStart file.bytes buf) hall (fun h => absurd h hf)] at hn
      cases hn
    · rintro ⟨_, hlast⟩
      have hne : linesOf file.bytes ≠ [] := fun h => hf ((pieces_eq_nil_iff 510 _).mp h)
      have := hlast _ (List.getLast?_eq_some_getLast hne)
      exact absurd this (hall _ (List.getLast_mem hne))

/-- The string handed to `cJSON_Parse`, whenever there is one, is the file exactly when every
    line but the last has a byte `0xFF` (and, for the empty file, when the buffer held
    the empty string or a byte `0xFF`). The loop also gets there exactly when moreover
    the last line has none. -/
theorem readWhole_iff (file : TextFile) (buf : Obj 512) :
    (ReadWhole file.bytes buf ↔
      (∀ l ∈ (linesOf file.bytes).dropLast, ¬ Ends l) ∧
        (file.bytes = [] → cstr buf.bytes = [] ∨ ¬ Ends buf.bytes)) ∧
    ((∃ n, readTurns n (readStart file.bytes buf) = some file.bytes) ↔
      (∀ l ∈ (linesOf file.bytes).dropLast, ¬ Ends l) ∧
        (∀ l ∈ (linesOf file.bytes).getLast?, Ends l) ∧
        (file.bytes = [] → cstr buf.bytes = [])) := by
  by_cases hf : file.bytes = []
  · rw [hf]
    refine ⟨?_, ?_⟩
    · rw [readWhole_nil_iff]
      simp [linesOf]
    · rw [readTurns_nil_iff]
      simp [linesOf]
  · refine ⟨?_, ?_⟩
    · rw [readWhole_cons_iff file hf buf]
      simp [hf]
    · rw [readTurns_cons_iff file hf buf]
      simp [hf]

/-- `[` and `]` on two lines: the second line is lost. -/
theorem readWhole_two_lines_false :
    ¬ ∀ (file : TextFile) (buf : Obj 512), ReadWhole file.bytes buf := by
  intro h
  have hrun : readTurns 1 (readStart (ascii "[\n]\n") (Obj.zero 512)) = some (ascii "[\n") := by
    decide
  exact absurd (h ⟨ascii "[\n]\n", by decide⟩ (Obj.zero 512) 1 _ hrun) (by decide)

/-! ## Does the reading end? -/

/-- The loop is left after at most one turn more than `fgets` delivers lines, from a buffer
    of zero bytes. -/
def ReadEnds (file : List UInt8) : Prop :=
  ∃ n ≤ (linesOf file).length + 1, (readTurns n (readStart file (Obj.zero 512))).isSome

/-- The reading ends exactly when the file is empty or some line (up to its first NUL) has no
    byte `0xFF`; otherwise no number of turns is enough. -/
theorem readEnds_iff (file : List UInt8) :
    (ReadEnds file ↔ file = [] ∨ ∃ l ∈ linesOf file, Ends l) ∧
    (¬ ReadEnds file → ∀ n, readTurns n (readStart file (Obj.zero 512)) = none) := by
  have hnone : ¬ (file = [] ∨ ∃ l ∈ linesOf file, Ends l) →
      ∀ n, readTurns n (readStart file (Obj.zero 512)) = none := by
    intro h n
    refine readTurns_of_not_ends n _ (fun l hl he => h (Or.inr ⟨l, hl, he⟩)) (fun hf => ?_)
    exact absurd (Or.inl hf) h
  have hends : file = [] ∨ (∃ l ∈ linesOf file, Ends l) → ReadEnds file := by
    rintro (rfl | h)
    · exact ⟨1, by omega, by decide⟩
    · obtain ⟨pre, l, post, hls, _, _, hrun⟩ :=
        readTurns_of_ends file (readStart file (Obj.zero 512)) rfl h
      refine ⟨pre.length + 1, ?_, by rw [hrun]; rfl⟩
      rw [hls, List.length_append, List.length_cons]
      omega
  have hiff : ReadEnds file ↔ file = [] ∨ ∃ l ∈ linesOf file, Ends l := by
    refine ⟨fun ⟨n, _, hn⟩ => ?_, hends⟩
    by_contra h
    rw [hnone h n] at hn
    cases hn
  exact ⟨hiff, fun h => hnone (fun h' => h (hiff.mpr h'))⟩

/-- A file of the single byte `0xFF` is read for ever. -/
theorem readEnds_ff_false : ¬ ∀ file : List UInt8, ReadEnds file := by
  intro h
  obtain ⟨n, _, hn⟩ := h [0xFF]
  have hlines : linesOf [0xFF] = [[0xFF]] := by
    simp [linesOf, pieces_cons, line, newline]
  rw [readTurns_of_not_ends n (readStart [0xFF] (Obj.zero 512)) (by
    intro l hl
    rw [show (readStart [0xFF] (Obj.zero 512)).file = [0xFF] from rfl, hlines,
      List.mem_singleton] at hl
    subst hl
    decide) (by simp [readStart])] at hn
  cases hn

end OlegPrinter
