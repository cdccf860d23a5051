/-
  `readingJSON`: the loop that collects the configuration file.

  `buf` and `JSON_str` are uninitialised pointers in the source; here `buf` points to
  512 bytes, the same ones in every turn, and `JSON_str` to a string with room for what
  is appended. `EOF` is `-1`, which `strrchr` converts to the byte `0xFF`.

  * `readStep`: one turn. `readTurns n s`: the string handed to `cJSON_Parse` if the loop
    is left within `n` turns.
  * `readStep_line`, `readStep_eof`: what one turn does before and at end of file. The
    exit test looks at the line just read, not at the result of `fgets`.
-/
import OlegPrinter.Lib.Loop
import OlegPrinter.Lib.Stdio

namespace OlegPrinter

open CLib

/-- `(char) EOF`. -/
def eofChar : UInt8 := UInt8.ofInt (-1)

/-- The variables of the loop: the unread file, `buf`, and the string at `JSON_str`. -/
structure ReadState where
  file : List UInt8
  buf : Obj 512
  jsonStr : List UInt8

/-- One turn of the `do … while (1)` loop. -/
def readStep (s : ReadState) : List UInt8 ⊕ ReadState :=
  let (_, buf, file) := fgets 512 s.buf s.file
  let jsonStr := s.jsonStr ++ cstr buf.bytes
  if strrchr buf.bytes eofChar = none then .inl jsonStr
  else .inr ⟨file, buf, jsonStr⟩

/-- The string the loop has collected, if it is left within `n` turns. -/
def readTurns (n : Nat) (s : ReadState) : Option (List UInt8) := loop readStep n s

/-- The state in which the loop is entered: `JSON_str` is empty. -/
def readStart (file : List UInt8) (buf : Obj 512) : ReadState := ⟨file, buf, []⟩

/-- `readingJSON`: NULL when `fopen` fails, otherwise what `cJSON_Parse` makes of the
    collected string; `none` while the loop has not been left after `n` turns. -/
def readingJSON {β : Type} (cJSONParse : List UInt8 → Option β) (n : Nat) (buf : Obj 512) :
    Option (List UInt8) → Option (Option β)
  | none => some none
  | some file => (readTurns n (readStart file buf)).map cJSONParse

/-- The lines `fgets` delivers from a file, 511 bytes at most. -/
def linesOf (file : List UInt8) : List (List UInt8) := pieces 510 file

/-- The exit test passes on a line (as a string) without a byte `0xFF`. -/
def Ends (mem : List UInt8) : Prop := eofChar ∉ cstr mem

instance (mem : List UInt8) : Decidable (Ends mem) := inferInstanceAs (Decidable (_ ∉ _))

theorem ends_iff (mem : List UInt8) : strrchr mem eofChar = none ↔ Ends mem :=
  strrchr_eq_none_iff (by decide) mem

theorem ends_congr {mem mem' : List UInt8} (h : cstr mem = cstr mem') : Ends mem ↔ Ends mem' := by
  unfold Ends; rw [h]

/-! ## One turn -/

/-- Before end of file: the next line is appended, and it decides whether the loop ends. -/
theorem readStep_line (s : ReadState) (hf : s.file ≠ []) :
    ∃ buf : Obj 512, cstr buf.bytes = cstr (line 511 s.file).1 ∧
      readStep s =
        if Ends (line 511 s.file).1 then .inl (s.jsonStr ++ cstr (line 511 s.file).1)
        else .inr ⟨(line 511 s.file).2, buf, s.jsonStr ++ cstr (line 511 s.file).1⟩ := by
  have hb := cstr_fgets (n := 512) (by decide) (le_refl 512) s.buf hf
  refine ⟨(fgets 512 s.buf s.file).2.1, hb, ?_⟩
  unfold readStep
  simp only [ends_iff, ends_congr hb, hb, fgets_rest s.buf hf]

/-- At end of file: the buffer still holds the last line, which is appended again and
    decides again. -/
theorem readStep_eof (s : ReadState) (hf : s.file = []) :
    readStep s =
      if Ends s.buf.bytes then .inl (s.jsonStr ++ cstr s.buf.bytes)
      else .inr { s with jsonStr := s.jsonStr ++ cstr s.buf.bytes } := by
  unfold readStep
  rw [hf, fgets_nil]
  simp only [ends_iff]

/-- At end of file with a byte `0xFF` in the buffer the loop is never left. -/
theorem readTurns_eof_none (n : Nat) (s : ReadState) (hf : s.file = [])
    (hb : ¬ Ends s.buf.bytes) : readTurns n s = none := by
  refine loop_eq_none_of_invariant (fun t => t.file = [] ∧ ¬ Ends t.buf.bytes) ?_ n ⟨hf, hb⟩
  rintro t ⟨htf, htb⟩
  refine ⟨{ t with jsonStr := t.jsonStr ++ cstr t.buf.bytes }, ?_, htf, htb⟩
  rw [readStep_eof t htf, if_neg htb]

end OlegPrinter
