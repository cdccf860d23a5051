/-
  Reading a text file with `fgets`. A file is the list of its unread bytes.

  * `line room file`: what one call takes, at most `room` bytes or through the next
    newline, and what it leaves.
  * `fgets n buf file`: the call itself. It stores the line and a NUL in the buffer;
    at end of file it returns NULL and leaves the buffer unchanged.
  * `pieces room file`: the lines successive calls deliver. They are non-empty, no
    longer than `room`, and put together they are the file (`pieces_flatten`).
-/
import OlegPrinter.Lib.Bytes

namespace CLib

/-- `'\n'`. -/
def newline : UInt8 := 10

/-- At most `room` bytes from the front of the file, or through the next newline; and
    the rest of the file. -/
def line : Nat → List UInt8 → List UInt8 × List UInt8
  | 0, file => ([], file)
  | _ + 1, [] => ([], [])
  | room + 1, b :: file =>
    if b = newline then ([b], file) else (b :: (line room file).1, (line room file).2)

theorem line_append (room : Nat) (file : List UInt8) :
    (line room file).1 ++ (line room file).2 = file := by
  induction room, file using line.induct with
  | case1 file => simp [line]
  | case2 room => simp [line]
  | case3 room file => simp [line]
  | case4 room b file h ih => simp [line, h, ih]

theorem line_length_le (room : Nat) (file : List UInt8) : (line room file).1.length ≤ room := by
  induction room, file using line.induct with
  | case1 file => simp [line]
  | case2 room => simp [line]
  | case3 room file => simp [line]
  | case4 room b file h ih => simp [line, h]; omega

theorem line_ne_nil {room : Nat} (hr : 0 < room) {file : List UInt8} (hf : file ≠ []) :
    (line room file).1 ≠ [] := by
  obtain ⟨k, rfl⟩ : ∃ k, room = k + 1 := ⟨room - 1, by omega⟩
  cases file with
  | nil => exact absurd rfl hf
  | cons b file =>
    simp only [line]
    split <;> simp

theorem line_rest_length_lt {room : Nat} (hr : 0 < room) {file : List UInt8} (hf : file ≠ []) :
    (line room file).2.length < file.length := by
  have h := congrArg List.length (line_append room file)
  have := List.length_pos_iff.mpr (line_ne_nil hr hf)
  rw [List.length_append] at h
  omega

/-- `fgets(buf, n, file)`: whether it read anything, the buffer, the rest of the file. -/
def fgets {m : Nat} (n : Nat) (buf : Obj m) (file : List UInt8) : Bool × Obj m × List UInt8 :=
  match file with
  | [] => (false, buf, [])
  | _ :: _ => (true, buf.store ((line (n - 1) file).1 ++ [0]), (line (n - 1) file).2)

/-- After a successful `fgets` the buffer holds the line as its string, as far as the line
    has no NUL of its own. -/
theorem cstr_fgets {m n : Nat} (h1 : 1 ≤ n) (hn : n ≤ m) (buf : Obj m) {file : List UInt8}
    (hf : file ≠ []) :
    cstr (fgets n buf file).2.1.bytes = cstr (line (n - 1) file).1 := by
  cases file with
  | nil => exact absurd rfl hf
  | cons b file =>
    have hl := line_length_le (n - 1) (b :: file)
    simp only [fgets]
    rw [Obj.store_bytes_of_le _ (by rw [List.length_append, List.length_singleton]; omega),
      List.append_assoc, List.singleton_append, cstr_append_zero]

theorem fgets_rest {m n : Nat} (buf : Obj m) {file : List UInt8} (hf : file ≠ []) :
    (fgets n buf file).2.2 = (line (n - 1) file).2 := by
  cases file with
  | nil => exact absurd rfl hf
  | cons b file => rfl

theorem fgets_nil {m n : Nat} (buf : Obj m) : fgets n buf [] = (false, buf, []) := rfl

/-- The lines that successive calls with room for `k + 1` bytes deliver. -/
def pieces (k : Nat) (file : List UInt8) : List (List UInt8) :=
  if hf : file = [] then [] else (line (k + 1) file).1 :: pieces k (line (k + 1) file).2
termination_by file.length
decreasing_by exact line_rest_length_lt (Nat.succ_pos k) hf

@[simp] theorem pieces_nil (k : Nat) : pieces k [] = [] := by
  rw [pieces]; simp

theorem pieces_cons (k : Nat) {file : List UInt8} (hf : file ≠ []) :
    pieces k file = (line (k + 1) file).1 :: pieces k (line (k + 1) file).2 := by
  rw [pieces, dif_neg hf]

theorem pieces_flatten (k : Nat) (file : List UInt8) : (pieces k file).flatten = file := by
  induction file using pieces.induct (k := k) with
  | case1 => simp
  | case2 file hf ih => rw [pieces_cons k hf, List.flatten_cons, ih, line_append]

theorem ne_nil_of_mem_pieces (k : Nat) (file : List UInt8) {p : List UInt8}
    (hp : p ∈ pieces k file) : p ≠ [] := by
  induction file using pieces.induct (k := k) with
  | case1 => simp at hp
  | case2 file hf ih =>
    rw [pieces_cons k hf, List.mem_cons] at hp
    rcases hp with rfl | hp
    · exact line_ne_nil (Nat.succ_pos k) hf
    · exact ih hp

theorem pieces_eq_nil_iff (k : Nat) (file : List UInt8) : pieces k file = [] ↔ file = [] := by
  constructor
  · intro h
    rw [← pieces_flatten k file, h, List.flatten_nil]
  · rintro rfl
    exact pieces_nil k

end CLib
