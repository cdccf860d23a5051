/-
  C objects and C strings as bytes.

  * `Obj n`: the `n` bytes of an object. `Obj.store` is what a call that fills the
    object from its start leaves in it: the bytes beyond the end of the object are
    not part of the result (they land outside, see `List.drop n`), and the bytes
    that were not written keep their old values.
  * `Obj.toInt`, `Obj.ofInt`: a 32-bit `int`, little-endian, two's complement.
    `toInt_eq_iff` turns a comparison of values into one of bytes.
  * `cstr`: the string a `char *` denotes (the memory up to the first NUL), and the
    string functions over it: `strcmp`, `strrchr`, `atoi`.
  * `sizeT`: conversion of an `int` to a 64-bit `size_t`.
-/
import Mathlib.Data.Nat.Digits.Defs
import Mathlib.Data.List.TakeWhile

namespace CLib

/-! ## Objects -/

/-- The bytes of an object of `n` bytes. -/
structure Obj (n : Nat) where
  bytes : List UInt8
  size_eq : bytes.length = n
  deriving DecidableEq

namespace Obj

variable {n : Nat}

theorem ext {o o' : Obj n} (h : o.bytes = o'.bytes) : o = o' := by
  cases o; cases o'; cases h; rfl

theorem ext_iff {o o' : Obj n} : o = o' ↔ o.bytes = o'.bytes :=
  ⟨fun h => h ▸ rfl, ext⟩

/-- An object of zero bytes (`calloc`, or an explicit `= 0`). -/
def zero (n : Nat) : Obj n := ⟨List.replicate n 0, List.length_replicate⟩

/-- Write `bs` from the start of the object; what does not fit is not stored. -/
def store (o : Obj n) (bs : List UInt8) : Obj n :=
  ⟨(bs ++ o.bytes.drop bs.length).take n, by
    have := o.size_eq
    simp only [List.length_take, List.length_append, List.length_drop]
    omega⟩

@[simp] theorem store_nil (o : Obj n) : o.store [] = o := by
  apply ext
  simp [store, ← o.size_eq]

/-- A write that fits replaces a prefix. -/
theorem store_bytes_of_le (o : Obj n) {bs : List UInt8} (h : bs.length ≤ n) :
    (o.store bs).bytes = bs ++ o.bytes.drop bs.length := by
  have := o.size_eq
  simp only [store]
  apply List.take_of_length_le
  simp only [List.length_append, List.length_drop]
  omega

/-- A write that covers the object leaves its own first `n` bytes. -/
theorem store_bytes_of_ge (o : Obj n) {bs : List UInt8} (h : n ≤ bs.length) :
    (o.store bs).bytes = bs.take n := by
  simp only [store, List.take_append_of_le_length h]

end Obj

/-! ## 32-bit integers -/

/-- The `int` (32 bits, two's complement) congruent to `i`. -/
def wrapInt (i : Int) : Int :=
  if i % 4294967296 < 2147483648 then i % 4294967296 else i % 4294967296 - 4294967296

namespace Obj

/-- The value of a little-endian byte list. -/
def leNat (bs : List UInt8) : Nat := Nat.ofDigits 256 (bs.map UInt8.toNat)

theorem leNat_lt (bs : List UInt8) : leNat bs < 256 ^ bs.length := by
  have h : ∀ x ∈ bs.map UInt8.toNat, x < 256 := by
    intro x hx
    obtain ⟨b, _, rfl⟩ := List.mem_map.mp hx
    exact b.toNat_lt
  simpa [leNat] using Nat.ofDigits_lt_base_pow_length (by decide : 1 < 256) h

theorem leNat_inj {bs bs' : List UInt8} (hl : bs.length = bs'.length)
    (h : leNat bs = leNat bs') : bs = bs' := by
  have hd : ∀ cs : List UInt8, ∀ x ∈ cs.map UInt8.toNat, x < 256 := by
    intro cs x hx
    obtain ⟨b, _, rfl⟩ := List.mem_map.mp hx
    exact b.toNat_lt
  have := Nat.ofDigits_inj_of_len_eq (by decide : 1 < 256) (by simpa using hl) (hd bs) (hd bs') h
  exact (List.map_inj_right fun _ _ h => UInt8.toNat_inj.mp h).mp this

/-- The value of an `int` object. -/
def toInt (o : Obj 4) : Int := wrapInt (leNat o.bytes)

/-- The `int` object that holds `i` (modulo `2^32`). -/
def ofInt (i : Int) : Obj 4 :=
  let n := (i % 2 ^ 32).toNat
  ⟨[UInt8.ofNat n, UInt8.ofNat (n / 256), UInt8.ofNat (n / 65536), UInt8.ofNat (n / 16777216)], rfl⟩

theorem leNat_ofInt (i : Int) : (leNat (ofInt i).bytes : Int) = i % 2 ^ 32 := by
  have h0 : 0 ≤ i % 2 ^ 32 := Int.emod_nonneg _ (by decide)
  have h1 : i % 2 ^ 32 < 2 ^ 32 := Int.emod_lt_of_pos _ (by decide)
  simp only [ofInt, leNat, List.map_cons, List.map_nil, Nat.ofDigits_cons, Nat.ofDigits_nil,
    UInt8.toNat_ofNat']
  omega

theorem toInt_inj {o o' : Obj 4} (h : o.toInt = o'.toInt) : o = o' := by
  have hb := leNat_lt o.bytes
  have hb' := leNat_lt o'.bytes
  rw [o.size_eq] at hb
  rw [o'.size_eq] at hb'
  have hn : leNat o.bytes = leNat o'.bytes := by
    unfold toInt wrapInt at h
    omega
  exact ext (leNat_inj (o.size_eq.trans o'.size_eq.symm) hn)

/-- The values an `int` can hold. -/
def InIntRange (i : Int) : Prop := -2 ^ 31 ≤ i ∧ i < 2 ^ 31

instance (i : Int) : Decidable (InIntRange i) := inferInstanceAs (Decidable (_ ∧ _))

theorem toInt_ofInt {i : Int} (h : InIntRange i) : (ofInt i).toInt = i := by
  unfold InIntRange at h
  rw [toInt, leNat_ofInt, wrapInt]
  omega

theorem toInt_inRange (o : Obj 4) : InIntRange o.toInt := by
  unfold InIntRange toInt wrapInt
  omega

/-- An `int` object has the value `i` exactly when its bytes are those of `i`. -/
theorem toInt_eq_iff {o : Obj 4} {i : Int} (h : InIntRange i) :
    o.toInt = i ↔ o.bytes = (ofInt i).bytes := by
  constructor
  · intro ho
    rw [toInt_inj (ho.trans (toInt_ofInt h).symm)]
  · intro ho
    rw [ext ho, toInt_ofInt h]

end Obj

/-- Conversion of an `int` to a 64-bit `size_t`: a negative value becomes a huge one. -/
def sizeT (i : Int) : Nat := (i % 2 ^ 64).toNat

theorem sizeT_of_nonneg {i : Int} (h0 : 0 ≤ i) (h : Obj.InIntRange i) : sizeT i = i.toNat := by
  unfold Obj.InIntRange at h
  unfold sizeT
  rw [Int.emod_eq_of_lt h0 (by omega)]

theorem sizeT_eq_zero_iff {i : Int} (h : Obj.InIntRange i) : sizeT i = 0 ↔ i = 0 := by
  unfold Obj.InIntRange at h
  unfold sizeT
  omega

/-! ## Strings -/

/-- The bytes of an ASCII literal. -/
def ascii (s : String) : List UInt8 := s.toList.map fun c => UInt8.ofNat c.toNat

/-- `%d`. -/
def decimal (i : Int) : List UInt8 := ascii (toString i)

/-- The string at the start of `mem`: the bytes before the first NUL. -/
def cstr (mem : List UInt8) : List UInt8 := mem.takeWhile (· ≠ 0)

@[simp] theorem cstr_nil : cstr [] = [] := rfl

theorem cstr_cons (b : UInt8) (mem : List UInt8) :
    cstr (b :: mem) = if b = 0 then [] else b :: cstr mem := by
  unfold cstr
  by_cases h : b = 0 <;> simp [h]

theorem cstr_eq_self {s : List UInt8} (h : (0 : UInt8) ∉ s) : cstr s = s := by
  unfold cstr
  rw [List.takeWhile_eq_self_iff]
  intro b hb
  simp only [ne_eq, decide_not, Bool.not_eq_eq_eq_not, Bool.not_true, decide_eq_false_iff_not]
  intro h0
  exact h (h0 ▸ hb)

/-- A terminator ends the string, whatever follows. -/
theorem cstr_append_zero (s rest : List UInt8) : cstr (s ++ 0 :: rest) = cstr s := by
  induction s with
  | nil => simp [cstr_cons]
  | cons b s ih => simp only [List.cons_append, cstr_cons, ih]

/-- A string in the sense of C: bytes with no NUL among them. -/
structure CStr where
  bytes : List UInt8
  noNul : (0 : UInt8) ∉ bytes
  deriving DecidableEq

theorem CStr.ext {s t : CStr} (h : s.bytes = t.bytes) : s = t := by
  cases s; cases t; cases h; rfl

/-- An ASCII literal as a string. -/
def CStr.lit (s : String) (h : (0 : UInt8) ∉ ascii s := by decide) : CStr := ⟨ascii s, h⟩

/-- `strcmp`: the difference of the first bytes that differ. The end of the list
    counts as a terminator. -/
def strcmp : List UInt8 → List UInt8 → Int
  | [], [] => 0
  | [], b :: _ => -(b.toNat : Int)
  | a :: _, [] => a.toNat
  | a :: as, b :: bs =>
    if a = b then (if a = 0 then 0 else strcmp as bs) else (a.toNat : Int) - b.toNat

theorem toNat_eq_zero_iff (b : UInt8) : b.toNat = 0 ↔ b = 0 :=
  ⟨fun h => UInt8.toNat_inj.mp h, fun h => h ▸ rfl⟩

theorem strcmp_eq_zero_iff (s t : List UInt8) : strcmp s t = 0 ↔ cstr s = cstr t := by
  induction s, t using strcmp.induct with
  | case1 => simp [strcmp]
  | case2 b bs =>
    have hb := toNat_eq_zero_iff b
    by_cases h : b = 0 <;> simp [strcmp, cstr_cons, h, hb]
  | case3 a as =>
    have ha := toNat_eq_zero_iff a
    by_cases h : a = 0 <;> simp [strcmp, cstr_cons, h, ha]
  | case4 as bs => simp [strcmp, cstr_cons]
  | case5 as b bs h ih => simp [strcmp, cstr_cons, h, ih]
  | case6 a as b bs h =>
    have hne : (a.toNat : Int) - b.toNat ≠ 0 := by
      intro h0
      exact h (UInt8.toNat_inj.mp (by omega))
    simp only [strcmp, if_neg h, hne, cstr_cons, false_iff]
    split_ifs with ha hb hb
    · exact absurd (ha.trans hb.symm) h
    · simp
    · simp
    · intro he
      exact h (List.cons.inj he).1

/-- `strrchr`: the index of the last occurrence of `c` in the string, terminator included. -/
def strrchr : List UInt8 → UInt8 → Option Nat
  | [], _ => none
  | b :: bs, c =>
    if b = 0 then (if c = 0 then some 0 else none)
    else match strrchr bs c with
      | some i => some (i + 1)
      | none => if b = c then some 0 else none

theorem strrchr_eq_none_iff {c : UInt8} (hc : c ≠ 0) (mem : List UInt8) :
    strrchr mem c = none ↔ c ∉ cstr mem := by
  induction mem with
  | nil => simp [strrchr]
  | cons b bs ih =>
    by_cases hb : b = 0
    · simp [strrchr, cstr_cons, hb, hc]
    · simp only [strrchr, if_neg hb, cstr_cons, List.mem_cons, not_or, ← ih]
      cases hs : strrchr bs c with
      | some i => simp
      | none => simp [eq_comm]

def isSpace (b : UInt8) : Bool := b = 0x20 ∨ (0x09 ≤ b ∧ b ≤ 0x0d)

def isDigit (b : UInt8) : Bool := 0x30 ≤ b ∧ b ≤ 0x39

/-- The value of the leading decimal digits. -/
def digitsValue (s : List UInt8) : Int :=
  (s.takeWhile isDigit).foldl (fun v d => 10 * v + (d.toNat - 0x30)) 0

/-- `strtol` to base 10: white space, an optional sign, digits; the result is clamped
    to the range of a 64-bit `long`. -/
def strtol (s : List UInt8) : Int :=
  let clamp (v : Int) : Int := max (-2 ^ 63) (min v (2 ^ 63 - 1))
  match s.dropWhile isSpace with
  | [] => 0
  | b :: t =>
    if b = 0x2d then clamp (-digitsValue t)
    else if b = 0x2b then clamp (digitsValue t)
    else clamp (digitsValue (b :: t))

/-- `atoi` is `strtol` converted to `int`. -/
def atoi (s : List UInt8) : Int := wrapInt (strtol s)

example : atoi (ascii "  -17 pages") = -17 := by decide

end CLib
