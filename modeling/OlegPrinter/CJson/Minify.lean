/-
  `cJSON_Minify`: a text without its blanks and comments, written over itself.

  * `MinifyBuffer`: the memory of the text and two pointers into it, `json` to what is read and `into` to
    where it is written. Reading and writing outside the memory is a fault.
  * Every loop is `turns`, with a bound `n`. What the source reads again after it has written is read again.
-/
import OlegPrinter.CJson.Utf16
import OlegPrinter.CJson.Print
import OlegPrinter.Lib.Attempt
import OlegPrinter.Lib.Stdio

namespace OlegPrinter

open CLib Attempt

structure MinifyBuffer where
  mem : List UInt8
  json : Nat
  into : Nat
  deriving DecidableEq

def slash : UInt8 := 0x2f

def star : UInt8 := 0x2a

namespace MinifyBuffer

/-- `(*input)[i]`. -/
def input (i : Nat) : Attempt MinifyBuffer UInt8 := fun b =>
  match b.mem[b.json + i]? with
  | some c => .accept c b
  | none => .fault .outOfBounds

/-- `(*input)[1]`, the right side of an `&&`: read only if the left side holds. -/
def inputIf (c : Prop) [Decidable c] : Attempt MinifyBuffer UInt8 := if c then input 1 else pure 0

/-- `(*output)[i] = c`. -/
def output (i : Nat) (c : UInt8) : Attempt MinifyBuffer Unit := fun b =>
  if b.into + i < b.mem.length then .accept () { b with mem := b.mem.set (b.into + i) c }
  else .fault .outOfBounds

/-- `*input += n`. -/
def skip (n : Nat) : Attempt MinifyBuffer Unit := modify fun b => { b with json := b.json + n }

/-- `*output += n`. -/
def produce (n : Nat) : Attempt MinifyBuffer Unit := modify fun b => { b with into := b.into + n }

/-! ## Comments -/

def onelineTurn (_ : Unit) : Attempt MinifyBuffer (Unit ⊕ Unit) := do
  let c ← input 0
  if c = 0 then pure (.inl ())
  else if c = newline then do
    skip 1
    pure (.inl ())
  else do
    skip 1
    pure (.inr ())

/-- `skip_oneline_comment`. -/
def skipOnelineComment (n : ℕ) : Attempt MinifyBuffer Unit := do
  skip 2
  turns onelineTurn n ()

def multilineTurn (_ : Unit) : Attempt MinifyBuffer (Unit ⊕ Unit) := do
  let c ← input 0
  if c = 0 then pure (.inl ())
  else do
    let next ← inputIf (c = star)
    if c = star ∧ next = slash then do
      skip 2
      pure (.inl ())
    else do
      skip 1
      pure (.inr ())

/-- `skip_multiline_comment`. -/
def skipMultilineComment (n : ℕ) : Attempt MinifyBuffer Unit := do
  skip 2
  turns multilineTurn n ()

/-! ## Strings -/

def stringTurn (_ : Unit) : Attempt MinifyBuffer (Unit ⊕ Unit) := do
  let c ← input 0
  if c = 0 then pure (.inl ())
  else do
    output 0 c
    let c ← input 0
    if c = quote then do
      output 0 quote
      skip 1
      produce 1
      pure (.inl ())
    else do
      let next ← inputIf (c = backslash)
      when (c = backslash ∧ next = quote) do
        let next ← input 1
        output 1 next
        skip 1
        produce 1
      skip 1
      produce 1
      pure (.inr ())

/-- `minify_string`. -/
def minifyString (n : ℕ) : Attempt MinifyBuffer Unit := do
  let c ← input 0
  output 0 c
  skip 1
  produce 1
  turns stringTurn n ()

/-! ## Texts -/

/-- `' '`, `'\t'`, `'\r'`, `'\n'`. -/
def isSpace (c : UInt8) : Bool := c = 0x20 ∨ c = tab ∨ c = 0x0d ∨ c = newline

/-- The cases of the `switch`. -/
def minifyByte (n : ℕ) (c : UInt8) : Attempt MinifyBuffer Unit :=
  if isSpace c then skip 1
  else if c = slash then do
    let next ← input 1
    if next = slash then skipOnelineComment n
    else if next = star then skipMultilineComment n
    else skip 1
  else if c = quote then minifyString n
  else do
    output 0 c
    skip 1
    produce 1

def minifyTurn (n : ℕ) (_ : Unit) : Attempt MinifyBuffer (Unit ⊕ Unit) := do
  let c ← input 0
  if c = 0 then pure (.inl ())
  else do
    minifyByte n c
    pure (.inr ())

/-- `cJSON_Minify`, of a text at the start of the memory. -/
def cJSONMinify (n : ℕ) : Attempt MinifyBuffer Unit := do
  turns (minifyTurn n) n ()
  output 0 0

end MinifyBuffer

end OlegPrinter
