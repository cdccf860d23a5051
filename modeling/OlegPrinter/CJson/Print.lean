/-
  `cJSON_Print`: an item rendered into a buffer that grows as needed.

  * `Printbuffer`: the text so far is `text`, so the offset of the source is its length
    (`update_offset` moves it behind what was written last, which is here part of writing).
    `length` is the size of the allocation.
  * `ensure` grows the allocation with `realloc`. A function of the source that returns `false`,
    for want of memory or on an item it cannot print, is `none` here.
  * `Hooks` says which allocations succeed. Nothing in the repository replaces `malloc` and
    `realloc`, so the branches of `ensure` and `print` without `reallocate` are left out.
  * `decimal_point` is `'.'` (`ENABLE_LOCALES` is not defined), so a number is copied as it is.

  `cJSONPrint_string`: a string is rendered between quotes, escaped; `cJSONPrint_string_ne`:
  that is never the string itself.
-/
import OlegPrinter.CJson.Item

namespace OlegPrinter

open CLib

/-! ## The buffer -/

/-- The allocator: does `malloc(size)` succeed, does `realloc` from one size to another? -/
structure Hooks where
  allocate : Nat → Bool
  reallocate : Nat → Nat → Bool

structure Printbuffer where
  text : List UInt8
  length : Nat
  depth : Nat
  format : Bool
  hooks : Hooks

def intMax : Nat := 2147483647

namespace Printbuffer

def offset (p : Printbuffer) : Nat := p.text.length

/-- Bytes put at the offset, and the offset moved behind them. -/
def write (p : Printbuffer) (bytes : List UInt8) : Printbuffer :=
  { p with text := p.text ++ bytes }

/-- The `realloc` of `ensure`. -/
def grow (p : Printbuffer) (newsize : Nat) : Option Printbuffer :=
  if p.hooks.reallocate p.length newsize then some { p with length := newsize } else none

/-- `ensure`: room for `needed` more bytes and a terminator. -/
def ensure (p : Printbuffer) (needed : Nat) : Option Printbuffer :=
  if 0 < p.length ∧ p.length ≤ p.offset then none
  else if intMax < needed then none
  else
    let needed := needed + p.offset + 1
    if needed ≤ p.length then some p
    else if intMax / 2 < needed then
      if needed ≤ intMax then p.grow intMax else none
    else p.grow (needed * 2)

theorem grow_text {p q : Printbuffer} {newsize : Nat} (h : p.grow newsize = some q) :
    q.text = p.text := by
  unfold grow at h
  split at h <;> cases h
  rfl

/-- Making room leaves the text alone. -/
theorem ensure_text {p q : Printbuffer} {needed : Nat} (h : p.ensure needed = some q) :
    q.text = p.text := by
  unfold ensure at h
  dsimp only at h
  split_ifs at h
  · cases h
    rfl
  · exact grow_text h
  · exact grow_text h

end Printbuffer

/-! ## Strings -/

/-- `'"'`. -/
def quote : UInt8 := 0x22

/-- The characters escaping adds to a byte, as the first loop of `print_string_ptr` counts them. -/
def escapeCharacters (b : UInt8) : Nat :=
  if b = 0x22 ∨ b = 0x5c ∨ b = 0x08 ∨ b = 0x0c ∨ b = 0x0a ∨ b = 0x0d ∨ b = 0x09 then 1
  else if b < 32 then 5
  else 0

/-- A digit of `%x`. -/
def hexDigit (b : UInt8) : UInt8 := if b < 10 then 0x30 + b else 0x57 + b

/-- What the second loop writes for a byte: the byte, a two-character escape, or `\u00xx`. -/
def escape (b : UInt8) : List UInt8 :=
  if 31 < b ∧ b ≠ 0x22 ∧ b ≠ 0x5c then [b]
  else if b = 0x5c then ascii "\\\\"
  else if b = 0x22 then ascii "\\\""
  else if b = 0x08 then ascii "\\b"
  else if b = 0x0c then ascii "\\f"
  else if b = 0x0a then ascii "\\n"
  else if b = 0x0d then ascii "\\r"
  else if b = 0x09 then ascii "\\t"
  else ascii "\\u00" ++ [hexDigit (b / 16), hexDigit (b % 16)]

/-- `output_length`. -/
def outputLength (s : List UInt8) : Nat := s.length + (s.map escapeCharacters).sum

/-- `print_string_ptr`. The closing quote goes to `output[output_length + 1]`, which is right behind the
    characters (`length_flatMap_escape`). -/
def printStringPtr (input : Option CStr) (p : Printbuffer) : Option Printbuffer :=
  match input with
  | none => do
    let p ← p.ensure 3
    pure (p.write [quote, quote])
  | some s => do
    let p ← p.ensure (outputLength s.bytes + 3)
    if (s.bytes.map escapeCharacters).sum = 0 then
      pure (p.write (quote :: s.bytes ++ [quote]))
    else
      pure (p.write (quote :: s.bytes.flatMap escape ++ [quote]))

/-- A byte that needs no escape is written as it is. -/
theorem escape_eq_self {b : UInt8} (h : escapeCharacters b = 0) : escape b = [b] := by
  unfold escapeCharacters at h
  split_ifs at h with hshort hcontrol
  simp only [not_or] at hshort
  have hplain : 31 < b := by
    rw [UInt8.lt_iff_toNat_lt] at hcontrol ⊢
    change ¬ b.toNat < 32 at hcontrol
    change 31 < b.toNat
    omega
  rw [escape, if_pos ⟨hplain, hshort.1, hshort.2.1⟩]

theorem length_escape (b : UInt8) : (escape b).length = 1 + escapeCharacters b := by
  by_cases hplain : escapeCharacters b = 0
  · rw [escape_eq_self hplain, hplain]
    rfl
  · unfold escapeCharacters at hplain ⊢
    split_ifs at hplain ⊢ with hshort hcontrol
    · -- one of the seven bytes with an escape of their own
      rcases hshort with rfl | rfl | rfl | rfl | rfl | rfl | rfl <;> rfl
    · -- any other control character is written as its code
      simp only [not_or] at hshort
      obtain ⟨h1, h2, h3, h4, h5, h6, h7⟩ := hshort
      have hlow : ¬ (31 < b ∧ b ≠ 0x22 ∧ b ≠ 0x5c) := by
        rintro ⟨h, -⟩
        rw [UInt8.lt_iff_toNat_lt] at h hcontrol
        change 31 < b.toNat at h
        change b.toNat < 32 at hcontrol
        omega
      rw [escape, if_neg hlow, if_neg h2, if_neg h1, if_neg h3, if_neg h4, if_neg h5, if_neg h6,
        if_neg h7]
      rfl
    · exact absurd rfl hplain

/-- The first loop counts what the second one writes. -/
theorem length_flatMap_escape (s : List UInt8) : (s.flatMap escape).length = outputLength s := by
  unfold outputLength
  induction s with
  | nil => rfl
  | cons b s ih =>
    rw [List.flatMap_cons, List.length_append, ih, length_escape]
    simp only [List.map_cons, List.sum_cons, List.length_cons]
    omega

/-- A string without characters to escape is copied as it is. -/
theorem flatMap_escape_eq_self {s : List UInt8} (h : (s.map escapeCharacters).sum = 0) :
    s.flatMap escape = s := by
  induction s with
  | nil => rfl
  | cons b s ih =>
    rw [List.map_cons, List.sum_cons, Nat.add_eq_zero_iff] at h
    obtain ⟨hb, hs⟩ := h
    rw [List.flatMap_cons, escape_eq_self hb, ih hs]
    rfl

/-- Both ways of printing a string put its escaped form between quotes. -/
theorem printStringPtr_text {s : CStr} {p q : Printbuffer}
    (h : printStringPtr (some s) p = some q) :
    q.text = p.text ++ (quote :: s.bytes.flatMap escape ++ [quote]) := by
  unfold printStringPtr at h
  obtain ⟨p', hp', hq⟩ := Option.bind_eq_some_iff.mp h
  have htext := Printbuffer.ensure_text hp'
  split_ifs at hq with hplain
  · cases hq
    rw [flatMap_escape_eq_self hplain, ← htext]
    rfl
  · cases hq
    rw [← htext]
    rfl

/-! ## Values -/

/-- The text of `print_number`. -/
def numberText (valueint : Int) (d : Double) : List UInt8 :=
  if d.nanOrInf then ascii "null"
  else if d.equals valueint then decimal valueint
  else if d.recovered then d.precision15.bytes
  else d.precision17.bytes

/-- `print_number`: a text that overruns `number_buffer` is not printed. -/
def printNumber (valueint : Int) (d : Double) (p : Printbuffer) : Option Printbuffer :=
  let number := numberText valueint d
  if 25 < number.length then none
  else do
    let p ← p.ensure (number.length + 1)
    pure (p.write number)

/-- `"null"`, `"true"`, `"false"` and raw text: as many bytes and the terminator. -/
def printText (bytes : List UInt8) (p : Printbuffer) : Option Printbuffer := do
  let p ← p.ensure (bytes.length + 1)
  pure (p.write bytes)

/-- The comma between the elements of an array. -/
def printComma (p : Printbuffer) : Option Printbuffer := do
  let length := if p.format then 2 else 1
  let p ← p.ensure (length + 1)
  pure (p.write (if p.format then ascii ", " else ascii ","))

/-- The opening of an object. -/
def openObject (p : Printbuffer) : Option Printbuffer := do
  let length := if p.format then 2 else 1
  let p ← p.ensure (length + 1)
  pure { p.write (if p.format then ascii "\x7b\n" else ascii "\x7b") with depth := p.depth + 1 }

/-- `'\t'`. -/
def tab : UInt8 := 0x09

/-- A member of an object up to its value: indentation, key and colon. -/
def printKey (string : Option CStr) (p : Printbuffer) : Option Printbuffer := do
  let p ←
    if p.format then do
      let p ← p.ensure p.depth
      pure (p.write (List.replicate p.depth tab))
    else pure p
  let p ← printStringPtr string p
  let p ← p.ensure (if p.format then 2 else 1)
  pure (p.write (if p.format then ascii ":\t" else ascii ":"))

/-- What ends a member of an object: a comma if another one follows, a line break if formatted. -/
def endMember (last : Bool) (p : Printbuffer) : Option Printbuffer := do
  let text := (if last then [] else ascii ",") ++ (if p.format then ascii "\n" else [])
  let p ← p.ensure (text.length + 1)
  pure (p.write text)

/-- The end of an object. -/
def closeObject (p : Printbuffer) : Option Printbuffer := do
  let p ← p.ensure (if p.format then p.depth + 1 else 2)
  let indent := if p.format then List.replicate (p.depth - 1) tab else []
  pure { p.write (indent ++ ascii "\x7d") with depth := p.depth - 1 }

/-- No item follows. -/
def Chain.isNil : Chain → Bool
  | .nil => true
  | .cons _ _ _ => false

mutual

/-- `print_value`, with `print_array` and `print_object` as its last two cases. -/
def printValue : CJson → Printbuffer → Option Printbuffer
  | .invalid, _ => none
  | .null, p => printText (ascii "null") p
  | .false, p => printText (ascii "false") p
  | .true, p => printText (ascii "true") p
  | .number valueint d, p => printNumber valueint d p
  | .raw none, _ => none
  | .raw (some s), p => printText s.bytes p
  | .string s, p => printStringPtr s p
  | .array child, p => do
    let p ← p.ensure 1
    let p ← printElements child { p.write (ascii "[") with depth := p.depth + 1 }
    let p ← p.ensure 2
    pure { p.write (ascii "]") with depth := p.depth - 1 }
  | .object child, p => do
    let p ← openObject p
    let p ← printMembers child p
    closeObject p

/-- The loop of `print_array`. -/
def printElements : Chain → Printbuffer → Option Printbuffer
  | .nil, p => some p
  | .cons _ item next, p => do
    let p ← printValue item p
    let p ← if next.isNil then pure p else printComma p
    printElements next p

/-- The loop of `print_object`. -/
def printMembers : Chain → Printbuffer → Option Printbuffer
  | .nil, p => some p
  | .cons string item next, p => do
    let p ← printKey string p
    let p ← printValue item p
    let p ← endMember next.isNil p
    printMembers next p

end

/-- `print`: a buffer of 256 bytes to start with, cut to the text at the end. -/
def print (item : Option CJson) (format : Bool) (hooks : Hooks) : Option (List UInt8) := do
  if hooks.allocate 256 then
    let item ← item
    let p ← printValue item ⟨[], 256, 0, format, hooks⟩
    if hooks.reallocate p.length (p.offset + 1) then pure p.text else none
  else none

/-- `cJSON_Print`. -/
def cJSONPrint (hooks : Hooks) (item : Option CJson) : Option (List UInt8) := print item true hooks

/-- `cJSON_PrintUnformatted`. -/
def cJSONPrintUnformatted (hooks : Hooks) (item : Option CJson) : Option (List UInt8) :=
  print item false hooks

/-- `cJSON_PrintBuffered`: the caller says how much to allocate at first. -/
def cJSONPrintBuffered (hooks : Hooks) (item : Option CJson) (prebuffer : Int) (fmt : Bool) :
    Option (List UInt8) := do
  if prebuffer < 0 then none
  else if hooks.allocate prebuffer.toNat then
    let item ← item
    let p ← printValue item ⟨[], prebuffer.toNat, 0, fmt, hooks⟩
    pure p.text
  else none

/-- `cJSON_PrintPreallocated` to a buffer of the caller's. `noalloc` stops `ensure` where it would grow, so
    it is the same as growing without success. -/
def cJSONPrintPreallocated (item : Option CJson) (length : Int) (format : Bool) :
    Option (List UInt8) := do
  if length < 0 then none
  else
    let item ← item
    let p ← printValue item ⟨[], length.toNat, 0, format, ⟨fun _ => false, fun _ _ => false⟩⟩
    pure p.text

/-- Every allocation succeeds. -/
def Hooks.plenty : Hooks := ⟨fun _ => true, fun _ _ => true⟩

example : cJSONPrint Hooks.plenty (some (.object (.cons (some (CStr.lit "IPP"))
    (.array (.cons none .null (.cons none .true .nil))) .nil))) =
      some (ascii "\x7b\n\t\"IPP\":\t[null, true]\n\x7d") := by
  decide +kernel

/-! ## Printing a string -/

/-- A string is printed between quotes, escaped. -/
theorem cJSONPrint_string {hooks : Hooks} {s : CStr} {t : List UInt8}
    (h : cJSONPrint hooks (some (.string (some s))) = some t) :
    t = quote :: s.bytes.flatMap escape ++ [quote] := by
  unfold cJSONPrint print at h
  split_ifs at h with hmalloc
  obtain ⟨item, hitem, h⟩ := Option.bind_eq_some_iff.mp h
  cases hitem
  obtain ⟨p, hp, ht⟩ := Option.bind_eq_some_iff.mp h
  split_ifs at ht with hrealloc
  cases ht
  rw [printValue] at hp
  rw [printStringPtr_text hp]
  rfl

/-- So it is never printed as it is: what is printed is longer. -/
theorem cJSONPrint_string_ne (hooks : Hooks) (s : CStr) :
    cJSONPrint hooks (some (.string (some s))) ≠ some s.bytes := by
  intro h
  have hlength := congrArg List.length (cJSONPrint_string h)
  rw [List.length_append, List.length_cons, length_flatMap_escape] at hlength
  unfold outputLength at hlength
  simp only [List.length_singleton] at hlength
  omega

end OlegPrinter
