/-
  `cJSON_Parse`: the recursive descent over a buffer.

  * `ParseBuffer`: `content` is the `length` bytes of the buffer and nothing beyond them can be read.
    A guarded look at the next byte is `nextIs`; `peek` is an unguarded one, a fault at the
    end. What is written of a string has to fit its allocation, too (`Decoding.write`).
  * `Allocator`: which calls of `malloc` succeed, and how many blocks there are that have not been
    freed. `CJson.blocks` are the blocks of a tree, all of which `cJSON_Delete` frees.
  * `parseString` looks for the closing quote first (`scanString`) and unescapes what is before it
    in a second pass (`decode`). A string with an escaped NUL ends there: a tree holds C strings.
  * `parseArray` and `parseObject` share everything but their brackets and their items
    (`parseItems`). `parseValue n` may nest `n` deep; the limit of the source comes before that.
  * `Strtod`: a double is a parameter, given by the sign and the absolute value of a numeral.
-/
import OlegPrinter.Lib.Attempt
import OlegPrinter.Lib.Numeral
import OlegPrinter.CJson.Print
import OlegPrinter.CJson.Utf16

namespace OlegPrinter

open CLib

/-! ## Buffers -/

structure Allocator where
  /-- Does the `n`-th call succeed? -/
  grants : ℕ → Bool
  calls : ℕ
  live : ℕ

structure ParseBuffer where
  content : List UInt8
  offset : Nat
  depth : Nat
  heap : Allocator

/-- `CJSON_NESTING_LIMIT`. -/
def nestingLimit : Nat := 1000

namespace ParseBuffer

/-- The bytes from `buffer_at_offset` on. -/
def rest (b : ParseBuffer) : List UInt8 := b.content.drop b.offset

/-- `can_access_at_index(b, 0)`. -/
def canAccess (b : ParseBuffer) : Bool := b.offset < b.content.length

/-- `can_access_at_index(b, 0) && buffer_at_offset(b)[0] == c`. -/
def nextIs (b : ParseBuffer) (c : UInt8) : Bool := b.rest.head? = some c

/-- `can_read` as many bytes as the literal has, and `strncmp` finds them equal. -/
def startsWith (b : ParseBuffer) (literal : List UInt8) : Bool := literal.isPrefixOf b.rest

def advance (n : Nat) (b : ParseBuffer) : ParseBuffer := { b with offset := b.offset + n }

def back (b : ParseBuffer) : ParseBuffer := { b with offset := b.offset - 1 }

def deeper (b : ParseBuffer) : ParseBuffer := { b with depth := b.depth + 1 }

def shallower (b : ParseBuffer) : ParseBuffer := { b with depth := b.depth - 1 }

def free (n : ℕ) (b : ParseBuffer) : ParseBuffer :=
  { b with heap := { b.heap with live := b.heap.live - n } }

/-- White space, and every other control character. -/
def isBlank (c : UInt8) : Bool := c ≤ 32

/-- `buffer_skip_whitespace`: at the end of the buffer it steps back to the last byte. -/
def skipWhitespace (b : ParseBuffer) : ParseBuffer :=
  if b.canAccess then
    let b := b.advance (b.rest.takeWhile isBlank).length
    if b.offset = b.content.length then b.back else b
  else b

/-- `skip_utf8_bom`: where at least five bytes can be accessed. -/
def skipUtf8Bom (b : ParseBuffer) : ParseBuffer :=
  if b.offset + 4 < b.content.length ∧ b.startsWith [0xEF, 0xBB, 0xBF] then b.advance 3 else b

end ParseBuffer

open ParseBuffer

/-- `buffer_at_offset(b)[0]`, with nothing in front of it that guards it. -/
def peek : Attempt ParseBuffer UInt8 := fun b =>
  match b.rest with
  | [] => .fault .outOfBounds
  | c :: _ => .accept c b

/-- A block, or NULL. -/
def newBlock : Attempt ParseBuffer Unit := fun b =>
  if b.heap.grants b.heap.calls then
    .accept () { b with heap := { b.heap with calls := b.heap.calls + 1, live := b.heap.live + 1 } }
  else .reject { b with heap := { b.heap with calls := b.heap.calls + 1 } }

mutual

/-- The blocks of an item: itself, its string, the items below it. -/
def CJson.blocks : CJson → ℕ
  | .string (some _) => 2
  | .raw (some _) => 2
  | .array child => 1 + child.blocks
  | .object child => 1 + child.blocks
  | _ => 1

/-- The blocks of the items of a chain and their names. -/
def Chain.blocks : Chain → ℕ
  | .nil => 0
  | .cons none item next => item.blocks + next.blocks
  | .cons (some _) item next => 1 + item.blocks + next.blocks

end

/-- Attach an item behind the others. -/
def Chain.push : Chain → Option CStr → CJson → Chain
  | .nil, string, item => .cons string item .nil
  | .cons string' item' next, string, item => .cons string' item' (next.push string item)

/-! ## Strings -/

/-- The string in `mem`. -/
def CStr.ofMemory (mem : List UInt8) : CStr where
  bytes := cstr mem
  noNul h := by
    have := List.mem_takeWhile_imp h
    simp at this

/-- The loop that looks for the closing quote: the number of bytes before it, and of the backslashes that
    were skipped with the byte behind them; `none` where the string does not end. -/
def scanString : List UInt8 → Option (Nat × Nat)
  | [] => none
  | b :: s =>
    if b = quote then some (0, 0)
    else if b = backslash then
      match s with
      | [] => none
      | _ :: s => (scanString s).map fun (length, skipped) => (length + 2, skipped + 1)
    else (scanString s).map fun (length, skipped) => (length + 1, skipped)

/-- Escapes of one character. -/
def shortEscape (c : UInt8) : Option UInt8 :=
  if c = 0x62 then some 0x08
  else if c = 0x66 then some 0x0c
  else if c = 0x6e then some 0x0a
  else if c = 0x72 then some 0x0d
  else if c = 0x74 then some 0x09
  else if c = quote ∨ c = backslash ∨ c = 0x2f then some c
  else none

/-- The second pass: the bytes from `input_pointer` to `input_end`, and those written so far. -/
structure Decoding where
  input : List UInt8
  output : List UInt8

/-- Write behind what was written, and move on in the input. -/
def Decoding.write (room : Nat) (bytes : List UInt8) (consumed : Nat) :
    Attempt Decoding (Unit ⊕ Unit) := fun d =>
  if d.output.length + bytes.length ≤ room then
    .accept (.inr ()) ⟨d.input.drop consumed, d.output ++ bytes⟩
  else .fault .outOfBounds

/-- An escape sequence at the front of the input: what it is decoded to, and its length. Behind the
    input stands the closing quote. -/
def escapeSequence (input : List UInt8) : Option (List UInt8 × Nat) :=
  let c := (input.drop 1).headD quote
  match shortEscape c with
  | some e => some ([e], 2)
  | none => if c = 0x75 then utf16LiteralToUtf8 input else none

/-- One turn of `while (input_pointer < input_end)`. -/
def decodeTurn (room : Nat) (_ : Unit) : Attempt Decoding (Unit ⊕ Unit) := fun d =>
  match d.input with
  | [] => .accept (.inl ()) d
  | b :: _ =>
    if b ≠ backslash then Decoding.write room [b] 1 d
    else
      match escapeSequence d.input with
      | some (bytes, length) => Decoding.write room bytes length d
      | none => .reject d

/-- The loop, and the terminator. -/
def decode (room : Nat) (input : List UInt8) : Attempted Decoding Unit :=
  match Attempt.turns (decodeTurn room) (input.length + 1) () ⟨input, []⟩ with
  | .accept _ d => if d.output.length + 1 ≤ room then .accept () d else .fault .outOfBounds
  | .reject d => .reject d
  | .fault e => .fault e

/-- From `output_pointer = output` on. -/
def unescape (length room : Nat) : Attempt ParseBuffer CStr := fun b =>
  match decode room ((b.rest.drop 1).take length) with
  | .accept _ d => .accept (CStr.ofMemory d.output) (b.advance (length + 2))
  | .reject d => .reject ((b.advance (1 + (length - d.input.length))).free 1)
  | .fault e => .fault e

/-- `parse_string`. -/
def parseString : Attempt ParseBuffer CStr := do
  let c ← peek
  if c ≠ quote then do
    Attempt.modify (advance 1)
    Attempt.reject
  else do
    let b ← Attempt.get
    match scanString (b.rest.drop 1) with
    | none => do
      Attempt.modify (advance 1)
      Attempt.reject
    | some (length, skipped) => do
      let allocationLength := length + 1 - skipped
      newBlock.onReject (advance 1)
      unescape length (allocationLength + 1)

/-! ## Numbers -/

/-- What `strtod` makes of a numeral. -/
structure Strtod where
  nearest : (negative : Bool) → ℚ → Double
  /-- The integral part, of an infinity an integer beyond the range of `int`. -/
  truncate : Double → Int

/-- `(int) number`, saturating. -/
def saturate (i : Int) : Int :=
  if (intMax : Int) ≤ i then intMax
  else if i ≤ -(intMax : Int) - 1 then -(intMax : Int) - 1
  else i

/-- The item of a numeral. -/
def Strtod.item (S : Strtod) (n : Numeral) : CJson :=
  .number (saturate (S.truncate (S.nearest n.negative n.value))) (S.nearest n.negative n.value)

/-- `parse_number`: at most 63 bytes are copied to `number_c_string`. -/
def parseNumber (S : Strtod) : Attempt ParseBuffer CJson := fun b =>
  match Numeral.scan ((b.rest.take 63).takeWhile Numeral.numberByte) with
  | none => .reject b
  | some n => .accept (S.item n) (b.advance n.text.length)

/-! ## Arrays and objects -/

def commaByte : UInt8 := 0x2c

def colon : UInt8 := 0x3a

def leftBracket : UInt8 := 0x5b

def rightBracket : UInt8 := 0x5d

def leftBrace : UInt8 := 0x7b

def rightBrace : UInt8 := 0x7d

/-- One turn of the loop over the items. Any failure deletes the items attached so far, the new one
    among them. -/
def parseItemsTurn (close : UInt8) (parseItem : Chain → Attempt ParseBuffer (Option CStr × CJson))
    (head : Chain) : Attempt ParseBuffer (Chain ⊕ Chain) := do
  newBlock.onReject (free head.blocks)
  Attempt.modify fun b => (b.advance 1).skipWhitespace
  let (string, item) ← parseItem head
  Attempt.modify skipWhitespace
  let b ← Attempt.get
  let head := head.push string item
  if b.nextIs commaByte then pure (.inr head)
  else if b.nextIs close then pure (.inl head)
  else Attempt.reject.onReject (free head.blocks)

/-- From `input_buffer->offset++` on: the items, up to and including the closing bracket. -/
def parseItems (close : UInt8) (parseItem : Chain → Attempt ParseBuffer (Option CStr × CJson)) :
    Attempt ParseBuffer Chain := do
  Attempt.modify fun b => (b.advance 1).skipWhitespace
  let b ← Attempt.get
  if b.nextIs close then do
    Attempt.modify fun b => b.shallower.advance 1
    pure .nil
  else if ¬ b.canAccess then do
    Attempt.modify back
    Attempt.reject
  else do
    -- step back to the character in front of the first item
    Attempt.modify back
    let head ← Attempt.turns (parseItemsTurn close parseItem) b.content.length .nil
    Attempt.modify fun b => b.shallower.advance 1
    pure head

/-- An element of an array. -/
def parseElement (parseValue : Attempt ParseBuffer CJson) (head : Chain) :
    Attempt ParseBuffer (Option CStr × CJson) := do
  let item ← parseValue.onReject (free (head.push none .invalid).blocks)
  pure (none, item)

/-- A member of an object: `valuestring` is swapped to `string` when the name has been parsed. -/
def parseMember (parseValue : Attempt ParseBuffer CJson) (head : Chain) :
    Attempt ParseBuffer (Option CStr × CJson) := do
  let name ← parseString.onReject (free (head.push none .invalid).blocks)
  Attempt.modify skipWhitespace
  let b ← Attempt.get
  if ¬ b.nextIs colon then Attempt.reject.onReject (free (head.push (some name) (.string none)).blocks)
  else do
    Attempt.modify fun b => (b.advance 1).skipWhitespace
    let item ← parseValue.onReject (free (head.push (some name) (.string none)).blocks)
    pure (some name, item)

/-- `parse_array`. -/
def parseArray (parseValue : Attempt ParseBuffer CJson) : Attempt ParseBuffer CJson := do
  let b ← Attempt.get
  if nestingLimit ≤ b.depth then Attempt.reject
  else do
    Attempt.modify deeper
    let c ← peek
    if c ≠ leftBracket then Attempt.reject
    else do
      let child ← parseItems rightBracket (parseElement parseValue)
      pure (.array child)

/-- `parse_object`. -/
def parseObject (parseValue : Attempt ParseBuffer CJson) : Attempt ParseBuffer CJson := do
  let b ← Attempt.get
  if nestingLimit ≤ b.depth then Attempt.reject
  else do
    Attempt.modify deeper
    let b ← Attempt.get
    if ¬ b.nextIs leftBrace then Attempt.reject
    else do
      let child ← parseItems rightBrace (parseMember parseValue)
      pure (.object child)

/-! ## Values -/

/-- A number starts with `-` or a digit. -/
def startsNumber (b : ParseBuffer) : Bool := b.rest.head?.any fun c => c = minus ∨ isDigit c

/-- `parse_value`. -/
def parseValue (S : Strtod) : ℕ → Attempt ParseBuffer CJson
  | 0 => Attempt.fault .outOfTurns
  | n + 1 => do
    let b ← Attempt.get
    if b.startsWith (ascii "null") then do
      Attempt.modify (advance 4)
      pure .null
    else if b.startsWith (ascii "false") then do
      Attempt.modify (advance 5)
      pure .false
    else if b.startsWith (ascii "true") then do
      Attempt.modify (advance 4)
      pure .true
    else if b.nextIs quote then do
      let s ← parseString
      pure (.string (some s))
    else if startsNumber b then parseNumber S
    else if b.nextIs leftBracket then parseArray (parseValue S n)
    else if b.nextIs leftBrace then parseObject (parseValue S n)
    else Attempt.reject

/-- `cJSON_ParseWithLengthOpts` from `cJSON_New_Item` on. -/
def parseRoot (S : Strtod) (requireNullTerminated : Bool) : Attempt ParseBuffer CJson := do
  newBlock
  Attempt.modify fun b => b.skipUtf8Bom.skipWhitespace
  let item ← (parseValue S (nestingLimit + 1)).onReject (free 1)
  if requireNullTerminated then do
    Attempt.modify skipWhitespace
    let b ← Attempt.get
    if b.nextIs 0 then pure item else Attempt.reject.onReject (free item.blocks)
  else pure item

/-- What the call leaves: the item or NULL, `return_parse_end` and `global_error` as positions in the
    text, the allocator. `global_error` is reset, and set again by a failure. -/
structure Parsed where
  item : Option CJson
  parseEnd : Option Nat
  globalError : Option Nat
  heap : Allocator

/-- The position of a failure. -/
def errorPosition (b : ParseBuffer) : Nat :=
  if b.offset < b.content.length then b.offset else b.content.length - 1

/-- `cJSON_ParseWithLengthOpts`. -/
def cJSONParseWithLengthOpts (S : Strtod) (heap : Allocator) (value : Option (List UInt8))
    (requireNullTerminated : Bool) : Except Fault Parsed :=
  match value with
  | none => .ok ⟨none, none, none, heap⟩
  | some [] => .ok ⟨none, some 0, some 0, heap⟩
  | some content =>
    match parseRoot S requireNullTerminated ⟨content, 0, 0, heap⟩ with
    | .accept item b => .ok ⟨some item, some b.offset, none, b.heap⟩
    | .reject b => .ok ⟨none, some (errorPosition b), some (errorPosition b), b.heap⟩
    | .fault e => .error e

/-- `cJSON_ParseWithOpts`: the terminator is part of the buffer. -/
def cJSONParseWithOpts (S : Strtod) (heap : Allocator) (value : Option CStr)
    (requireNullTerminated : Bool) : Except Fault Parsed :=
  cJSONParseWithLengthOpts S heap (value.map fun s => s.bytes ++ [0]) requireNullTerminated

/-- `cJSON_Parse`. -/
def cJSONParse (S : Strtod) (heap : Allocator) (value : Option CStr) : Except Fault Parsed :=
  cJSONParseWithOpts S heap value false

end OlegPrinter
