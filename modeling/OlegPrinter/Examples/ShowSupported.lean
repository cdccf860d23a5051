/-
  `show_supported` of `print.c`: the options of a printer, the values of one option, or whether
  a value is supported.

  * `DestInfo`: what CUPS answers about a printer, `Attribute` what it answers about an attribute.
    `ippGetString` gives NULL for an element that is not a string.
  * `DestInfo.recursions`: the options of the calls that a call makes of itself. With an option
    there are none; without one they are the elements of `job-creation-attributes`.
  * `showSupported`: the function, with a bound on the depth of its recursion; `none` is a run that
    went beyond it.
-/
import OlegPrinter.Lib.Loop
import OlegPrinter.Lib.Bytes

namespace OlegPrinter.Examples

open CLib

/-! ## What CUPS answers -/

/-- `ipp_tag_t`, as far as the `switch` tells tags apart. -/
inductive ValueTag where
  | integer
  | enum
  | range
  | resolution
  | textlang
  | namelang
  | text
  | name
  | keyword
  | uri
  | urischeme
  | charset
  | language
  | mimetype
  | string
  | boolean
  | other (code : Nat)
  deriving DecidableEq

/-- `ipp_res_t`. -/
inductive ResolutionUnits where
  | perInch
  | perCm
  deriving DecidableEq

/-- The answers of `ippGetCount`, `ippGetValueTag` and the `ippGet` functions for an element. -/
structure Attribute where
  count : Nat
  valueTag : ValueTag
  getString : Nat → Option CStr
  getInteger : Nat → Int
  getRange : Nat → Int × Int
  getResolution : Nat → Int × Int × ResolutionUnits
  getOctetString : Nat → List UInt8

/-- The answers of `cupsFindDestSupported`, `cupsCheckDestSupported`, `ippEnumString` and
    `ippTagString`. -/
structure DestInfo where
  findSupported : CStr → Option Attribute
  checkSupported : CStr → Option CStr → Bool
  enumString : CStr → Int → CStr
  tagString : ValueTag → CStr

/-! ## Output -/

/-- A line of output. -/
inductive Line where
  /-- The name of an option. -/
  | option (name : CStr)
  | probing
  /-- `"  %d\n"` -/
  | integer (i : Int)
  /-- `"  %d-%d\n"` -/
  | range (lower upper : Int)
  /-- `"  %d%s\n"` -/
  | square (res : Int) (units : ResolutionUnits)
  /-- `"  %dx%d%s\n"` -/
  | resolution (xres yres : Int) (units : ResolutionUnits)
  /-- `"  %s\n"`, of a string that may be NULL. -/
  | string (s : Option CStr)
  /-- Two blanks and characters. -/
  | octets (text : List UInt8)
  | yes
  | no
  deriving DecidableEq

/-- A digit of `%X`. -/
def hexDigitUpper (b : UInt8) : UInt8 := if b < 10 then 0x30 + b else 0x37 + b

/-- A byte of an octet string: itself, or `<%02X>`. -/
def shownByte (b : UInt8) : List UInt8 :=
  if b < 0x20 ∨ 0x7f ≤ b then ascii "<" ++ [hexDigitUpper (b / 16), hexDigitUpper (b % 16)] ++ ascii ">"
  else [b]

/-- The lines for the values of an attribute. -/
def attributeLines (info : DestInfo) (option : CStr) (attr : Attribute) : List Line :=
  let elements := List.range attr.count
  match attr.valueTag with
  | .integer => elements.map fun i => .integer (attr.getInteger i)
  | .enum => elements.map fun i => .string (some (info.enumString option (attr.getInteger i)))
  | .range => elements.map fun i => .range (attr.getRange i).1 (attr.getRange i).2
  | .resolution => elements.map fun i =>
    let (xres, yres, units) := attr.getResolution i
    if xres = yres then .square xres units else .resolution xres yres units
  | .textlang | .namelang | .text | .name | .keyword | .uri | .urischeme | .charset | .language
  | .mimetype => elements.map fun i => .string (attr.getString i)
  | .string => elements.map fun i => .octets ((attr.getOctetString i).flatMap shownByte)
  | .boolean => []
  | .other code => [.string (some (info.tagString (.other code)))]

/-- The lines for the values of an option. -/
def valueLines (info : DestInfo) (option : CStr) : List Line :=
  match info.findSupported option with
  | some attr => attributeLines info option attr
  | none => []

/-! ## The recursion -/

/-- `"job-creation-attributes"`. -/
def jobCreationAttributes : CStr := CStr.lit "job-creation-attributes"

/-- The list of standard options. -/
def standardOptions : List CStr :=
  [CStr.lit "copies", CStr.lit "finishings", CStr.lit "media", CStr.lit "number-up",
    CStr.lit "orientation-requested", CStr.lit "print-color-mode", CStr.lit "print-quality",
    CStr.lit "sides"]

/-- The options of the recursive calls, NULL among them if an element is not a string. -/
def DestInfo.recursions (info : DestInfo) : Option CStr → List (Option CStr)
  | some _ => []
  | none =>
    match info.findSupported jobCreationAttributes with
    | some attr => (List.range attr.count).map attr.getString
    | none => (standardOptions.filter fun option => info.checkSupported option none).map some

/-- What is printed before them. -/
def DestInfo.heading (info : DestInfo) : List Line :=
  match info.findSupported jobCreationAttributes with
  | some _ => []
  | none => [.probing]

/-- `show_supported`, to a recursion depth of `n`. -/
def showSupported (info : DestInfo) : ℕ → Option CStr → Option CStr → Option (List Line)
  | 0, _, _ => none
  | n + 1, none, _ => do
    let lines ← forEach (fun option => showSupported info n option none) (info.recursions none)
    pure (info.heading ++ lines)
  | _ + 1, some option, none => some (.option option :: valueLines info option)
  | _ + 1, some option, some value =>
    if info.checkSupported option (some value) then some [.yes] else some [.no]

end OlegPrinter.Examples
