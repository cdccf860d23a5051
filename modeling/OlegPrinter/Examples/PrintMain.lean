/-
  `main` of `print.c`: what it does with its arguments, and the status it ends with.

  * `MainCall` are its calls of CUPS and its output, and the calls of `printFile`, which are made where
    `main` calls that. `cupsEnumDests` is answered by the destinations that it hands to `enum_cb`, and
    `cupsCopyDestInfo` by what there is to know of the printer.
  * `args` are the arguments from `argv[1]` on. `argv[argc]` is NULL.
  * `main`: the source text, where the branch of `--set` has a `dest` of its own, so that the one of
    `main` is still NULL behind it. `none` is returned by a run still in the loop of `printFile` after `n`
    turns, or in a recursion of `show_supported` deeper than `n`.
-/
import OlegPrinter.Examples.PrintFile
import OlegPrinter.Examples.ShowSupported
import OlegPrinter.Server.AcceptLoop

namespace OlegPrinter.Examples

open CLib

/-! ## Calls -/

/-- `cups_dest_t`, what `enum_cb` prints of it. -/
structure CupsDest where
  name : CStr
  inst : Option CStr
  options : List CupsOption
  deriving DecidableEq

/-- `http_t *`, when it is not NULL. -/
structure Http where
  id : Nat
  deriving DecidableEq

/-- What is printed. A string that CUPS gives may be NULL, and so may `argv[3]`. -/
inductive MainMessage where
  | instanceOf (name inst : CStr)
  | dest (name : CStr)
  | option (option : CupsOption)
  | cannotFind (name : Option CStr)
  | unableToGetDest (name : CStr) (error : Option CStr)
  | unableToConnect (name : CStr) (error : Option CStr)
  | unableToGetInfo (name : CStr) (error : Option CStr)
  | line (line : Line)
  | unknownOption (arg : CStr)
  | puts (text : String)
  deriving DecidableEq

inductive MainCall where
  | cupsGetDefault
  | cupsGetNamedDest (name : Option CStr)
  | cupsGetDestWithURI (uri : CStr)
  | cupsEnumDests (msec : Int) (type mask : Nat)
  | cupsSetDefaultDest (name : Option CStr) (dest : Option CupsDest)
  | cupsConnectDest (dest : CupsDest) (msec : Int)
  | cupsCopyDestInfo (http : Http) (dest : CupsDest)
  | cupsParseOptions (arg : CStr) (numOptions : Int)
  | cupsLastErrorString
  | printf (m : MainMessage)
  | printFile (c : PrintCall)

abbrev MainAnswer : MainCall → Type
  | .cupsGetDefault => Option CStr
  | .cupsGetNamedDest _ => Option CupsDest
  | .cupsGetDestWithURI _ => Option CupsDest
  | .cupsEnumDests _ _ _ => List CupsDest
  | .cupsSetDefaultDest _ _ => Unit
  | .cupsConnectDest _ _ => Option Http
  | .cupsCopyDestInfo _ _ => Option DestInfo
  | .cupsParseOptions _ _ => Int
  | .cupsLastErrorString => Option CStr
  | .printf _ => Unit
  | .printFile c => PrintAnswer c

/-- Why it ends before it returns: `exit`, or the use of a NULL pointer. -/
inductive MainStop where
  | exit (status : Nat)
  | nullDest
  | nullString
  deriving DecidableEq

abbrev MainProg := Prog MainCall MainAnswer MainStop

/-! ## Output -/

def printLine (m : MainMessage) : MainProg PUnit := do
  let _ ← Prog.perform (MainCall.printf m)
  pure ⟨⟩

/-- The lines of `usage`. -/
def usageLines : List String :=
  ["Usage:", "  ./print name [operation ...]", "  ./print ipp://... [operation ...]",
    "  ./print ipps://... [operation ...]",
    "  ./print --enum [grayscale] [color] [duplex] [staple] [small]\n                 [medium] [large]",
    "", "Operations:", "  conflicts options", "  default option", "  localize option [value]",
    "  media [borderless] [duplex] [exact] [ready] [name or size]", "  print filename [options]",
    "  supported [option [value]]"]

/-- `usage`. -/
def usage {α : Type} (arg : Option CStr) : MainProg α := do
  match arg with
  | some arg => do
    printLine (.unknownOption arg)
    usageLines.forM fun text => printLine (.puts text)
    .stop (.exit 1)
  | none => do
    usageLines.forM fun text => printLine (.puts text)
    .stop (.exit 0)

/-- `enum_cb`. -/
def enumCb (dest : CupsDest) : MainProg PUnit := do
  match dest.inst with
  | some inst => printLine (.instanceOf dest.name inst)
  | none => printLine (.dest dest.name)
  dest.options.forM fun option => printLine (.option option)

/-! ## Enumeration -/

/-- The arguments that are filters, with the `CUPS_PRINTER_` bit of each. -/
def filters : List (CStr × Nat) :=
  [(CStr.lit "grayscale", 0x4), (CStr.lit "color", 0x8), (CStr.lit "duplex", 0x10),
    (CStr.lit "staple", 0x20), (CStr.lit "small", 0x1000), (CStr.lit "medium", 0x2000),
    (CStr.lit "large", 0x4000)]

def filterBit (arg : CStr) : Option Nat := (filters.find? fun f => f.1 = arg).map Prod.snd

/-- `"default"` -/
def defaultArg : CStr := CStr.lit "default"

/-- The default destination is printed, if there is one: `enum_cb` does not ask. -/
def enumDefault : MainProg PUnit := do
  let name : Option CStr ← Prog.perform MainCall.cupsGetDefault
  let def' : Option CupsDest ← Prog.perform (MainCall.cupsGetNamedDest name)
  match def' with
  | some dest => enumCb dest
  | none => .stop .nullDest

/-- `type`, `mask` and `flag` after the loop over the arguments. -/
def enumArgs : List CStr → Nat × Nat × Bool → MainProg (Nat × Nat × Bool)
  | [], state => pure state
  | arg :: args, (type, mask, flag) =>
    match filterBit arg with
    | some bit => enumArgs args (type ||| bit, mask ||| bit, flag)
    | none =>
      if arg = defaultArg then do
        enumDefault
        enumArgs args (type, mask, true)
      else usage (some arg)

/-- The option `--enum`. -/
def enumDests (args : List CStr) : MainProg Nat := do
  let (type, mask, flag) ← enumArgs args (0, 0, false)
  if flag then pure 0
  else do
    let dests : List CupsDest ← Prog.perform (MainCall.cupsEnumDests 5000 type mask)
    dests.forM enumCb
    pure 0

/-! ## Destinations -/

def enumOption : CStr := CStr.lit "--enum"

def setOption : CStr := CStr.lit "--set"

/-- The option `--set`; `args` begin with `argv[2]`. Its `dest` is its own. -/
def setDests (args : List CStr) : MainProg PUnit := do
  match args with
  | [] => usage (some setOption)
  | arg :: args =>
    if arg = CStr.lit "dest-default" then do
      let dest : Option CupsDest ← Prog.perform (MainCall.cupsGetNamedDest args.head?)
      if dest = none then printLine (.cannotFind args.head?)
      let _ ← Prog.perform (MainCall.cupsSetDefaultDest args.head? dest)
      pure ⟨⟩
    else pure ⟨⟩

/-- It begins with `ipp://` or `ipps://`. -/
def isURI (arg : CStr) : Bool :=
  (ascii "ipp://").isPrefixOf arg.bytes || (ascii "ipps://").isPrefixOf arg.bytes

/-- `dest`, with `argv[1]` and the arguments behind it. -/
def getDest (arg : CStr) (args : List CStr) : MainProg (Option CupsDest) := do
  if arg = setOption then do
    setDests args
    pure none
  else if isURI arg then Prog.perform (MainCall.cupsGetDestWithURI arg)
  else Prog.perform (MainCall.cupsGetNamedDest (some arg))

/-- An error of CUPS, and the status that is returned. -/
def failed (message : Option CStr → MainMessage) : MainProg (Option Nat) := do
  let error : Option CStr ← Prog.perform MainCall.cupsLastErrorString
  printLine (message error)
  pure (some 1)

/-! ## Operations -/

def supportedArg : CStr := CStr.lit "supported"

def conflictsArg : CStr := CStr.lit "conflicts"

def printArg : CStr := CStr.lit "print"

/-- `argc == 2 || (!strcmp(argv[2], "supported") && argc < 6)`, of the arguments from `argv[2]` on. -/
def listsSupported (args : List CStr) : Bool :=
  match args with
  | [] => true
  | arg :: args => arg = supportedArg && args.length + 3 < 6

/-- `show_supported`, with `argv[3]` and `argv[4]`, which are NULL where there are no more arguments. -/
def listSupported (info : DestInfo) (args : List CStr) (n : ℕ) : MainProg (Option PUnit) := do
  match showSupported info n args[1]? args[2]? with
  | some lines => do
    lines.forM fun line => printLine (.line line)
    pure (some ⟨⟩)
  | none => pure none

/-- The loop over the options of a job. The options are handed on as they are. -/
def parseOptions : List CStr → Int → MainProg PUnit
  | [], _ => pure ⟨⟩
  | arg :: args, numOptions => do
    let numOptions : Int ← Prog.perform (MainCall.cupsParseOptions arg numOptions)
    parseOptions args numOptions

/-- The operation at `argv[2]`. `show_conflicts` does nothing. -/
def operate (args : List CStr) (n : ℕ) : MainProg (Option Nat) := do
  match args with
  | [] => .stop .nullString
  | arg :: args =>
    if arg = conflictsArg ∧ args ≠ [] then do
      parseOptions args 0
      pure (some 0)
    else if arg = printArg then
      match args with
      | [] => usage (some arg)
      | filename :: args => do
        parseOptions args 0
        let printed ← (printFile filename n).embed MainCall.printFile fun _ answer => answer
        pure (printed.map fun _ => 0)
    else usage (some arg)

/-- From the destination on: the connection, the information, the operation. -/
def onDest (arg : CStr) (args : List CStr) (n : ℕ) (dest : CupsDest) : MainProg (Option Nat) := do
  let http : Option Http ← Prog.perform (MainCall.cupsConnectDest dest 30000)
  match http with
  | none => failed (.unableToConnect arg)
  | some http => do
    let dinfo : Option DestInfo ← Prog.perform (MainCall.cupsCopyDestInfo http dest)
    match dinfo with
    | none => failed (.unableToGetInfo arg)
    | some info =>
      if listsSupported args then do
        let listed ← listSupported info args n
        match listed with
        | some _ => operate args n
        | none => pure none
      else operate args n

/-- `main`. -/
def main (args : List CStr) (n : ℕ) : MainProg (Option Nat) := do
  match args with
  | [] => usage none
  | arg :: args =>
    if arg = enumOption then do
      let status ← enumDests args
      pure (some status)
    else do
      let dest ← getDest arg args
      match dest with
      | none => failed (.unableToGetDest arg)
      | some dest => onDest arg args n dest

end OlegPrinter.Examples
