/-
  `printer_state.h`: the codes that server and client share. Printer states start at 3,
  state reasons at 6, commands at 0; each enumeration continues by one.

  `dispatch` is the `if … else if` chain of the server on a received command, and
  `dispatch_eq_some_iff` reads it on the four bytes of the command object.
-/
import OlegPrinter.Lib.Bytes

namespace OlegPrinter

open CLib

/-- `printer_state_t`. -/
inductive PrinterState where
  | printerWork
  | printerIdle
  | printerStopped
  deriving DecidableEq

def PrinterState.code : PrinterState → Int
  | .printerWork => 3
  | .printerIdle => 4
  | .printerStopped => 5

/-- `printer_state_reason_t`. -/
inductive PrinterStateReason where
  | connectingToDevice
  | coverOpen
  | inputTrayMissing
  | markerSupplyEmpty
  | markerSupplyLow
  | markerWasteAlmostFull
  | markerWasteFull
  | mediaEmpty
  | mediaJam
  | mediaLow
  | mediaNeeded
  | paused
  | timedOut
  | tonerEmpty
  | tonerLow
  deriving DecidableEq

def PrinterStateReason.code : PrinterStateReason → Int
  | .connectingToDevice => 6
  | .coverOpen => 7
  | .inputTrayMissing => 8
  | .markerSupplyEmpty => 9
  | .markerSupplyLow => 10
  | .markerWasteAlmostFull => 11
  | .markerWasteFull => 12
  | .mediaEmpty => 13
  | .mediaJam => 14
  | .mediaLow => 15
  | .mediaNeeded => 16
  | .paused => 17
  | .timedOut => 18
  | .tonerEmpty => 19
  | .tonerLow => 20

/-- The enumerator, as the header spells it. -/
def PrinterStateReason.enumerator : PrinterStateReason → String
  | .connectingToDevice => "CONNECTING_TO_DEVICE"
  | .coverOpen => "COVER_OPEN"
  | .inputTrayMissing => "INPUT_TRAY_MISSING"
  | .markerSupplyEmpty => "MARKER_SUPPLY_EMPTY"
  | .markerSupplyLow => "MARKER_SUPPLY_LOW"
  | .markerWasteAlmostFull => "MARKER_WASTE_ALMOST_FULL"
  | .markerWasteFull => "MARKER_WASTE_FULL"
  | .mediaEmpty => "MEDIA_EMPTY"
  | .mediaJam => "MEDIA_JAM"
  | .mediaLow => "MEDIA_LOW"
  | .mediaNeeded => "MEDIA_NEEDED"
  | .paused => "PAUSED"
  | .timedOut => "TIMED_OUT"
  | .tonerEmpty => "TONER_EMPTY"
  | .tonerLow => "TONER_LOW"

theorem PrinterStateReason.code_bounds (r : PrinterStateReason) : 6 ≤ r.code ∧ r.code ≤ 20 := by
  cases r <;> decide

/-- `server_command_t`. -/
inductive ServerCommand where
  | printerInfo
  | printFile
  | printInfo
  | infoJob
  deriving DecidableEq

def ServerCommand.code : ServerCommand → Int
  | .printerInfo => 0
  | .printFile => 1
  | .printInfo => 2
  | .infoJob => 3

/-- The four bytes of a command as an `int` object. -/
def ServerCommand.bytes (c : ServerCommand) : List UInt8 := (Obj.ofInt c.code).bytes

@[simp] theorem ServerCommand.bytes_length (c : ServerCommand) : c.bytes.length = 4 :=
  (Obj.ofInt c.code).size_eq

/-- The chain `if (command == PRINTER_INFO) … else if (command == INFO_JOB)`: the branch
    taken, if any. -/
def dispatch (command : Int) : Option ServerCommand :=
  if command = ServerCommand.printerInfo.code then some .printerInfo
  else if command = ServerCommand.printFile.code then some .printFile
  else if command = ServerCommand.printInfo.code then some .printInfo
  else if command = ServerCommand.infoJob.code then some .infoJob
  else none

theorem dispatch_code (c : ServerCommand) : dispatch c.code = some c := by
  cases c <;> decide

theorem dispatch_eq_some_code {command : Int} {c : ServerCommand}
    (h : dispatch command = some c) : command = c.code := by
  unfold dispatch at h
  split_ifs at h with h0 h1 h2 h3 <;> cases h <;> assumption

/-- A branch is taken exactly when the object holds that command's four bytes. -/
theorem dispatch_eq_some_iff {o : Obj 4} {c : ServerCommand} :
    dispatch o.toInt = some c ↔ o.bytes = c.bytes := by
  have hr : Obj.InIntRange c.code := by cases c <;> decide
  constructor
  · intro h
    exact (Obj.toInt_eq_iff hr).mp (dispatch_eq_some_code h)
  · intro h
    rw [(Obj.toInt_eq_iff hr).mpr h, dispatch_code]

theorem dispatch_eq_none_iff {o : Obj 4} :
    dispatch o.toInt = none ↔ ∀ c : ServerCommand, o.bytes ≠ c.bytes := by
  constructor
  · intro h c hc
    rw [dispatch_eq_some_iff.mpr hc] at h
    cases h
  · intro h
    cases hd : dispatch o.toInt with
    | none => rfl
    | some c => exact absurd (dispatch_eq_some_iff.mp hd) (h c)

end OlegPrinter
