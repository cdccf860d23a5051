/-
  `printFile` of `print.c`: a file sent as a job.

  * `PrintCall` are its calls of CUPS and its output. The connection, the destination and the
    options are handed on as they are in every call, and are left out.
  * `writeLoop`: the loop over `buffer`, at most `n` turns of it.
  * `printFile`: the source text; `none` is returned by a run still in the loop after `n` turns.
-/
import OlegPrinter.Lib.Protocol
import OlegPrinter.Lib.Bytes

namespace OlegPrinter.Examples

open CLib

/-! ## Calls -/

/-- `cups_file_t *`, when it is not NULL. -/
structure CupsFile where
  id : Nat
  deriving DecidableEq

/-- What `cupsCreateDestJob` returns, and what it leaves in `job_id`. -/
structure CreatedJob where
  status : Int
  jobId : Int
  deriving DecidableEq

/-- What `cupsFileRead` returns: bytes, of which there are none at end of file, or `-1`. -/
inductive FileRead where
  | got (bytes : List UInt8)
  | failed
  deriving DecidableEq

/-- Its result as the `ssize_t` it is. -/
def FileRead.count : FileRead → Int
  | .got bytes => bytes.length
  | .failed => -1

/-- The part of `buffer` that counts. -/
def FileRead.bytes : FileRead → List UInt8
  | .got bytes => bytes
  | .failed => []

/-- What `printFile` prints. A string that CUPS gives may be NULL. -/
inductive PrintMessage where
  | unableToOpen (filename error : CStr)
  | unableToCreateJob (error : Option CStr)
  | createdJobId (jobId : Int)
  | unableToSendDocument (error : Option CStr)
  | unableToWriteData (error : Option CStr)
  | jobQueued
  deriving DecidableEq

/-- The text, as the source gives it to `printf` (or `puts`, which adds a line break). -/
def PrintMessage.format : PrintMessage → String
  | .unableToOpen _ _ => "Unable to open \"%s\": %s\n"
  | .unableToCreateJob _ => "Unable to create job: %s\n"
  | .createdJobId _ => "Created job ID: %d\n"
  | .unableToSendDocument _ => "Unable to send document: %s\n"
  | .unableToWriteData _ => "Unable to write document data: %s\n"
  | .jobQueued => "Job queued."

/-- It reports an error. -/
def PrintMessage.isError : PrintMessage → Bool
  | .createdJobId _ => false
  | .jobQueued => false
  | _ => true

theorem isError_iff (m : PrintMessage) :
    m.isError = true ↔ ascii "Unable to " <+: ascii m.format := by
  cases m <;> simp only [PrintMessage.isError, PrintMessage.format] <;> decide +kernel

inductive PrintCall where
  | cupsFileOpen (filename : CStr) (mode : String)
  | strerror
  | cupsCreateDestJob (title : List UInt8)
  | cupsLastErrorString
  | cupsStartDestDocument (jobId : Int) (docname : List UInt8) (format : String) (last : Bool)
  | cupsFileRead (fp : CupsFile) (size : Nat)
  | cupsWriteRequestData (buffer : List UInt8)
  | cupsFileClose (fp : CupsFile)
  | cupsFinishDestDocument
  | printf (m : PrintMessage)

abbrev PrintAnswer : PrintCall → Type
  | .cupsFileOpen _ _ => Option CupsFile
  | .strerror => CStr
  | .cupsCreateDestJob _ => CreatedJob
  | .cupsLastErrorString => Option CStr
  | .cupsStartDestDocument _ _ _ _ => Int
  | .cupsFileRead _ _ => FileRead
  | .cupsWriteRequestData _ => Int
  | .cupsFileClose _ => Unit
  | .cupsFinishDestDocument => Int
  | .printf _ => Unit

/-- `printFile` never stops but by returning. -/
abbrev PrintProg := Prog PrintCall PrintAnswer Empty

/-! ## The program -/

/-- `IPP_STATUS_OK_IGNORED_OR_SUBSTITUTED`. -/
def ippStatusOkIgnoredOrSubstituted : Int := 1

/-- `HTTP_STATUS_CONTINUE`. -/
def httpStatusContinue : Int := 100

/-- `CUPS_FORMAT_AUTO`. -/
def cupsFormatAuto : String := "application/octet-stream"

/-- `'/'`. -/
def slash : UInt8 := 0x2f

/-- `title`: what follows the last slash. -/
def jobTitle (filename : CStr) : List UInt8 :=
  match strrchr filename.bytes slash with
  | some i => filename.bytes.drop (i + 1)
  | none => filename.bytes

/-- An error of CUPS, with its last error string. -/
def printCupsError (message : Option CStr → PrintMessage) : PrintProg Unit := do
  let error : Option CStr ← Prog.perform PrintCall.cupsLastErrorString
  Prog.perform (PrintCall.printf (message error))

/-- One turn of the loop over `buffer`; it is left at the end of the file, on a read error, and by
    the `break` after a write that failed. -/
def writeTurn (fp : CupsFile) : PrintProg (Unit ⊕ Unit) := do
  let read : FileRead ← Prog.perform (PrintCall.cupsFileRead fp 32768)
  if 0 < read.count then do
    let status : Int ← Prog.perform (PrintCall.cupsWriteRequestData read.bytes)
    if status ≠ httpStatusContinue then do
      printCupsError .unableToWriteData
      pure (.inl ())
    else pure (.inr ())
  else pure (.inl ())

/-- At most `n` turns. -/
def writeLoop (fp : CupsFile) (n : ℕ) : PrintProg (Unit ⊕ Unit) :=
  Prog.iterate (fun _ => writeTurn fp) n ()

/-- After the loop: the file is closed and the document finished. -/
def finishDocument (fp : CupsFile) : PrintProg Unit := do
  let _ ← Prog.perform (PrintCall.cupsFileClose fp)
  let status : Int ← Prog.perform PrintCall.cupsFinishDestDocument
  if ippStatusOkIgnoredOrSubstituted < status then printCupsError .unableToSendDocument
  else Prog.perform (PrintCall.printf .jobQueued)

/-- `printFile`. -/
def printFile (filename : CStr) (n : ℕ) : PrintProg (Option Unit) := do
  let fp : Option CupsFile ← Prog.perform (PrintCall.cupsFileOpen filename "r")
  match fp with
  | none => do
    let error : CStr ← Prog.perform PrintCall.strerror
    let _ ← Prog.perform (PrintCall.printf (.unableToOpen filename error))
    pure (some ())
  | some fp => do
    let title := jobTitle filename
    let created : CreatedJob ← Prog.perform (PrintCall.cupsCreateDestJob title)
    if ippStatusOkIgnoredOrSubstituted < created.status then do
      printCupsError .unableToCreateJob
      let _ ← Prog.perform (PrintCall.cupsFileClose fp)
      pure (some ())
    else do
      let _ ← Prog.perform (PrintCall.printf (.createdJobId created.jobId))
      let started : Int ←
        Prog.perform (PrintCall.cupsStartDestDocument created.jobId title cupsFormatAuto true)
      if started ≠ httpStatusContinue then do
        printCupsError .unableToSendDocument
        let _ ← Prog.perform (PrintCall.cupsFileClose fp)
        pure (some ())
      else do
        let left ← writeLoop fp n
        match left with
        | .inr _ => pure none
        | .inl _ => do
          finishDocument fp
          pure (some ())

end OlegPrinter.Examples
