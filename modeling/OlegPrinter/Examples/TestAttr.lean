/-
  The `print` branch of `test_attr.c`: a job is submitted and then polled until its state is
  STOPPED or a later one.

  `findState` is the search of a turn: the state of the first job with the id, and COMPLETED where
  there is none (the source assigns it before the search). A failed `cupsGetJobs` gives a
  negative count, with which the search looks at no job. `monitor` is the branch, its loop left
  after at most `n` turns. The options are handed on as they are, and are left out.
-/
import OlegPrinter.Lib.Protocol
import OlegPrinter.Lib.Bytes

namespace OlegPrinter.Examples

open CLib

/-! ## Jobs -/

/-- `ipp_jstate_t`. -/
inductive JobState where
  | pending
  | held
  | processing
  | stopped
  | canceled
  | aborted
  | completed
  deriving DecidableEq

def JobState.code : JobState → Int
  | .pending => 3
  | .held => 4
  | .processing => 5
  | .stopped => 6
  | .canceled => 7
  | .aborted => 8
  | .completed => 9

/-- The cases of `switch (job_state)`, in order. -/
def jobStates : List JobState :=
  [.pending, .held, .processing, .stopped, .canceled, .aborted, .completed]

/-- The case taken, if any: there is no default. -/
def jobSwitch (jobState : Int) : Option JobState := jobStates.find? (·.code = jobState)

theorem jobSwitch_code {jobState : Int} {state : JobState} (h : jobSwitch jobState = some state) :
    state.code = jobState := by
  simpa using List.find?_some h

/-- `cups_job_t`, what is used of it. -/
structure CupsJob where
  id : Int
  state : Int
  deriving DecidableEq

/-- What `cupsGetJobs` returns: a count that is negative, or jobs and their number. -/
inductive Polled where
  | failed (count : Int) (negative : count < 0)
  | found (jobs : List CupsJob)
  deriving DecidableEq

/-- `num_jobs`. -/
def Polled.numJobs : Polled → Int
  | .failed count _ => count
  | .found jobs => jobs.length

/-- The jobs the search looks at. -/
def Polled.list : Polled → List CupsJob
  | .failed _ _ => []
  | .found jobs => jobs

/-! ## Calls -/

/-- What the branch prints. -/
inductive JobMessage where
  | jobID (jobId : Int)
  | codeOfJob (jobState : Int)
  | is (state : JobState) (jobId : Int)
  deriving DecidableEq

def JobMessage.format : JobMessage → String
  | .jobID _ => "Job ID: %d\n"
  | .codeOfJob _ => "Code of job: %d\n"
  | .is .pending _ => "Job %d is pending.\n"
  | .is .held _ => "Job %d is held.\n"
  | .is .processing _ => "Job %d is processing.\n"
  | .is .stopped _ => "Job %d is stopped.\n"
  | .is .canceled _ => "Job %d is canceled.\n"
  | .is .aborted _ => "Job %d is aborted.\n"
  | .is .completed _ => "Job %d is completed.\n"

/-- No other message reads as that of a completed job. -/
theorem format_completed_iff (m : JobMessage) :
    m.format = "Job %d is completed.\n" ↔ ∃ jobId, m = .is .completed jobId := by
  cases m with
  | jobID _ => simp [JobMessage.format]
  | codeOfJob _ => simp [JobMessage.format]
  | is state _ => cases state <;> simp [JobMessage.format]

inductive JobCall where
  | cupsPrintFile (name filename : CStr) (title : String)
  | cupsGetJobs (name : CStr) (myjobs whichjobs : Int)
  | cupsFreeJobs (numJobs : Int)
  | printf (m : JobMessage)
  | sleep (seconds : Nat)

abbrev JobAnswer : JobCall → Type
  | .cupsPrintFile _ _ _ => Int
  | .cupsGetJobs _ _ _ => Polled
  | .cupsFreeJobs _ => Unit
  | .printf _ => Unit
  | .sleep _ => Unit

abbrev JobProg := Prog JobCall JobAnswer Empty

/-! ## The program -/

/-- `CUPS_WHICHJOBS_ALL`. -/
def cupsWhichjobsAll : Int := -1

/-- `job_state` after the search. -/
def findState (jobId : Int) (polled : Polled) : Int :=
  match polled.list.find? (·.id = jobId) with
  | some job => job.state
  | none => JobState.completed.code

/-- The `switch` on the current state. -/
def showState (jobId jobState : Int) : JobProg Unit :=
  match jobSwitch jobState with
  | some state => Prog.perform (JobCall.printf (.is state jobId))
  | none => pure ()

/-- The body of the loop. It gives the new `job_state`. -/
def poll (name : CStr) (jobId : Int) : JobProg Int := do
  let polled : Polled ← Prog.perform (JobCall.cupsGetJobs name 1 cupsWhichjobsAll)
  let jobState := findState jobId polled
  let _ ← Prog.perform (JobCall.printf (.codeOfJob jobState))
  let _ ← Prog.perform (JobCall.cupsFreeJobs polled.numJobs)
  showState jobId jobState
  if jobState < JobState.stopped.code then do
    let _ ← Prog.perform (JobCall.sleep 2)
    pure jobState
  else pure jobState

/-- `while (job_state < IPP_JOB_STOPPED)`, at most `n` turns. -/
def pollLoop (name : CStr) (jobId : Int) (n : ℕ) : JobProg (Unit ⊕ Int) :=
  Prog.iterate (fun jobState =>
    if jobState < JobState.stopped.code then do
      let jobState ← poll name jobId
      pure (.inr jobState)
    else pure (.inl ())) n JobState.pending.code

/-- The branch `argv[2] = "print"`. -/
def monitor (name filename : CStr) (n : ℕ) : JobProg (Unit ⊕ Int) := do
  let jobId : Int ← Prog.perform (JobCall.cupsPrintFile name filename "Test print")
  let _ ← Prog.perform (JobCall.printf (.jobID jobId))
  pollLoop name jobId n

/-- A search that ends in COMPLETED found the job so, or did not find it. -/
theorem findState_completed {jobId : Int} {polled : Polled}
    (h : findState jobId polled = JobState.completed.code) :
    (∃ job ∈ polled.list, job.id = jobId ∧ job.state = JobState.completed.code) ∨
      ∀ job ∈ polled.list, job.id ≠ jobId := by
  unfold findState at h
  cases hfind : polled.list.find? (·.id = jobId) with
  | some job =>
    rw [hfind] at h
    exact Or.inl ⟨job, List.mem_of_find?_eq_some hfind, by simpa using List.find?_some hfind, h⟩
  | none =>
    right
    simpa using hfind

end OlegPrinter.Examples
