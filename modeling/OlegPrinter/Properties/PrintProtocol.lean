/-
  `printFile` keeps to the protocol of CUPS, whatever it is answered.

  * `Progress`: what the calls so far amount to. The file is opened once and closed, a document is
    started once for the job that was created and finished, and what is written is what was read
    last.
  * `Progress.Legal`: which calls that permits. `printProtocol` is the two together.
  * `printFile_obeys`: the program keeps to it. `printFile_protocol` says so about runs, against
    any environment: every call is legal, a run that returns has closed the file and finished
    the document (`counts_of_settled`: as often as they were opened and started), and a run that has
    not has had as many writes accepted as it was given turns.
-/
import OlegPrinter.Examples.PrintFile

namespace OlegPrinter.Examples

open CLib

/-! ## The protocol -/

inductive FileState where
  | unopened
  | failed
  | opened (fp : CupsFile)
  | closed
  deriving DecidableEq

/-- `broken` is a document of which a write failed. -/
inductive DocumentState where
  | unstarted
  | refused
  | started
  | broken
  | finished
  deriving DecidableEq

/-- What the calls so far amount to. `job` is the id of a job that was created; `lastRead` are the
    bytes of a read, if that was the last call and did not fail; `accepted` counts the writes that did not fail. -/
structure Progress where
  file : FileState
  job : Option Int
  document : DocumentState
  lastRead : Option (List UInt8)
  accepted : ℕ

namespace Progress

@[simp] def start : Progress := ⟨.unopened, none, .unstarted, none, 0⟩

/-- What a call does to the file, the job and the document. -/
@[simp] def step (q : Progress) : Event PrintAnswer → Progress
  | ⟨.cupsFileOpen _ _, fp⟩ =>
    { q with file := match fp with
      | some fp => .opened fp
      | none => .failed }
  | ⟨.cupsCreateDestJob _, created⟩ =>
    if ippStatusOkIgnoredOrSubstituted < created.status then q
    else { q with job := some created.jobId }
  | ⟨.cupsStartDestDocument _ _ _ _, started⟩ =>
    { q with document := if started = httpStatusContinue then .started else .refused }
  | ⟨.cupsWriteRequestData _, status⟩ =>
    if status = httpStatusContinue then { q with accepted := q.accepted + 1 }
    else { q with document := .broken }
  | ⟨.cupsFileClose _, _⟩ => { q with file := .closed }
  | ⟨.cupsFinishDestDocument, _⟩ => { q with document := .finished }
  | _ => q

/-- The bytes of a read, if it read any. -/
def readBytes : Event PrintAnswer → Option (List UInt8)
  | ⟨.cupsFileRead _ _, read⟩ => if 0 < read.count then some read.bytes else none
  | _ => none

@[simp] def next (q : Progress) (e : Event PrintAnswer) : Progress :=
  { q.step e with lastRead := readBytes e }

/-- Which calls may follow. -/
@[simp] def Legal (q : Progress) : PrintCall → Prop
  | .cupsFileOpen _ _ => q.file = .unopened
  | .cupsCreateDestJob _ => q.job = none ∧ ∃ fp, q.file = .opened fp
  | .cupsStartDestDocument jobId _ _ _ => q.document = .unstarted ∧ q.job = some jobId
  | .cupsFileRead fp _ => q.file = .opened fp
  | .cupsWriteRequestData bytes => q.document = .started ∧ q.lastRead = some bytes
  | .cupsFileClose fp => q.file = .opened fp
  | .cupsFinishDestDocument => q.document = .started ∨ q.document = .broken
  | _ => True

/-- Nothing is left open: the file is closed unless it was never opened, and the document
    finished unless it was never started. -/
@[simp] def Settled (q : Progress) : Prop :=
  (q.file = .failed ∨ q.file = .closed) ∧
    (q.document = .unstarted ∨ q.document = .refused ∨ q.document = .finished)

end Progress

@[simp] def printProtocol : Protocol PrintCall PrintAnswer Progress := ⟨Progress.next, Progress.Legal⟩

/-! ## What the protocol counts -/

/-- Files opened, and closed. -/
def opens : Event PrintAnswer → ℕ
  | ⟨.cupsFileOpen _ _, some _⟩ => 1
  | _ => 0

def closes : Event PrintAnswer → ℕ
  | ⟨.cupsFileClose _, _⟩ => 1
  | _ => 0

/-- Documents started, and finished. -/
def starts : Event PrintAnswer → ℕ
  | ⟨.cupsStartDestDocument _ _ _ _, started⟩ => if started = httpStatusContinue then 1 else 0
  | _ => 0

def finishes : Event PrintAnswer → ℕ
  | ⟨.cupsFinishDestDocument, _⟩ => 1
  | _ => 0

/-- Files that are open. -/
def Progress.openFiles (q : Progress) : ℕ :=
  match q.file with
  | .opened _ => 1
  | _ => 0

/-- Documents that are started and not finished. -/
def Progress.openDocuments (q : Progress) : ℕ :=
  match q.document with
  | .started | .broken => 1
  | _ => 0

theorem openFiles_next {q : Progress} {e : Event PrintAnswer} (h : q.Legal e.1) :
    opens e + q.openFiles = closes e + (q.next e).openFiles := by
  obtain ⟨c, a⟩ := e
  cases c with
  | cupsFileOpen _ _ =>
    have hfile : q.file = .unopened := h
    cases a with
    | none => simp [opens, closes, Progress.openFiles, hfile]
    | some fp => simp [opens, closes, Progress.openFiles, hfile]
  | cupsFileClose fp =>
    have hfile : q.file = .opened fp := h
    simp [opens, closes, Progress.openFiles, hfile]
  | cupsCreateDestJob _ =>
    by_cases hcreated : ippStatusOkIgnoredOrSubstituted < a.status <;>
      simp [opens, closes, Progress.openFiles, hcreated]
  | cupsWriteRequestData _ =>
    by_cases hstatus : a = httpStatusContinue <;>
      simp [opens, closes, Progress.openFiles, hstatus]
  | _ => rfl

theorem openDocuments_next {q : Progress} {e : Event PrintAnswer} (h : q.Legal e.1) :
    starts e + q.openDocuments = finishes e + (q.next e).openDocuments := by
  obtain ⟨c, a⟩ := e
  cases c with
  | cupsCreateDestJob _ =>
    by_cases hcreated : ippStatusOkIgnoredOrSubstituted < a.status <;>
      simp [starts, finishes, Progress.openDocuments, hcreated]
  | cupsStartDestDocument _ _ _ _ =>
    have hdoc : q.document = .unstarted := h.1
    by_cases hstarted : a = httpStatusContinue <;>
      simp [starts, finishes, Progress.openDocuments, hdoc, hstarted]
  | cupsWriteRequestData _ =>
    have hdoc : q.document = .started := h.1
    by_cases hstatus : a = httpStatusContinue <;>
      simp [starts, finishes, Progress.openDocuments, hdoc, hstatus]
  | cupsFinishDestDocument =>
    have hdoc : q.document = .started ∨ q.document = .broken := h
    rcases hdoc with hdoc | hdoc <;> simp [starts, finishes, Progress.openDocuments, hdoc]
  | _ => rfl

/-- Once settled, as many files have been closed as opened, and as many documents finished as
    started. -/
theorem counts_of_settled {tr : List (Event PrintAnswer)} (h : printProtocol.Allows .start tr)
    (hsettled : (printProtocol.after .start tr).Settled) :
    (tr.map opens).sum = (tr.map closes).sum ∧ (tr.map starts).sum = (tr.map finishes).sum := by
  have hfiles := Protocol.balance opens closes Progress.openFiles
    (fun _ _ hlegal => openFiles_next hlegal) h
  have hdocuments := Protocol.balance starts finishes Progress.openDocuments
    (fun _ _ hlegal => openDocuments_next hlegal) h
  have hnoFile : (printProtocol.after .start tr).openFiles = 0 := by
    unfold Progress.openFiles
    rcases hsettled.1 with hfile | hfile <;> rw [hfile]
  have hnoDocument : (printProtocol.after .start tr).openDocuments = 0 := by
    unfold Progress.openDocuments
    rcases hsettled.2 with hdoc | hdoc | hdoc <;> rw [hdoc]
  rw [hnoFile] at hfiles
  rw [hnoDocument] at hdocuments
  exact ⟨hfiles, hdocuments⟩

/-! ## The program -/

/-- Printing an error of CUPS is always legal, and is no progress. -/
theorem obeys_printCupsError {message : Option CStr → PrintMessage} {post : Unit → Progress → Prop}
    {q : Progress} (h : post () { q with lastRead := none }) :
    (printCupsError message).Obeys printProtocol post q :=
  Prog.obeys_call trivial fun _ => Prog.obeys_perform trivial fun _ => h

/-- A turn reads, and writes what it read. It goes on after a write that was accepted. -/
theorem obeys_writeTurn {fp : CupsFile} {q : Progress} (hfile : q.file = .opened fp)
    (hdoc : q.document = .started) :
    (writeTurn fp).Obeys printProtocol (fun r q' => q'.file = .opened fp ∧
      match r with
      | .inl _ => q'.document = .started ∨ q'.document = .broken
      | .inr _ => q'.document = .started ∧ q'.accepted = q.accepted + 1) q := by
  unfold writeTurn
  refine Prog.obeys_call hfile fun read => ?_
  split_ifs with hcount
  · refine Prog.obeys_call ⟨hdoc, if_pos hcount⟩ fun status => ?_
    by_cases hstatus : status = httpStatusContinue
    · rw [if_neg (not_not.mpr hstatus)]
      refine Prog.obeys_pure ?_
      simp [hstatus, hfile, hdoc]
    · rw [if_pos hstatus]
      refine Prog.obeys_bind (obeys_printCupsError (Prog.obeys_pure ?_))
      simp [hstatus, hfile]
  · exact Prog.obeys_pure ⟨hfile, Or.inl hdoc⟩

/-- The loop: the document stays started until a write fails, and a turn more is a write more. -/
theorem obeys_writeLoop (fp : CupsFile) (n : ℕ) {q : Progress} (hfile : q.file = .opened fp)
    (hdoc : q.document = .started) (haccepted : q.accepted = 0) :
    (writeLoop fp n).Obeys printProtocol (fun r q' =>
      match r with
      | .inl _ => q'.file = .opened fp ∧ (q'.document = .started ∨ q'.document = .broken)
      | .inr _ => n ≤ q'.accepted) q := by
  refine Prog.obeys_iterate
    (fun k _ q' => q'.file = .opened fp ∧ q'.document = .started ∧ q'.accepted + k = n) ?_ ?_ n ?_
  · rintro _ q' ⟨-, -, hk⟩
    exact hk.ge
  · rintro k _ q' ⟨hfile', hdoc', hk⟩
    refine Prog.obeys_mono ?_ (obeys_writeTurn hfile' hdoc')
    rintro (_ | _) q'' ⟨hfile'', hr⟩
    · exact ⟨hfile'', hr⟩
    · exact ⟨hfile'', hr.1, by omega⟩
  · exact ⟨hfile, hdoc, by omega⟩

theorem obeys_finishDocument {fp : CupsFile} {q : Progress} (hfile : q.file = .opened fp)
    (hdoc : q.document = .started ∨ q.document = .broken) :
    (finishDocument fp).Obeys printProtocol (fun _ q' => q'.Settled) q := by
  unfold finishDocument
  refine Prog.obeys_call hfile fun _ => Prog.obeys_call hdoc fun status => ?_
  split_ifs
  · exact obeys_printCupsError ⟨Or.inr rfl, Or.inr (Or.inr rfl)⟩
  · exact Prog.obeys_perform trivial fun _ => ⟨Or.inr rfl, Or.inr (Or.inr rfl)⟩

/-- `printFile` keeps to the protocol. -/
theorem printFile_obeys (filename : CStr) (n : ℕ) :
    (printFile filename n).Obeys printProtocol (fun r q =>
      match r with
      | some _ => q.Settled
      | none => n ≤ q.accepted) .start := by
  unfold printFile
  refine Prog.obeys_call rfl fun fp => ?_
  cases fp with
  | none =>
    refine Prog.obeys_call trivial fun error => Prog.obeys_call trivial fun _ => ?_
    exact Prog.obeys_pure ⟨Or.inl rfl, Or.inl rfl⟩
  | some fp =>
    refine Prog.obeys_call ⟨rfl, fp, rfl⟩ fun created => ?_
    split_ifs with hcreated
    · refine Prog.obeys_bind (obeys_printCupsError (Prog.obeys_call ?_ fun _ => Prog.obeys_pure ?_))
      · simp [hcreated]
      · simp [hcreated]
    · refine Prog.obeys_call trivial fun _ => Prog.obeys_call ?_ fun started => ?_
      · simp [hcreated]
      by_cases hstarted : started = httpStatusContinue
      · rw [if_neg (not_not.mpr hstarted)]
        refine Prog.obeys_bind (Prog.obeys_mono ?_ (obeys_writeLoop fp n ?_ ?_ ?_))
        · rintro (_ | _) q hq
          · exact Prog.obeys_bind (Prog.obeys_mono (fun _ q' hq' => Prog.obeys_pure hq')
              (obeys_finishDocument hq.1 hq.2))
          · exact Prog.obeys_pure hq
        · simp [hcreated]
        · simp [hcreated, hstarted]
        · simp [hcreated]
      · rw [if_pos hstarted]
        refine Prog.obeys_bind
          (obeys_printCupsError (Prog.obeys_call ?_ fun _ => Prog.obeys_pure ?_))
        · simp [hcreated]
        · simp [hcreated, hstarted]

/-- The protocol of CUPS on every path. A run that returns has closed the file it opened, and finished
    the document it started; one that has not returned has had a write accepted in every turn. -/
theorem printFile_protocol (filename : CStr) (n : ℕ) {H σ : Type}
    (h : Handler PrintCall PrintAnswer H σ) (s : σ) :
    let run := (printFile filename n).run h s
    let reached := printProtocol.after .start run.trace
    printProtocol.Allows .start run.trace ∧
      (∀ c e, run.outcome = .halted c e → reached.Legal c) ∧
      (run.outcome = .returned (some ()) → reached.Settled ∧
        (run.trace.map opens).sum = (run.trace.map closes).sum ∧
        (run.trace.map starts).sum = (run.trace.map finishes).sum) ∧
      (run.outcome = .returned none → n ≤ reached.accepted) := by
  obtain ⟨hallows, hhalted, hreturned⟩ := (printFile_obeys filename n).run h s
  refine ⟨hallows, hhalted, fun hr => ?_, hreturned none⟩
  have hsettled := hreturned (some ()) hr
  exact ⟨hsettled, counts_of_settled hallows hsettled⟩

end OlegPrinter.Examples
