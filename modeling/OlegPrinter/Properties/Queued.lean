/-
  When `printFile` says that a job is queued.

  * `Submission`: a file, how `cupsFileRead` splits it, and what CUPS answers. The reads deliver
    `chunks` one after the other, and then the end of the file or an error, with the bytes `lost`
    still unread.
  * `run_writeLoop`: the loop sends the chunks up to the first write that fails.
  * `queuedRight_iff`: the output is right exactly when a document that CUPS takes to its end has
    lost no bytes to a read error, and no chunk to a failed write. The loop is left in
    the same way after a failure as at the end of the file.
-/
import OlegPrinter.Examples.PrintFile

namespace OlegPrinter.Examples

open CLib

/-! ## Submissions -/

/-- A file and one way for CUPS to take it. The `i`-th call of `cupsWriteRequestData` returns
    `write i`. -/
structure Submission where
  contents : List UInt8
  opened : Option CupsFile
  create : CreatedJob
  started : Int
  chunks : List (List UInt8)
  readFails : Bool
  lost : List UInt8
  write : ℕ → Int
  finish : Int
  error : CStr
  lastError : Option CStr
  split : chunks.flatten ++ lost = contents
  sizes : ∀ c ∈ chunks, c ≠ [] ∧ c.length ≤ 32768
  eof : readFails = false → lost = []

/-- How far the reads and the writes have come. -/
structure Sending where
  unread : List (List UInt8)
  written : ℕ

namespace Submission

def answer (sub : Submission) (s : Sending) : (c : PrintCall) → PrintAnswer c × Sending
  | .cupsFileOpen _ _ => (sub.opened, s)
  | .strerror => (sub.error, s)
  | .cupsCreateDestJob _ => (sub.create, s)
  | .cupsLastErrorString => (sub.lastError, s)
  | .cupsStartDestDocument _ _ _ _ => (sub.started, s)
  | .cupsFileRead _ _ =>
    match s.unread with
    | c :: cs => (.got c, { s with unread := cs })
    | [] => (if sub.readFails then .failed else .got [], s)
  | .cupsWriteRequestData _ => (sub.write s.written, { s with written := s.written + 1 })
  | .cupsFileClose _ => ((), s)
  | .cupsFinishDestDocument => (sub.finish, s)
  | .printf _ => ((), s)

abbrev run {α : Type} (sub : Submission) (p : PrintProg α) (s : Sending) :
    Run PrintAnswer Empty Empty Sending α :=
  p.run (Handler.total sub.answer) s

/-- A run of `printFile`. -/
def printed (sub : Submission) (filename : CStr) (n : ℕ) :
    Run PrintAnswer Empty Empty Sending (Option Unit) :=
  sub.run (printFile filename n) ⟨sub.chunks, 0⟩

/-- CUPS takes the document to its end. -/
def Finishes (sub : Submission) : Prop :=
  sub.opened ≠ none ∧ sub.create.status ≤ ippStatusOkIgnoredOrSubstituted ∧
    sub.started = httpStatusContinue ∧ sub.finish ≤ ippStatusOkIgnoredOrSubstituted

end Submission

/-! ## What a run prints and sends -/

abbrev PrintTrace := List (Event PrintAnswer)

/-- `Job queued.` is printed. -/
def SaysQueued (tr : PrintTrace) : Prop := PrintCall.printf .jobQueued ∈ tr.map Sigma.fst

/-- A text is printed that begins with `Unable to`. -/
def SaysError (tr : PrintTrace) : Prop :=
  ∃ m, PrintCall.printf m ∈ tr.map Sigma.fst ∧ ascii "Unable to " <+: ascii m.format

theorem saysError_of_mem {tr : PrintTrace} {m : PrintMessage} (hm : PrintCall.printf m ∈ tr.map Sigma.fst)
    (herror : m.isError = true) : SaysError tr := ⟨m, hm, (isError_iff m).mp herror⟩

/-- The bytes of the writes that were accepted, in order. -/
def acceptedBytes (tr : PrintTrace) : List UInt8 :=
  tr.flatMap fun e =>
    match e with
    | ⟨.cupsWriteRequestData buffer, status⟩ => if status = httpStatusContinue then buffer else []
    | _ => []

/-- The job was created, its document started, sent whole and finished. -/
structure SentWhole (contents : List UInt8) (tr : PrintTrace) : Prop where
  created : ∃ title job, (⟨.cupsCreateDestJob title, job⟩ : Event PrintAnswer) ∈ tr ∧
    job.status ≤ ippStatusOkIgnoredOrSubstituted
  started : ∃ jobId docname format last,
    (⟨.cupsStartDestDocument jobId docname format last, httpStatusContinue⟩ : Event PrintAnswer) ∈ tr
  accepted : acceptedBytes tr = contents
  finished : ∃ status, (⟨.cupsFinishDestDocument, status⟩ : Event PrintAnswer) ∈ tr ∧
    status ≤ ippStatusOkIgnoredOrSubstituted

/-- A run that ends has sent the file whole, or says so. -/
def QueuedRight (filename : CStr) (sub : Submission) : Prop :=
  ∃ n, (sub.printed filename n).outcome = .returned (some ()) ∧
    (SentWhole sub.contents (sub.printed filename n).trace ∨
      ¬ SaysQueued (sub.printed filename n).trace ∧ SaysError (sub.printed filename n).trace)

/-! ## The loop -/

/-- The chunks up to the first write that fails, where `k` writes came before. -/
def acceptedFrom (write : ℕ → Int) : ℕ → List (List UInt8) → List (List UInt8)
  | _, [] => []
  | k, c :: cs => if write k = httpStatusContinue then c :: acceptedFrom write (k + 1) cs else []

/-- What is left of them is empty exactly when no write fails. -/
theorem acceptedFrom_append (write : ℕ → Int) (k : ℕ) (chunks : List (List UInt8)) :
    ∃ rest, acceptedFrom write k chunks ++ rest = chunks ∧
      (rest = [] ↔ ∀ i < chunks.length, write (k + i) = httpStatusContinue) := by
  induction chunks generalizing k with
  | nil => exact ⟨[], rfl, by simp⟩
  | cons c cs ih =>
    obtain ⟨rest, happend, hrest⟩ := ih (k + 1)
    unfold acceptedFrom
    by_cases hwrite : write k = httpStatusContinue
    · rw [if_pos hwrite]
      refine ⟨rest, by rw [List.cons_append, happend], ?_⟩
      rw [hrest, List.length_cons, Nat.forall_lt_succ_left]
      simp [hwrite, Nat.add_assoc, Nat.add_comm 1]
    · rw [if_neg hwrite]
      refine ⟨c :: cs, rfl, iff_of_false (by simp) fun hall => hwrite ?_⟩
      exact hall 0 (by simp)

variable (sub : Submission) (fp : CupsFile)

/-- With nothing left to read the loop is left, whether the file ended or the read failed. -/
theorem run_writeTurn_nil (k : ℕ) :
    ∃ read, sub.run (writeTurn fp) ⟨[], k⟩ =
      ⟨.returned (.inl ()), [⟨.cupsFileRead fp 32768, read⟩], ⟨[], k⟩⟩ := by
  unfold Submission.run writeTurn
  cases hfails : sub.readFails with
  | true => exact ⟨.failed, by simp [Submission.answer, FileRead.count, hfails]⟩
  | false => exact ⟨.got [], by simp [Submission.answer, FileRead.count, hfails]⟩

/-- A chunk is read and written; the loop goes on if the write is accepted. -/
theorem run_writeTurn_accepted {c : List UInt8} (cs : List (List UInt8)) (hc : c ≠ []) {k : ℕ}
    (hwrite : sub.write k = httpStatusContinue) :
    sub.run (writeTurn fp) ⟨c :: cs, k⟩ =
      ⟨.returned (.inr ()), [⟨.cupsFileRead fp 32768, .got c⟩,
        ⟨.cupsWriteRequestData c, httpStatusContinue⟩], ⟨cs, k + 1⟩⟩ := by
  unfold Submission.run writeTurn
  have hlen := List.length_pos_iff.mpr hc
  simp [Submission.answer, FileRead.count, FileRead.bytes, hlen, hwrite]

theorem run_writeTurn_refused {c : List UInt8} (cs : List (List UInt8)) (hc : c ≠ []) {k : ℕ}
    (hwrite : sub.write k ≠ httpStatusContinue) :
    sub.run (writeTurn fp) ⟨c :: cs, k⟩ =
      ⟨.returned (.inl ()), [⟨.cupsFileRead fp 32768, .got c⟩,
        ⟨.cupsWriteRequestData c, sub.write k⟩, ⟨.cupsLastErrorString, sub.lastError⟩,
        ⟨.printf (.unableToWriteData sub.lastError), ()⟩], ⟨cs, k + 1⟩⟩ := by
  unfold Submission.run writeTurn printCupsError
  have hlen := List.length_pos_iff.mpr hc
  simp [Submission.answer, FileRead.count, FileRead.bytes, hlen, hwrite]

theorem saysQueued_append (tr tr' : PrintTrace) :
    SaysQueued (tr ++ tr') ↔ SaysQueued tr ∨ SaysQueued tr' := by
  unfold SaysQueued
  rw [List.map_append, List.mem_append]

theorem acceptedBytes_append (tr tr' : PrintTrace) :
    acceptedBytes (tr ++ tr') = acceptedBytes tr ++ acceptedBytes tr' := List.flatMap_append

/-- The loop says nothing about a queued job. It is left within one turn more than there are
    chunks, and then the chunks before the first failed write have been accepted. -/
theorem run_writeLoop (n k : ℕ) {unread : List (List UInt8)} (hne : ∀ c ∈ unread, c ≠ []) :
    ∃ left tr s, sub.run (writeLoop fp n) ⟨unread, k⟩ = ⟨.returned left, tr, s⟩ ∧
      ¬ SaysQueued tr ∧ (unread.length < n → left = .inl ()) ∧
      (left = .inl () → acceptedBytes tr = (acceptedFrom sub.write k unread).flatten) := by
  induction n generalizing k unread with
  | zero =>
    exact ⟨.inr (), [], ⟨unread, k⟩, rfl, by simp [SaysQueued], nofun, nofun⟩
  | succ n ih =>
    cases unread with
    | nil =>
      obtain ⟨read, hb⟩ := run_writeTurn_nil sub fp k
      refine ⟨.inl (), _, _, Prog.run_iterate_left hb n, ?_, fun _ => rfl, fun _ => rfl⟩
      simp [SaysQueued]
    | cons c cs =>
      have hc := hne c (List.mem_cons_self ..)
      unfold acceptedFrom
      by_cases hwrite : sub.write k = httpStatusContinue
      · obtain ⟨left, tr, s, hrun, hsays, hleft, haccepted⟩ :=
          ih (k + 1) fun d hd => hne d (List.mem_cons_of_mem _ hd)
        have hb := run_writeTurn_accepted sub fp cs hc hwrite
        have hloop := (Prog.run_iterate_right (t := ()) hb n).trans (congrArg (Run.after _) hrun)
        refine ⟨left, _, s, hloop, ?_, ?_, ?_⟩
        · rw [saysQueued_append, not_or]
          exact ⟨by simp [SaysQueued], hsays⟩
        · intro hlen
          exact hleft (by simpa using hlen)
        · intro hinl
          rw [acceptedBytes_append, haccepted hinl, if_pos hwrite]
          simp [acceptedBytes]
      · have hb := run_writeTurn_refused sub fp cs hc hwrite
        refine ⟨.inl (), _, _, Prog.run_iterate_left hb n, ?_, fun _ => rfl, fun _ => ?_⟩
        · simp [SaysQueued]
        · rw [if_neg hwrite]
          simp [acceptedBytes, hwrite]

/-- The accepted chunks are the whole file exactly when nothing is lost and no write fails. -/
theorem flatten_acceptedFrom_iff :
    (acceptedFrom sub.write 0 sub.chunks).flatten = sub.contents ↔
      sub.lost = [] ∧ ∀ i < sub.chunks.length, sub.write i = httpStatusContinue := by
  obtain ⟨rest, happend, hrest⟩ := acceptedFrom_append sub.write 0 sub.chunks
  have hcontents : sub.contents =
      (acceptedFrom sub.write 0 sub.chunks).flatten ++ (rest.flatten ++ sub.lost) := by
    rw [← sub.split, ← List.append_assoc, ← List.flatten_append, happend]
  have hflatten : rest.flatten = [] ↔ rest = [] := by
    refine ⟨fun h => ?_, fun h => h ▸ rfl⟩
    cases rest with
    | nil => rfl
    | cons c cs =>
      have hc : c ∈ sub.chunks := happend ▸ List.mem_append_right _ (List.mem_cons_self ..)
      exact absurd (List.append_eq_nil_iff.mp h).1 (sub.sizes c hc).1
  rw [hcontents, eq_comm, List.append_right_eq_self, List.append_eq_nil_iff, hflatten, hrest]
  simp only [Nat.zero_add]
  exact and_comm

/-! ## Whole runs -/

/-- The calls up to the document's start. -/
def startTrace (filename : CStr) : PrintTrace :=
  [⟨.cupsFileOpen filename "r", some fp⟩, ⟨.cupsCreateDestJob (jobTitle filename), sub.create⟩,
    ⟨.printf (.createdJobId sub.create.jobId), ()⟩,
    ⟨.cupsStartDestDocument sub.create.jobId (jobTitle filename) cupsFormatAuto true, sub.started⟩]

/-- The calls after the loop. -/
def finishTrace : PrintTrace :=
  [⟨.cupsFileClose fp, ()⟩, ⟨.cupsFinishDestDocument, sub.finish⟩] ++
    if sub.finish ≤ ippStatusOkIgnoredOrSubstituted then [⟨.printf .jobQueued, ()⟩]
    else [⟨.cupsLastErrorString, sub.lastError⟩,
      ⟨.printf (.unableToSendDocument sub.lastError), ()⟩]

theorem run_finishDocument (s : Sending) :
    sub.run (finishDocument fp) s = ⟨.returned (), finishTrace sub fp, s⟩ := by
  unfold Submission.run finishDocument printCupsError finishTrace
  by_cases hfinish : sub.finish ≤ ippStatusOkIgnoredOrSubstituted
  · simp [Submission.answer, Prog.perform_eq, hfinish, not_lt.mpr hfinish]
  · simp [Submission.answer, Prog.perform_eq, hfinish, not_le.mp hfinish]

section

variable {fp} (filename : CStr) (n : ℕ)

theorem printed_unopened (h : sub.opened = none) :
    sub.printed filename n = ⟨.returned (some ()), [⟨.cupsFileOpen filename "r", none⟩,
      ⟨.strerror, sub.error⟩, ⟨.printf (.unableToOpen filename sub.error), ()⟩],
      ⟨sub.chunks, 0⟩⟩ := by
  unfold Submission.printed printFile
  simp [Submission.answer, h]

theorem printed_uncreated (h : sub.opened = some fp)
    (hc : ippStatusOkIgnoredOrSubstituted < sub.create.status) :
    sub.printed filename n = ⟨.returned (some ()), [⟨.cupsFileOpen filename "r", some fp⟩,
      ⟨.cupsCreateDestJob (jobTitle filename), sub.create⟩, ⟨.cupsLastErrorString, sub.lastError⟩,
      ⟨.printf (.unableToCreateJob sub.lastError), ()⟩, ⟨.cupsFileClose fp, ()⟩],
      ⟨sub.chunks, 0⟩⟩ := by
  unfold Submission.printed printFile printCupsError
  simp [Submission.answer, Prog.perform_eq, h, hc]

theorem printed_unstarted (h : sub.opened = some fp)
    (hc : sub.create.status ≤ ippStatusOkIgnoredOrSubstituted)
    (hs : sub.started ≠ httpStatusContinue) :
    sub.printed filename n = ⟨.returned (some ()), startTrace sub fp filename ++
      [⟨.cupsLastErrorString, sub.lastError⟩,
        ⟨.printf (.unableToSendDocument sub.lastError), ()⟩, ⟨.cupsFileClose fp, ()⟩],
      ⟨sub.chunks, 0⟩⟩ := by
  unfold Submission.printed printFile printCupsError startTrace
  simp [Submission.answer, Prog.perform_eq, h, not_lt.mpr hc, hs]

variable (hopened : sub.opened = some fp)
  (hcreate : sub.create.status ≤ ippStatusOkIgnoredOrSubstituted)
  (hstarted : sub.started = httpStatusContinue)

include hopened hcreate hstarted

theorem printed_started :
    sub.printed filename n =
      ((sub.run (writeLoop fp n) ⟨sub.chunks, 0⟩).andThen fun left s =>
        match left with
        | .inr _ => ⟨.returned none, [], s⟩
        | .inl _ => ⟨.returned (some ()), finishTrace sub fp, s⟩).after
          (startTrace sub fp filename) := by
  have hcreate' := not_lt.mpr hcreate
  unfold Submission.printed printFile startTrace
  simp only [Submission.answer, hopened, hcreate', hstarted, Prog.run_bind, Prog.perform_bind,
    Prog.run_total_call, if_false, ne_eq, not_true_eq_false, Run.after_after, List.cons_append,
    List.nil_append]
  congr 2
  funext left s
  cases left with
  | inl _ => simp [Prog.run_bind, run_finishDocument]
  | inr _ => rfl

/-- A run that is through with the loop goes on to close the file and finish the document. -/
theorem printed_left {tr : PrintTrace} {s : Sending}
    (hloop : sub.run (writeLoop fp n) ⟨sub.chunks, 0⟩ = ⟨.returned (.inl ()), tr, s⟩) :
    sub.printed filename n = ⟨.returned (some ()),
      startTrace sub fp filename ++ (tr ++ finishTrace sub fp), s⟩ := by
  rw [printed_started sub filename n hopened hcreate hstarted, hloop]
  rfl

theorem printed_waiting {tr : PrintTrace} {s : Sending}
    (hloop : sub.run (writeLoop fp n) ⟨sub.chunks, 0⟩ = ⟨.returned (.inr ()), tr, s⟩) :
    (sub.printed filename n).outcome = .returned none := by
  rw [printed_started sub filename n hopened hcreate hstarted, hloop]
  rfl

end

theorem startTrace_queued (filename : CStr) : ¬ SaysQueued (startTrace sub fp filename) := by
  simp [SaysQueued, startTrace]

theorem finishTrace_queued :
    SaysQueued (finishTrace sub fp) ↔ sub.finish ≤ ippStatusOkIgnoredOrSubstituted := by
  unfold SaysQueued finishTrace
  split_ifs with h <;> simp [h]

/-- Nothing but the loop sends bytes. -/
theorem acceptedBytes_printed (filename : CStr) (tr : PrintTrace) :
    acceptedBytes (startTrace sub fp filename ++ (tr ++ finishTrace sub fp)) = acceptedBytes tr := by
  have hfinish : acceptedBytes (finishTrace sub fp) = [] := by
    unfold finishTrace
    split_ifs <;> rfl
  rw [acceptedBytes_append, acceptedBytes_append, hfinish, List.append_nil]
  rfl

/-! ## When the output is right -/

variable {sub} (filename : CStr)

theorem queuedRight_of_error {n : ℕ} {tr : PrintTrace} {s : Sending}
    (hrun : sub.printed filename n = ⟨.returned (some ()), tr, s⟩) (hqueued : ¬ SaysQueued tr)
    (herror : SaysError tr) : QueuedRight filename sub := by
  refine ⟨n, by rw [hrun], Or.inr ?_⟩
  rw [hrun]
  exact ⟨hqueued, herror⟩

/-- A document that CUPS does not take to its end is not said to be queued. -/
theorem queuedRight_of_not_finishes (hf : ¬ sub.Finishes) : QueuedRight filename sub := by
  cases hopened : sub.opened with
  | none =>
    refine queuedRight_of_error filename (printed_unopened sub filename 0 hopened) ?_ ?_
    · simp [SaysQueued]
    · exact saysError_of_mem (m := .unableToOpen filename sub.error) (by simp) rfl
  | some fp =>
    by_cases hcreate : sub.create.status ≤ ippStatusOkIgnoredOrSubstituted
    · by_cases hstarted : sub.started = httpStatusContinue
      · have hfinish : ¬ sub.finish ≤ ippStatusOkIgnoredOrSubstituted := fun h =>
          hf ⟨by simp [hopened], hcreate, hstarted, h⟩
        obtain ⟨left, tr, s, hloop, hsays, hleft, -⟩ :=
          run_writeLoop sub fp (sub.chunks.length + 1) 0 fun c hc => (sub.sizes c hc).1
        obtain rfl := hleft (Nat.lt_succ_self _)
        refine queuedRight_of_error filename
          (printed_left sub filename _ hopened hcreate hstarted hloop) ?_ ?_
        · rw [saysQueued_append, saysQueued_append, finishTrace_queued]
          rintro (h | h | h)
          · exact startTrace_queued sub fp filename h
          · exact hsays h
          · exact hfinish h
        · exact saysError_of_mem (m := .unableToSendDocument sub.lastError) (by simp [finishTrace, hfinish]) rfl
      · refine queuedRight_of_error filename
          (printed_unstarted sub filename 0 hopened hcreate hstarted) ?_ ?_
        · simp [SaysQueued, startTrace]
        · exact saysError_of_mem (m := .unableToSendDocument sub.lastError) (by simp) rfl
    · refine queuedRight_of_error filename
        (printed_uncreated sub filename 0 hopened (not_le.mp hcreate)) ?_ ?_
      · simp [SaysQueued]
      · exact saysError_of_mem (m := .unableToCreateJob sub.lastError) (by simp) rfl

/-- One that it does is right when its chunks were all the file and were all accepted. -/
theorem queuedRight_iff_of_finishes (hf : sub.Finishes) :
    QueuedRight filename sub ↔
      sub.lost = [] ∧ ∀ i < sub.chunks.length, sub.write i = httpStatusContinue := by
  obtain ⟨hne, hcreate, hstarted, hfinish⟩ := hf
  obtain ⟨fp, hopened⟩ := Option.ne_none_iff_exists'.mp hne
  have hchunks : ∀ c ∈ sub.chunks, c ≠ [] := fun c hc => (sub.sizes c hc).1
  rw [← flatten_acceptedFrom_iff sub]
  constructor
  · rintro ⟨n, hreturned, hright⟩
    obtain ⟨left, tr, s, hloop, -, -, haccepted⟩ := run_writeLoop sub fp n 0 hchunks
    cases left with
    | inr _ =>
      rw [printed_waiting sub filename n hopened hcreate hstarted hloop] at hreturned
      cases hreturned
    | inl _ =>
      rw [printed_left sub filename n hopened hcreate hstarted hloop] at hright
      rcases hright with hsent | ⟨hqueued, -⟩
      · rw [← haccepted rfl, ← acceptedBytes_printed sub fp filename]
        exact hsent.accepted
      · refine absurd ?_ hqueued
        rw [saysQueued_append, saysQueued_append, finishTrace_queued]
        exact Or.inr (Or.inr hfinish)
  · intro hwhole
    obtain ⟨left, tr, s, hloop, -, hleft, haccepted⟩ :=
      run_writeLoop sub fp (sub.chunks.length + 1) 0 hchunks
    obtain rfl := hleft (Nat.lt_succ_self _)
    refine ⟨sub.chunks.length + 1, ?_, Or.inl ?_⟩
    · rw [printed_left sub filename _ hopened hcreate hstarted hloop]
    · rw [printed_left sub filename _ hopened hcreate hstarted hloop]
      refine ⟨⟨jobTitle filename, sub.create, by simp [startTrace], hcreate⟩, ?_, ?_,
        ⟨sub.finish, by simp [finishTrace], hfinish⟩⟩
      · exact ⟨sub.create.jobId, jobTitle filename, cupsFormatAuto, true,
          by simp [startTrace, hstarted]⟩
      · rw [acceptedBytes_printed, haccepted rfl, hwhole]

/-- The output is right exactly when a document that CUPS takes to its end has lost no bytes to a
    read error and no chunk to a failed write. -/
theorem queuedRight_iff (sub : Submission) :
    QueuedRight filename sub ↔
      (sub.Finishes →
        sub.lost = [] ∧ ∀ i < sub.chunks.length, sub.write i = httpStatusContinue) := by
  by_cases hf : sub.Finishes
  · rw [imp_iff_right hf]
    exact queuedRight_iff_of_finishes filename hf
  · exact iff_of_true (queuedRight_of_not_finishes filename hf) fun h => absurd h hf

/-- A file of one chunk, whose only write fails with status 500. -/
def truncated : Submission where
  contents := ascii "page"
  opened := some ⟨0⟩
  create := ⟨0, 7⟩
  started := httpStatusContinue
  chunks := [ascii "page"]
  readFails := false
  lost := []
  write := fun _ => 500
  finish := 0
  error := CStr.lit ""
  lastError := none
  split := by decide
  sizes := by decide
  eof := fun _ => rfl

theorem queuedRight_truncated_false :
    ¬ ∀ (filename : CStr) (sub : Submission), QueuedRight filename sub := by
  intro h
  have hfinishes : truncated.Finishes := by
    refine ⟨nofun, ?_, rfl, ?_⟩ <;> decide
  have hwrite := ((queuedRight_iff_of_finishes (CStr.lit "page.pdf") hfinishes).mp
    (h (CStr.lit "page.pdf") truncated)).2 0 (by decide)
  exact absurd hwrite (by decide)

end OlegPrinter.Examples
