/-
  What the polling loop of `test_attr.c` may say about a job.

  `completed_seen`: in every run, against any scheduler, that a job is completed is said of the job
  that was submitted, and as long as no poll has failed only after a poll that returned it in
  the state COMPLETED, or did not return it at all: a job that is no longer listed counts
  as completed. `neverInvents_false`: so it is said of a job that no poll ever returned.
-/
import OlegPrinter.Examples.TestAttr

namespace OlegPrinter.Examples

open CLib

abbrev JobTrace := List (Event JobAnswer)

/-- What the polls returned, in order. -/
def polls (tr : JobTrace) : List Polled :=
  tr.filterMap fun e =>
    match e with
    | ⟨.cupsGetJobs _ _ _, polled⟩ => some polled
    | _ => none

/-- The job was submitted. -/
def Submitted (jobId : Int) (tr : JobTrace) : Prop :=
  ∃ name filename title, (⟨.cupsPrintFile name filename title, jobId⟩ : Event JobAnswer) ∈ tr

/-- A poll returned the job in the state COMPLETED. -/
def PolledCompleted (jobId : Int) (tr : JobTrace) : Prop :=
  ∃ polled ∈ polls tr, ∃ job ∈ polled.list, job.id = jobId ∧ job.state = JobState.completed.code

/-- A poll returned jobs, and not this one. -/
def PolledGone (jobId : Int) (tr : JobTrace) : Prop :=
  ∃ jobs, Polled.found jobs ∈ polls tr ∧ ∀ job ∈ jobs, job.id ≠ jobId

/-- No poll failed. -/
def PollsSucceed (tr : JobTrace) : Prop := ∀ polled ∈ polls tr, ∃ jobs, polled = .found jobs

/-- What a call presupposes of the calls before it: a job that is said to be completed was
    submitted, and unless a poll failed one of them returned it completed, or without it. -/
def Justified (tr : JobTrace) : JobCall → Prop
  | .printf (.is .completed jobId) =>
    Submitted jobId tr ∧ (PollsSucceed tr → PolledCompleted jobId tr ∨ PolledGone jobId tr)
  | _ => True

theorem polls_append (tr tr' : JobTrace) : polls (tr ++ tr') = polls tr ++ polls tr' :=
  List.filterMap_append

theorem Submitted.append {jobId : Int} {tr : JobTrace} (h : Submitted jobId tr) (tr' : JobTrace) :
    Submitted jobId (tr ++ tr') := by
  obtain ⟨name, filename, title, hmem⟩ := h
  exact ⟨name, filename, title, List.mem_append_left _ hmem⟩

theorem mem_polls_append {polled : Polled} {tr : JobTrace} (h : polled ∈ polls tr) (tr' : JobTrace) :
    polled ∈ polls (tr ++ tr') := by
  rw [polls_append]
  exact List.mem_append_left _ h

/-! ## The program -/

/-- What is shown of the state after a poll follows from that poll. -/
theorem obeys_showState {jobId : Int} {tr : JobTrace} {polled : Polled}
    (hsubmitted : Submitted jobId tr) (hpolled : polled ∈ polls tr) :
    (showState jobId (findState jobId polled)).Obeys (.past Justified)
      (fun _ tr' => Submitted jobId tr') tr := by
  unfold showState
  cases hswitch : jobSwitch (findState jobId polled) with
  | none => exact Prog.obeys_pure hsubmitted
  | some state =>
    refine Prog.obeys_perform ?_ fun _ => hsubmitted.append _
    cases state with
    | completed =>
      refine ⟨hsubmitted, fun hsucceed => ?_⟩
      obtain ⟨jobs, rfl⟩ := hsucceed polled hpolled
      rcases findState_completed (jobSwitch_code hswitch).symm with ⟨job, hjob, hcompleted⟩ | hgone
      · exact Or.inl ⟨_, hpolled, job, hjob, hcompleted⟩
      · exact Or.inr ⟨jobs, hpolled, hgone⟩
    | _ => trivial

/-- One turn. -/
theorem obeys_poll (name : CStr) {jobId : Int} {tr : JobTrace} (h : Submitted jobId tr) :
    (poll name jobId).Obeys (.past Justified) (fun _ tr' => Submitted jobId tr') tr := by
  unfold poll
  refine Prog.obeys_call trivial fun polled => Prog.obeys_call trivial fun _ =>
    Prog.obeys_call trivial fun _ => Prog.obeys_bind ?_
  have hpolled : polled ∈ polls (tr ++ [⟨.cupsGetJobs name 1 cupsWhichjobsAll, polled⟩]) := by
    rw [polls_append]
    exact List.mem_append_right _ (List.mem_singleton.mpr rfl)
  refine Prog.obeys_mono ?_ (obeys_showState (((h.append _).append _).append _)
    (mem_polls_append (mem_polls_append hpolled _) _))
  intro _ tr' hsubmitted
  split_ifs
  · exact Prog.obeys_call trivial fun _ => Prog.obeys_pure (hsubmitted.append _)
  · exact Prog.obeys_pure hsubmitted

/-- The whole branch: that the job was submitted is what the loop keeps. -/
theorem obeys_monitor (name filename : CStr) (n : ℕ) :
    (monitor name filename n).Obeys (.past Justified) (fun _ _ => True) [] := by
  unfold monitor pollLoop
  refine Prog.obeys_call trivial fun jobId => Prog.obeys_call trivial fun _ => ?_
  refine Prog.obeys_iterate (fun _ _ tr => Submitted jobId tr) (fun _ _ _ => trivial) ?_ n ?_
  · intro _ jobState tr hsubmitted
    split_ifs
    · exact Prog.obeys_bind (Prog.obeys_mono (fun _ _ h => Prog.obeys_pure h)
        (obeys_poll name hsubmitted))
    · exact Prog.obeys_pure trivial
  · exact ⟨name, filename, "Test print", by simp [Protocol.past]⟩

/-! ## Runs -/

/-- Each time a job is said to be completed, the calls before justify it. -/
def CompletionsJustified (tr : JobTrace) : Prop :=
  ∀ pre post m, tr = pre ++ ⟨.printf m, ()⟩ :: post → m.format = "Job %d is completed.\n" →
    ∃ jobId, m = .is .completed jobId ∧ Submitted jobId pre ∧
      (PollsSucceed pre → PolledCompleted jobId pre ∨ PolledGone jobId pre)

/-- A job is said to be completed only if it was submitted, and, while no poll has failed, only if a
    poll returned it completed, or returned without it. -/
theorem completed_seen (name filename : CStr) (n : ℕ) {H σ : Type}
    (h : Handler JobCall JobAnswer H σ) (s : σ) :
    CompletionsJustified ((monitor name filename n).run h s).trace := by
  intro pre post m htrace hformat
  obtain ⟨jobId, rfl⟩ := (format_completed_iff m).mp hformat
  obtain ⟨hallows, -⟩ := (obeys_monitor name filename n).run h s
  rw [htrace] at hallows
  have hlegal := Protocol.legal_of_allows _ hallows
  rw [Protocol.past_after] at hlegal
  exact ⟨jobId, rfl, hlegal⟩

/-- Each time a job is said to be completed, a poll has returned it so. -/
def NeverInvents (tr : JobTrace) : Prop :=
  ∀ pre post jobId, tr = pre ++ ⟨.printf (.is .completed jobId), ()⟩ :: post →
    PolledCompleted jobId pre

/-- A scheduler that takes the job, and then lists no jobs. -/
def forgetful : (c : JobCall) → JobAnswer c
  | .cupsPrintFile _ _ _ => (7 : Int)
  | .cupsGetJobs _ _ _ => .found []
  | .cupsFreeJobs _ => ()
  | .printf _ => ()
  | .sleep _ => ()

theorem neverInvents_false :
    ¬ ∀ (name filename : CStr) (n : ℕ) (h : Handler JobCall JobAnswer Empty Unit) (s : Unit),
      NeverInvents ((monitor name filename n).run h s).trace := by
  intro h
  obtain ⟨polled, hpolled, job, hjob, -⟩ := h (CStr.lit "p") (CStr.lit "f") 1
    (Handler.answering forgetful) ()
    [⟨.cupsPrintFile (CStr.lit "p") (CStr.lit "f") "Test print", (7 : Int)⟩,
      ⟨.printf (.jobID 7), ()⟩, ⟨.cupsGetJobs (CStr.lit "p") 1 cupsWhichjobsAll, .found []⟩,
      ⟨.printf (.codeOfJob 9), ()⟩, ⟨.cupsFreeJobs 0, ()⟩] [] 7 rfl
  obtain rfl : polled = .found [] := List.mem_singleton.mp hpolled
  cases hjob

end OlegPrinter.Examples
