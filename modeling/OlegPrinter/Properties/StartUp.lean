/-
  What start-up does with the results of its calls, and which URI it looks up.

  * `startsRight_iff`: start-up fails at the first failing step, and otherwise listens on the
    descriptor of `socket`, exactly when there is no configuration, or when there is a
    destination and `socket` gives 0 or `-1`. Without a destination it never ends, and a
    positive descriptor is taken for an error.
  * `not_uriUnchanged`: whatever the configuration holds, it is not what is looked up. A string is
    looked up between quotes, anything else as its JSON text; and a text that could not be made
    is NULL, for which the server waits.
-/
import OlegPrinter.Server.StartUp

namespace OlegPrinter

open CLib

/-! ## Steps -/

inductive StartStep where
  | readingJSON
  | cupsGetDestWithURI
  | socket
  | bind
  | listen
  deriving DecidableEq

/-- The steps of start-up, in order. -/
def startSteps : List StartStep := [.readingJSON, .cupsGetDestWithURI, .socket, .bind, .listen]

/-- The step a call is; reporting an error is none. -/
def StartCall.step : StartCall → Option StartStep
  | .readingJSON _ => some .readingJSON
  | .cJSONGetErrorPtr => none
  | .fprintf _ _ => none
  | .perror _ => none
  | .cupsGetDestWithURI _ _ => some .cupsGetDestWithURI
  | .socket _ _ _ => some .socket
  | .bind _ _ => some .bind
  | .listen _ _ => some .listen

/-- The steps a run takes. -/
def stepsRun (tr : List (Event StartAnswer)) : List StartStep := tr.filterMap fun e => e.1.step

/-- The result of a step is a failure. That of `listen` is not looked at. -/
def StartResults.fails (r : StartResults) : StartStep → Bool
  | .readingJSON => r.config.isNone
  | .cupsGetDestWithURI => r.dest.isNone
  | .socket => r.socket < 0
  | .bind => r.bind < 0
  | .listen => false

/-- The first step to fail. -/
def StartResults.firstFailing (r : StartResults) : Option StartStep := startSteps.find? r.fails

/-- The steps up to and including one of them. -/
def stepsTo (step : StartStep) : List StartStep := startSteps.takeWhile (· ≠ step) ++ [step]

abbrev StartRun := Run StartAnswer Stop Empty Unit (Option (Int × Dest))

/-- It calls `listen` on a descriptor. -/
def ListensOn (fd : Int) (run : StartRun) : Prop :=
  ∃ e ∈ run.trace, ∃ backlog, e.1 = StartCall.listen fd backlog

/-- It exits with an error, and this step was the last one. -/
def ExitsAt (step : StartStep) (run : StartRun) : Prop :=
  stepsRun run.trace = stepsTo step ∧ ∃ status, status ≠ 0 ∧ run.outcome = .stopped (.exit status)

/-- After finitely many turns start-up has listened on the descriptor of `socket` if no step
    fails, and otherwise has exited with an error at the first step that does. -/
def StartsRight (hooks : Hooks) (r : StartResults) : Prop :=
  ∃ n, match r.firstFailing with
    | none => ListensOn r.socket (r.run (startUp hooks n))
    | some step => ExitsAt step (r.run (startUp hooks n))

variable (hooks : Hooks) (r : StartResults)

/-- Which step fails first, read off the results. -/
theorem firstFailing_eq :
    r.firstFailing =
      if r.config = none then some .readingJSON
      else if r.dest = none then some .cupsGetDestWithURI
      else if r.socket < 0 then some .socket
      else if r.bind < 0 then some .bind
      else none := by
  unfold StartResults.firstFailing startSteps
  cases hc : r.config with
  | none => simp [StartResults.fails, hc]
  | some config =>
    cases hd : r.dest with
    | none => simp [StartResults.fails, hc, hd]
    | some dest =>
      by_cases hs : r.socket < 0 <;> by_cases hb : r.bind < 0 <;>
        simp [StartResults.fails, hc, hd, hs, hb]

/-- A positive descriptor: start-up gives up at `socket`, and nothing fails there. -/
theorem not_startsRight_of_pos {config : CJson} {dest : Dest} (hc : r.config = some config)
    (hd : r.dest = some dest) (hs : 0 < r.socket) : ¬ StartsRight hooks r := by
  rintro ⟨n, hn⟩
  rw [firstFailing_eq, hc, hd, if_neg (by simp), if_neg (by simp), if_neg (by omega)] at hn
  have hruns : ¬ ListensOn r.socket (r.run (startUp hooks n)) ∧
      ¬ ExitsAt .bind (r.run (startUp hooks n)) := by
    cases n with
    | zero =>
      rw [run_startUp_zero hooks hc]
      exact ⟨by simp [ListensOn, lookupTrace], by simp [ExitsAt]⟩
    | succ n =>
      rw [run_startUp_nonzero hooks n hc hd (by omega)]
      refine ⟨by simp [ListensOn, lookupTrace], ?_⟩
      rintro ⟨hsteps, -⟩
      cases hsteps
  by_cases hb : r.bind < 0
  · rw [if_pos hb] at hn
    exact hruns.2 hn
  · rw [if_neg hb] at hn
    exact hruns.1 hn

/-- Start-up does what the results call for exactly when there is no configuration, or when there
    is a destination and no positive descriptor. -/
theorem startsRight_iff :
    StartsRight hooks r ↔ r.config = none ∨ (r.dest ≠ none ∧ r.socket ≤ 0) := by
  cases hc : r.config with
  | none =>
    obtain ⟨format, args, hrun⟩ := run_startUp_noConfig hooks 0 hc
    refine iff_of_true ⟨0, ?_⟩ (Or.inl rfl)
    rw [firstFailing_eq, if_pos hc, hrun]
    exact ⟨rfl, 1, by decide, rfl⟩
  | some config =>
    cases hd : r.dest with
    | none =>
      refine iff_of_false ?_ (by simp)
      rintro ⟨n, hn⟩
      rw [firstFailing_eq, hc, if_neg (by simp), if_pos hd, run_startUp_noDest hooks n hc hd] at hn
      obtain ⟨-, status, -, hexit⟩ := hn
      cases hexit
    | some dest =>
      rcases lt_trichotomy r.socket 0 with hs | hs | hs
      · refine iff_of_true ⟨1, ?_⟩ (Or.inr ⟨by simp, hs.le⟩)
        rw [firstFailing_eq, hc, hd, if_neg (by simp), if_neg (by simp), if_pos hs,
          run_startUp_nonzero hooks 0 hc hd (by omega)]
        exact ⟨rfl, 2, by decide, rfl⟩
      · refine iff_of_true ⟨1, ?_⟩ (Or.inr ⟨by simp, hs.le⟩)
        rw [firstFailing_eq, hc, hd, if_neg (by simp), if_neg (by simp), if_neg (by omega)]
        by_cases hb : r.bind < 0
        · rw [if_pos hb, run_startUp_bind hooks 0 hc hd hs hb]
          exact ⟨rfl, 3, by decide, rfl⟩
        · rw [if_neg hb, run_startUp_listen hooks 0 hc hd hs hb, hs]
          refine ⟨⟨.listen 0 1, (0 : Int)⟩, by simp, 1, rfl⟩
      · refine iff_of_false (not_startsRight_of_pos hooks r hc hd hs) ?_
        rintro (hnone | ⟨-, hle⟩)
        · cases hnone
        · omega

/-- Everything succeeds, and `socket` gives descriptor 3. -/
def usualResults : StartResults := ⟨some .null, none, some ⟨[]⟩, 3, 0, by decide⟩

theorem startsRight_usual_false : ¬ ∀ (hooks : Hooks) (r : StartResults), StartsRight hooks r := by
  intro h
  exact not_startsRight_of_pos Hooks.plenty usualResults rfl rfl (by decide)
    (h Hooks.plenty usualResults)

/-! ## The URI -/

/-- The URIs a run looks up. -/
def lookups (tr : List (Event StartAnswer)) : List (Option (List UInt8)) :=
  tr.filterMap fun e =>
    match e.1 with
    | .cupsGetDestWithURI _ uri => some uri
    | _ => none

/-- With a string as the member `IPP`, that string is what is looked up. Without one no URI is looked
    up, and start-up ends with an error. -/
def UriUnchanged (hooks : Hooks) (r : StartResults) (config : CJson) : Prop :=
  match config.member ippName with
  | some (.string (some s)) => ∃ n, lookups (r.run (startUp hooks n)).trace = [some s.bytes]
  | _ => ∃ n, (∀ uri ∈ lookups (r.run (startUp hooks n)).trace, uri = none) ∧
      ∃ status, status ≠ 0 ∧ (r.run (startUp hooks n)).outcome = .stopped (.exit status)

variable {hooks r}

/-- There is one lookup, of the member as JSON text. -/
theorem lookups_startUp {config : CJson} (hc : r.config = some config) (n : ℕ) :
    lookups (r.run (startUp hooks n)).trace = [destURIStr hooks config] := by
  cases hd : r.dest with
  | none => rw [run_startUp_noDest hooks n hc hd]; rfl
  | some dest =>
    cases n with
    | zero => rw [run_startUp_zero hooks hc]; rfl
    | succ n =>
      by_cases hs : r.socket = 0
      · by_cases hb : r.bind < 0
        · rw [run_startUp_bind hooks n hc hd hs hb]; rfl
        · rw [run_startUp_listen hooks n hc hd hs hb]; rfl
      · rw [run_startUp_nonzero hooks n hc hd hs]; rfl

/-- The text looked up for a string is never that string. -/
theorem destURIStr_ne {config : CJson} {s : CStr}
    (hs : config.member ippName = some (.string (some s))) :
    destURIStr hooks config ≠ some s.bytes := by
  unfold destURIStr
  rcases getObjectItem_eq config ippName with hitem | hitem
  · rw [hitem]
    intro h
    unfold cJSONPrint print at h
    split_ifs at h
    cases h
  · rw [hitem, hs]
    exact cJSONPrint_string_ne hooks s

theorem not_uriUnchanged_of_string {config : CJson} (hc : r.config = some config) {s : CStr}
    (hs : config.member ippName = some (.string (some s))) : ¬ UriUnchanged hooks r config := by
  unfold UriUnchanged
  rw [hs]
  rintro ⟨n, hn⟩
  rw [lookups_startUp hc n] at hn
  exact destURIStr_ne hs (List.singleton_injective hn)

/-- The configured URI never reaches CUPS as it is, given that CUPS finds nothing for a
    URI that is NULL. -/
theorem not_uriUnchanged (hooks : Hooks) (r : StartResults) (config : CJson)
    (hc : r.config = some config) (hnull : destURIStr hooks config = none → r.dest = none) :
    ¬ UriUnchanged hooks r config := by
  by_cases hstring : ∃ s, config.member ippName = some (.string (some s))
  · obtain ⟨s, hs⟩ := hstring
    exact not_uriUnchanged_of_string hc hs
  · unfold UriUnchanged
    split
    · rename_i s hs
      exact absurd ⟨s, hs⟩ hstring
    · rintro ⟨n, hnone, status, -, hexit⟩
      rw [lookups_startUp hc n] at hnone
      have hdest := hnull (hnone _ (List.mem_singleton.mpr rfl))
      rw [run_startUp_noDest hooks n hc hdest] at hexit
      cases hexit

/-- An object whose member `IPP` is `ipp://p`. -/
def printerConfig : CJson :=
  .object (.cons (some ippName) (.string (some (CStr.lit "ipp://p"))) .nil)

/-- A server with that configuration, for whose quoted URI CUPS has no destination. -/
def printerResults : StartResults := ⟨some printerConfig, none, none, 3, 0, by decide⟩

theorem not_uriUnchanged_printer : ¬ UriUnchanged Hooks.plenty printerResults printerConfig :=
  not_uriUnchanged Hooks.plenty printerResults printerConfig rfl fun _ => rfl

theorem uriUnchanged_printer_false :
    ¬ ∀ (hooks : Hooks) (r : StartResults) (config : CJson), r.config = some config →
      (destURIStr hooks config = none → r.dest = none) → UriUnchanged hooks r config := by
  intro h
  have hmember : printerConfig.member ippName = some (.string (some (CStr.lit "ipp://p"))) := rfl
  exact not_uriUnchanged_of_string rfl hmember
    (h Hooks.plenty printerResults printerConfig rfl fun _ => rfl)

end OlegPrinter
