/-
  The calls of a run of `print`, from the arguments to the end of the job.

  `Session` is what they amount to: the destination that was found, the connection to it, whether
  there is information about it, the options so far, and the progress of `printFile` (`Progress`), whose
  protocol is a part of this one. `main_protocol`: whatever the arguments are and however CUPS answers, a
  connection is made to a destination that was found, information is asked for over that connection, and
  nothing is printed before there is any; a run that returns has left no file and no document open.
-/
import OlegPrinter.Examples.PrintMain
import OlegPrinter.Properties.PrintProtocol

namespace OlegPrinter.Examples

open CLib

/-! ## The protocol -/

structure Session where
  dest : Option CupsDest
  http : Option Http
  info : Bool
  numOptions : Int
  printing : Progress

namespace Session

def start : Session := ⟨none, none, false, 0, .start⟩

def next (q : Session) : Event MainAnswer → Session
  | ⟨.cupsGetNamedDest _, dest⟩ => { q with dest := dest }
  | ⟨.cupsGetDestWithURI _, dest⟩ => { q with dest := dest }
  | ⟨.cupsConnectDest _ _, http⟩ => { q with http := http }
  | ⟨.cupsCopyDestInfo _ _, dinfo⟩ => { q with info := dinfo.isSome }
  | ⟨.cupsParseOptions _ _, numOptions⟩ => { q with numOptions := numOptions }
  | ⟨.printFile c, a⟩ => { q with printing := q.printing.next ⟨c, a⟩ }
  | _ => q

/-- Which calls may follow. -/
def Legal (q : Session) : MainCall → Prop
  | .cupsEnumDests _ type mask => q.http = none ∧ type = mask
  | .cupsSetDefaultDest _ dest => q.http = none ∧ q.dest = dest
  | .cupsConnectDest dest _ => q.http = none ∧ q.dest = some dest
  | .cupsCopyDestInfo http dest => q.http = some http ∧ q.dest = some dest ∧ q.info = false
  | .cupsParseOptions _ numOptions => q.info = true ∧ q.printing = .start ∧ q.numOptions = numOptions
  | .printFile c => q.info = true ∧ q.printing.Legal c
  | _ => True

/-- Nothing has been printed, or what has been opened is closed and what was started is finished. -/
def Settled (q : Session) : Prop := q.printing = .start ∨ q.printing.Settled

end Session

def mainProtocol : Protocol MainCall MainAnswer Session := ⟨Session.next, Session.Legal⟩

/-! ## The program -/

section

variable {α : Type} {q : Session}

/-- Output does not matter. -/
theorem obeys_printLine (m : MainMessage) :
    (printLine m).Obeys mainProtocol (fun _ q' => q' = q) q :=
  Prog.obeys_call trivial fun _ => Prog.obeys_pure rfl

theorem obeys_printLines {τ : Type} (message : τ → MainMessage) (ts : List τ) :
    (ts.forM fun t => printLine (message t)).Obeys mainProtocol (fun _ q' => q' = q) q :=
  Prog.obeys_forM (fun t _ hq' => hq' ▸ obeys_printLine (message t)) rfl

theorem obeys_after {p : MainProg PUnit} {f : PUnit → MainProg α} {post : α → Session → Prop}
    (hp : p.Obeys mainProtocol (fun _ q' => q' = q) q) (hf : (f ⟨⟩).Obeys mainProtocol post q) :
    (p >>= f).Obeys mainProtocol post q := by
  refine Prog.obeys_bind (Prog.obeys_mono ?_ hp)
  rintro ⟨⟩ q' rfl
  exact hf

theorem obeys_usage {arg : Option CStr} {post : α → Session → Prop} :
    (usage arg).Obeys mainProtocol post q := by
  cases arg with
  | none => exact obeys_after (obeys_printLines _ _) trivial
  | some arg => exact obeys_after (obeys_printLine _) (obeys_after (obeys_printLines _ _) trivial)

theorem obeys_enumCb (dest : CupsDest) :
    (enumCb dest).Obeys mainProtocol (fun _ q' => q' = q) q := by
  unfold enumCb
  cases dest.inst with
  | none => exact obeys_after (obeys_printLine _) (obeys_printLines _ _)
  | some inst => exact obeys_after (obeys_printLine _) (obeys_printLines _ _)

theorem obeys_failed (message : Option CStr → MainMessage) {post : Option Nat → Session → Prop}
    (h : post (some 1) q) : (failed message).Obeys mainProtocol post q :=
  Prog.obeys_call trivial fun _ => obeys_after (obeys_printLine _) (Prog.obeys_pure h)

/-- The loop looks for a default destination at most; a filter is one in `type` and in `mask`. -/
theorem obeys_enumArgs (args : List CStr) {state : Nat × Nat × Bool} (hhttp : q.http = none)
    (hprinting : q.printing = .start) (hstate : state.1 = state.2.1) :
    (enumArgs args state).Obeys mainProtocol
      (fun state q' => (q'.http = none ∧ q'.printing = .start) ∧ state.1 = state.2.1) q := by
  induction args generalizing q state with
  | nil => exact Prog.obeys_pure ⟨⟨hhttp, hprinting⟩, hstate⟩
  | cons arg args ih =>
    obtain ⟨type, mask, flag⟩ := state
    change type = mask at hstate
    subst hstate
    rw [enumArgs]
    cases filterBit arg with
    | some bit => exact ih hhttp hprinting rfl
    | none =>
      dsimp only
      split_ifs
      · refine Prog.obeys_call trivial fun name => Prog.obeys_call trivial fun dest => ?_
        cases dest with
        | none => trivial
        | some dest => exact obeys_after (obeys_enumCb dest) (ih hhttp hprinting rfl)
      · exact obeys_usage

theorem obeys_enumDests (args : List CStr) :
    (enumDests args).Obeys mainProtocol (fun _ q => q.printing = .start) .start := by
  refine Prog.obeys_bind (Prog.obeys_mono ?_ (obeys_enumArgs args rfl rfl rfl))
  rintro ⟨type, mask, flag⟩ q ⟨⟨hhttp, hprinting⟩, hmask⟩
  dsimp only
  split_ifs
  · exact Prog.obeys_pure hprinting
  · refine Prog.obeys_call ⟨hhttp, hmask⟩ fun dests => ?_
    have hdests : (dests.forM enumCb).Obeys mainProtocol (fun _ q' => q' = q) q :=
      Prog.obeys_forM (fun dest _ hq' => hq' ▸ obeys_enumCb dest) rfl
    exact obeys_after hdests (Prog.obeys_pure hprinting)

/-- A destination that was found is that of the session, and nothing else has begun. -/
theorem obeys_getDest (arg : CStr) (args : List CStr) :
    (getDest arg args).Obeys mainProtocol
      (fun dest q => q.printing = .start ∧
        ∀ dest', dest = some dest' → q = { Session.start with dest := dest }) .start := by
  unfold getDest
  split_ifs
  · refine Prog.obeys_bind (Prog.obeys_mono (fun _ q hq => Prog.obeys_pure ⟨hq, nofun⟩)
      (?_ : (setDests args).Obeys mainProtocol (fun _ q => q.printing = .start) .start))
    unfold setDests
    cases args with
    | nil => exact obeys_usage
    | cons arg' args =>
      dsimp only
      split_ifs
      · refine Prog.obeys_call trivial fun dest => ?_
        split_ifs
        · exact obeys_after (obeys_printLine _)
            (Prog.obeys_call ⟨rfl, rfl⟩ fun _ => Prog.obeys_pure rfl)
        · exact Prog.obeys_call ⟨rfl, rfl⟩ fun _ => Prog.obeys_pure rfl
      · exact Prog.obeys_pure rfl
  · exact Prog.obeys_perform trivial fun dest => ⟨rfl, fun _ _ => rfl⟩
  · exact Prog.obeys_perform trivial fun dest => ⟨rfl, fun _ _ => rfl⟩

theorem obeys_parseOptions (args : List CStr) {numOptions : Int} (hinfo : q.info = true)
    (hprinting : q.printing = .start) (hoptions : q.numOptions = numOptions) :
    (parseOptions args numOptions).Obeys mainProtocol
      (fun _ q' => q'.info = true ∧ q'.printing = .start) q := by
  induction args generalizing q numOptions with
  | nil => exact Prog.obeys_pure ⟨hinfo, hprinting⟩
  | cons arg args ih =>
    exact Prog.obeys_call ⟨hinfo, hprinting, hoptions⟩ fun _ => ih hinfo hprinting rfl

theorem obeys_listSupported (info : DestInfo) (args : List CStr) (n : ℕ) :
    (listSupported info args n).Obeys mainProtocol (fun _ q' => q' = q) q := by
  unfold listSupported
  cases showSupported info n args[1]? args[2]? with
  | none => exact Prog.obeys_pure rfl
  | some lines => exact obeys_after (obeys_printLines _ _) (Prog.obeys_pure rfl)

/-- `printFile` keeps to its protocol here, too. -/
theorem obeys_printFile (filename : CStr) (n : ℕ) (hinfo : q.info = true)
    (hprinting : q.printing = .start) :
    ((printFile filename n).embed MainCall.printFile fun _ answer => answer :
      MainProg (Option Unit)).Obeys mainProtocol
        (fun r q' => r ≠ none → q'.printing.Settled) q := by
  have hobeys := printFile_obeys filename n
  rw [← hprinting] at hobeys
  have hlegal : ∀ (q' : Session) (c : PrintCall), q'.info = true →
      printProtocol.legal q'.printing c → mainProtocol.legal q' (.printFile c) :=
    fun _ _ hinfo' hlegal' => ⟨hinfo', hlegal'⟩
  refine Prog.obeys_mono ?_ (Prog.obeys_embed Session.printing (fun q' => q'.info = true) hlegal
    (fun _ _ _ hinfo' => ⟨hinfo', rfl⟩) hinfo hobeys)
  rintro (_ | ⟨⟩) q' ⟨-, hq'⟩ hr
  · exact absurd rfl hr
  · exact hq'

theorem obeys_operate (args : List CStr) (n : ℕ) (hinfo : q.info = true)
    (hprinting : q.printing = .start) (hoptions : q.numOptions = 0) :
    (operate args n).Obeys mainProtocol (fun r q' => r ≠ none → q'.Settled) q := by
  cases args with
  | nil => trivial
  | cons arg args =>
    unfold operate
    dsimp only
    split_ifs
    · refine Prog.obeys_bind (Prog.obeys_mono ?_ (obeys_parseOptions _ hinfo hprinting hoptions))
      rintro _ q' ⟨-, hprinting'⟩
      exact Prog.obeys_pure fun _ => Or.inl hprinting'
    · cases args with
      | nil => exact obeys_usage
      | cons filename args =>
        refine Prog.obeys_bind (Prog.obeys_mono ?_ (obeys_parseOptions _ hinfo hprinting hoptions))
        rintro _ q' ⟨hinfo', hprinting'⟩
        refine Prog.obeys_bind (Prog.obeys_mono ?_ (obeys_printFile filename n hinfo' hprinting'))
        rintro printed q'' hq''
        refine Prog.obeys_pure fun hr => Or.inr (hq'' fun hnone => hr ?_)
        rw [hnone]
        rfl
    · exact obeys_usage

theorem obeys_onDest (arg : CStr) (args : List CStr) (n : ℕ) (dest : CupsDest) :
    (onDest arg args n dest).Obeys mainProtocol (fun r q' => r ≠ none → q'.Settled)
      { Session.start with dest := some dest } := by
  refine Prog.obeys_call ⟨rfl, rfl⟩ fun http => ?_
  cases http with
  | none => exact obeys_failed _ fun _ => Or.inl rfl
  | some http =>
    refine Prog.obeys_call ⟨rfl, rfl, rfl⟩ fun dinfo => ?_
    cases dinfo with
    | none => exact obeys_failed _ fun _ => Or.inl rfl
    | some info =>
      dsimp only
      split_ifs
      · refine Prog.obeys_bind (Prog.obeys_mono ?_ (obeys_listSupported info args n))
        rintro (_ | _) q' rfl
        · exact Prog.obeys_pure fun h => absurd rfl h
        · exact obeys_operate args n rfl rfl rfl
      · exact obeys_operate args n rfl rfl rfl

end

theorem obeys_main (args : List CStr) (n : ℕ) :
    (main args n).Obeys mainProtocol (fun r q => r ≠ none → q.Settled) .start := by
  cases args with
  | nil =>
    show (usage none).Obeys mainProtocol _ .start
    exact obeys_usage
  | cons arg args =>
    unfold main
    dsimp only
    split_ifs
    · refine Prog.obeys_bind (Prog.obeys_mono ?_ (obeys_enumDests args))
      intro _ q hprinting
      exact Prog.obeys_pure fun _ => Or.inl hprinting
    · refine Prog.obeys_bind (Prog.obeys_mono ?_ (obeys_getDest arg args))
      rintro (_ | dest) q ⟨hprinting, hq⟩
      · exact obeys_failed _ fun _ => Or.inl hprinting
      · rw [hq dest rfl]
        exact obeys_onDest arg args n dest

/-- Every call of a run is legal when it is made, and a run that returns is settled. -/
theorem main_protocol (args : List CStr) (n : ℕ) {H σ : Type}
    (h : Handler MainCall MainAnswer H σ) (s : σ) :
    let run := (main args n).run h s
    let reached := mainProtocol.after .start run.trace
    mainProtocol.Allows .start run.trace ∧
      (∀ c e, run.outcome = .halted c e → reached.Legal c) ∧
      ∀ status, run.outcome = .returned (some status) → reached.Settled := by
  obtain ⟨hallows, hhalted, hreturned⟩ := (obeys_main args n).run h s
  exact ⟨hallows, hhalted, fun status hr => hreturned (some status) hr (Option.some_ne_none _)⟩

end OlegPrinter.Examples
