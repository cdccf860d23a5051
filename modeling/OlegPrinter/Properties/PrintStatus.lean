/-
  The status of `print`.

  `main_succeeds_iff`: a run that ends has succeeded if and only if the arguments were an operation
  (`Operation`) and CUPS has found the destination, the connection and the information it was
  asked for. What comes of the job is not in it. Neither `--set` nor `supported` is such an operation, and
  a destination alone is not.
-/
import OlegPrinter.Examples.PrintMain
import OlegPrinter.Properties.PrintProtocol

namespace OlegPrinter.Examples

open CLib

/-! ## Success -/

/-- A filter, or the default destination. -/
def EnumArg (arg : CStr) : Prop := (filterBit arg).isSome ∨ arg = defaultArg

/-- An operation on a destination, with an argument at least. -/
inductive DestOperation : List CStr → Prop
  | conflicts (arg : CStr) (args : List CStr) : DestOperation (conflictsArg :: arg :: args)
  | print (filename : CStr) (args : List CStr) : DestOperation (printArg :: filename :: args)

/-- The arguments for which there is something to do. -/
inductive Operation : List CStr → Prop
  | help : Operation []
  | enum {args : List CStr} (h : ∀ arg ∈ args, EnumArg arg) : Operation (enumOption :: args)
  | dest {arg : CStr} {args : List CStr} (henum : arg ≠ enumOption) (hset : arg ≠ setOption)
      (h : DestOperation args) : Operation (arg :: args)

/-- CUPS has not found what it was asked for. -/
def missing : Event MainAnswer → Bool
  | ⟨.cupsGetNamedDest _, none⟩ => true
  | ⟨.cupsGetDestWithURI _, none⟩ => true
  | ⟨.cupsConnectDest _ _, none⟩ => true
  | ⟨.cupsCopyDestInfo _ _, none⟩ => true
  | _ => false

/-- It has not, up to here. -/
def noted (q : Bool) (e : Event MainAnswer) : Bool := q || missing e

theorem foldl_noted (q : Bool) (tr : List (Event MainAnswer)) :
    tr.foldl noted q = (q || tr.any missing) := by
  induction tr generalizing q with
  | nil => exact (Bool.or_false q).symm
  | cons e tr ih => rw [List.foldl_cons, ih, List.any_cons, noted, Bool.or_assoc]

section

variable {α : Type} {q : Bool} {stopped : MainStop → Bool → Prop}

/-! ## Output -/

theorem ends_printLine (m : MainMessage) :
    (printLine m).Ends noted (fun _ q' => q' = q) stopped q := by
  refine Prog.ends_call fun _ => Prog.ends_pure ?_
  exact Bool.or_false q

theorem ends_printLines {τ : Type} (message : τ → MainMessage) (ts : List τ) :
    (ts.forM fun t => printLine (message t)).Ends noted (fun _ q' => q' = q) stopped q :=
  Prog.ends_forM (fun t _ hq' => hq' ▸ ends_printLine (message t)) rfl

/-- After something that only prints. -/
theorem ends_after {p : MainProg PUnit} {f : PUnit → MainProg α} {post : α → Bool → Prop}
    (hp : p.Ends noted (fun _ q' => q' = q) stopped q)
    (hf : (f ⟨⟩).Ends noted post stopped q) : (p >>= f).Ends noted post stopped q := by
  refine Prog.ends_bind (Prog.ends_mono ?_ (fun _ _ h => h) hp)
  rintro ⟨⟩ q' rfl
  exact hf

theorem ends_usage {arg : Option CStr} {post : α → Bool → Prop}
    (h : stopped (.exit (if arg.isSome then 1 else 0)) q) :
    (usage arg).Ends noted post stopped q := by
  cases arg with
  | none => exact ends_after (ends_printLines _ _) (Prog.ends_stop h)
  | some arg =>
    exact ends_after (ends_printLine _) (ends_after (ends_printLines _ _) (Prog.ends_stop h))

theorem ends_enumCb (dest : CupsDest) : (enumCb dest).Ends noted (fun _ q' => q' = q) stopped q := by
  unfold enumCb
  cases dest.inst with
  | none => exact ends_after (ends_printLine _) (ends_printLines _ _)
  | some inst => exact ends_after (ends_printLine _) (ends_printLines _ _)

theorem ends_failed (message : Option CStr → MainMessage) :
    (failed message).Ends noted (fun r q' => r = some 1 ∧ q' = q) stopped q := by
  refine Prog.ends_call fun error => ends_after ?_ (Prog.ends_pure ⟨rfl, ?_⟩)
  · exact ends_printLine _
  · exact Bool.or_false q

end

/-! ## Enumeration -/

/-- The loop is left at the end, if every argument is one of those; otherwise the status is 1, unless
    a default destination was missing. -/
theorem ends_enumArgs (args : List CStr) (state : Nat × Nat × Bool) (q : Bool) :
    (enumArgs args state).Ends noted (fun _ q' => q' = q ∧ ∀ arg ∈ args, EnumArg arg)
      (fun x q' => (x = .exit 1 ∧ ¬ ∀ arg ∈ args, EnumArg arg) ∨ x = .nullDest ∧ q' = true) q := by
  induction args generalizing state with
  | nil => exact Prog.ends_pure ⟨rfl, List.forall_mem_nil _⟩
  | cons arg args ih =>
    obtain ⟨type, mask, flag⟩ := state
    have hrest : ∀ state, EnumArg arg → (enumArgs args state).Ends noted
        (fun _ q' => q' = q ∧ ∀ arg' ∈ arg :: args, EnumArg arg')
        (fun x q' => (x = .exit 1 ∧ ¬ ∀ arg' ∈ arg :: args, EnumArg arg') ∨
          x = .nullDest ∧ q' = true) q := by
      intro state harg
      refine Prog.ends_mono ?_ ?_ (ih state)
      · rintro _ q' ⟨hq', hargs⟩
        exact ⟨hq', List.forall_mem_cons.mpr ⟨harg, hargs⟩⟩
      · rintro x q' (⟨hx, hargs⟩ | hx)
        · exact Or.inl ⟨hx, fun h => hargs (List.forall_mem_cons.mp h).2⟩
        · exact Or.inr hx
    rw [enumArgs]
    cases hbit : filterBit arg with
    | some bit => exact hrest _ (Or.inl (by rw [hbit]; rfl))
    | none =>
      dsimp only
      split_ifs with hdefault
      · refine Prog.ends_call fun name => Prog.ends_call fun dest => ?_
        cases dest with
        | none => exact Prog.ends_stop (Or.inr ⟨rfl, Bool.or_true _⟩)
        | some dest =>
          have hq : noted (noted q ⟨.cupsGetDefault, name⟩) ⟨.cupsGetNamedDest name, some dest⟩ = q := by
            simp [noted, missing]
          rw [hq]
          exact ends_after (ends_enumCb dest) (hrest _ (Or.inr hdefault))
      · refine ends_usage (Or.inl ⟨rfl, fun h => ?_⟩)
        rcases (List.forall_mem_cons.mp h).1 with harg | harg
        · rw [hbit] at harg
          cases harg
        · exact hdefault harg

theorem ends_enumDests (args : List CStr) (q : Bool) :
    (enumDests args).Ends noted (fun status q' => status = 0 ∧ q' = q ∧ ∀ arg ∈ args, EnumArg arg)
      (fun x q' => (x = .exit 1 ∧ ¬ ∀ arg ∈ args, EnumArg arg) ∨ x = .nullDest ∧ q' = true) q := by
  refine Prog.ends_bind (Prog.ends_mono ?_ (fun _ _ h => h) (ends_enumArgs args (0, 0, false) q))
  rintro ⟨type, mask, flag⟩ q' ⟨rfl, hargs⟩
  dsimp only
  split_ifs
  · exact Prog.ends_pure ⟨rfl, rfl, hargs⟩
  · refine Prog.ends_call fun dests => ?_
    have hq : noted q' ⟨.cupsEnumDests 5000 type mask, dests⟩ = q' := Bool.or_false q'
    rw [hq]
    refine ends_after ?_ (Prog.ends_pure ⟨rfl, rfl, hargs⟩)
    exact Prog.ends_forM (fun dest q'' hq'' => hq'' ▸ ends_enumCb dest) rfl

/-! ## Operations -/

/-- With `--set` there is no destination, whatever has been set. -/
theorem ends_getDest (arg : CStr) (args : List CStr) (q : Bool) :
    (getDest arg args).Ends noted
      (fun dest q' => match dest with
        | some _ => q' = q ∧ arg ≠ setOption
        | none => q' = true ∨ arg = setOption)
      (fun x _ => x = .exit 1 ∧ arg = setOption) q := by
  unfold getDest
  split_ifs with hset huri
  · refine Prog.ends_bind (Prog.ends_mono (fun _ q' _ => Prog.ends_pure (Or.inr hset))
      (fun _ _ h => h) (?_ : (setDests args).Ends noted (fun _ _ => True) _ q))
    unfold setDests
    cases args with
    | nil => exact ends_usage ⟨rfl, hset⟩
    | cons arg' args =>
      dsimp only
      split_ifs
      · refine Prog.ends_call fun dest => ?_
        split_ifs
        · exact ends_after (ends_printLine _) (Prog.ends_call fun _ => Prog.ends_pure trivial)
        · exact Prog.ends_call fun _ => Prog.ends_pure trivial
      · exact Prog.ends_pure trivial
  · refine Prog.ends_perform fun dest => ?_
    cases dest with
    | none => exact Or.inl (Bool.or_true q)
    | some dest => exact ⟨Bool.or_false q, hset⟩
  · refine Prog.ends_perform fun dest => ?_
    cases dest with
    | none => exact Or.inl (Bool.or_true q)
    | some dest => exact ⟨Bool.or_false q, hset⟩

section

variable {q : Bool} {stopped : MainStop → Bool → Prop}

theorem ends_parseOptions (args : List CStr) (numOptions : Int) :
    (parseOptions args numOptions).Ends noted (fun _ q' => q' = q) stopped q := by
  induction args generalizing numOptions with
  | nil => exact Prog.ends_pure rfl
  | cons arg args ih =>
    refine Prog.ends_call fun numOptions' => ?_
    have hq : noted q ⟨.cupsParseOptions arg numOptions, numOptions'⟩ = q := Bool.or_false q
    rw [hq]
    exact ih numOptions'

theorem ends_listSupported (info : DestInfo) (args : List CStr) (n : ℕ) :
    (listSupported info args n).Ends noted (fun _ q' => q' = q) stopped q := by
  unfold listSupported
  cases showSupported info n args[1]? args[2]? with
  | none => exact Prog.ends_pure rfl
  | some lines => exact ends_after (ends_printLines _ _) (Prog.ends_pure rfl)

end

/-- Whatever becomes of a job, the status is 0. -/
theorem ends_operate (args : List CStr) (n : ℕ) (q : Bool) :
    (operate args n).Ends noted
      (fun r q' => q' = q ∧ DestOperation args ∧ ∀ status, r = some status → status = 0)
      (fun x _ => x ≠ .exit 0 ∧ ¬ DestOperation args) q := by
  cases args with
  | nil => exact Prog.ends_stop ⟨by decide, nofun⟩
  | cons arg args =>
    unfold operate
    dsimp only
    split_ifs with hconflicts hprint
    · obtain ⟨rfl, hargs⟩ := hconflicts
      obtain ⟨arg', args, rfl⟩ := List.exists_cons_of_ne_nil hargs
      refine ends_after (ends_parseOptions _ _) (Prog.ends_pure ⟨rfl, .conflicts _ _, ?_⟩)
      rintro _ ⟨⟩
      rfl
    · subst hprint
      cases args with
      | nil =>
        refine ends_usage ⟨nofun, ?_⟩
        nofun
      | cons filename args =>
        have hprinted : ((printFile filename n).embed MainCall.printFile fun _ answer => answer :
            MainProg (Option Unit)).Ends noted (fun _ q' => q' = q)
            (fun x _ => x ≠ .exit 0 ∧ ¬ DestOperation (printArg :: filename :: args)) q := by
          refine Prog.ends_embed (fun q' c a hq' => ?_) _ rfl
          exact (Bool.or_false q').trans hq'
        refine ends_after (ends_parseOptions _ _)
          (Prog.ends_bind (Prog.ends_mono ?_ (fun _ _ h => h) hprinted))
        rintro printed q' rfl
        refine Prog.ends_pure ⟨rfl, .print _ _, ?_⟩
        intro status hstatus
        obtain ⟨-, -, rfl⟩ := Option.map_eq_some_iff.mp hstatus
        rfl
    · refine ends_usage ⟨nofun, fun h => ?_⟩
      cases h with
      | conflicts arg' args => exact hconflicts ⟨rfl, List.cons_ne_nil _ _⟩
      | print filename args => exact hprint rfl

/-! ## The program -/

/-- The status is 0 exactly if this has been done with everything it takes. -/
def Succeeds (done : Prop) (r : Option Nat) (q : Bool) : Prop :=
  ∀ status, r = some status → (status = 0 ↔ done ∧ q = false)

def Exited (done : Prop) (x : MainStop) (q : Bool) : Prop := x = .exit 0 ↔ done ∧ q = false

theorem ends_failed_main (message : Option CStr → MainMessage) {done : Prop} {q : Bool}
    (h : q = true ∨ ¬ done) : (failed message).Ends noted (Succeeds done) (Exited done) q := by
  refine Prog.ends_mono ?_ (fun _ _ h => h) (ends_failed message)
  rintro _ q' ⟨rfl, rfl⟩ _ ⟨⟩
  refine iff_of_false (by decide) ?_
  rintro ⟨hdone, rfl⟩
  rcases h with h | h
  · cases h
  · exact h hdone

theorem ends_operate_main (args : List CStr) (n : ℕ) :
    (operate args n).Ends noted (Succeeds (DestOperation args)) (Exited (DestOperation args)) false := by
  refine Prog.ends_mono ?_ ?_ (ends_operate args n false)
  · rintro r q ⟨rfl, hdest, hr⟩ status hstatus
    exact iff_of_true (hr status hstatus) ⟨hdest, rfl⟩
  · rintro x q ⟨hx, hdest⟩
    exact iff_of_false hx fun h => hdest h.1

theorem ends_onDest (arg : CStr) (args : List CStr) (n : ℕ) (dest : CupsDest) :
    (onDest arg args n dest).Ends noted (Succeeds (DestOperation args))
      (Exited (DestOperation args)) false := by
  refine Prog.ends_call fun http => ?_
  cases http with
  | none => exact ends_failed_main _ (Or.inl rfl)
  | some http =>
    refine Prog.ends_call fun dinfo => ?_
    cases dinfo with
    | none => exact ends_failed_main _ (Or.inl rfl)
    | some info =>
      dsimp only
      split_ifs
      · refine Prog.ends_bind (Prog.ends_mono ?_ (fun _ _ h => h) (ends_listSupported info args n))
        rintro (_ | _) q rfl
        · exact Prog.ends_pure nofun
        · exact ends_operate_main args n
      · exact ends_operate_main args n

theorem operation_enum {args : List CStr} :
    Operation (enumOption :: args) ↔ ∀ arg ∈ args, EnumArg arg := by
  refine ⟨fun h => ?_, .enum⟩
  cases h with
  | enum h => exact h
  | dest henum _ _ => exact absurd rfl henum

theorem operation_dest {arg : CStr} {args : List CStr} (henum : arg ≠ enumOption) :
    Operation (arg :: args) ↔ arg ≠ setOption ∧ DestOperation args := by
  refine ⟨fun h => ?_, fun h => .dest henum h.1 h.2⟩
  cases h with
  | enum _ => exact absurd rfl henum
  | dest _ hset h => exact ⟨hset, h⟩

/-- How a run of `main` ends. -/
theorem ends_main (args : List CStr) (n : ℕ) :
    (main args n).Ends noted (Succeeds (Operation args)) (Exited (Operation args)) false := by
  cases args with
  | nil =>
    show (usage none).Ends noted (Succeeds (Operation [])) (Exited (Operation [])) false
    apply ends_usage
    exact iff_of_true rfl ⟨.help, rfl⟩
  | cons arg args =>
    unfold main
    dsimp only
    split_ifs with henum
    · subst henum
      rw [operation_enum]
      refine Prog.ends_bind (Prog.ends_mono ?_ ?_ (ends_enumDests args false))
      · rintro status q ⟨rfl, rfl, hargs⟩
        refine Prog.ends_pure ?_
        rintro _ ⟨⟩
        exact iff_of_true rfl ⟨hargs, rfl⟩
      · rintro x q (⟨rfl, hargs⟩ | ⟨rfl, rfl⟩)
        · exact iff_of_false (by decide) fun h => hargs h.1
        · exact iff_of_false (by decide) fun h => absurd h.2 (by decide)
    · rw [operation_dest henum]
      refine Prog.ends_bind (Prog.ends_mono ?_ ?_ (ends_getDest arg args false))
      · rintro (_ | dest) q hq
        · exact ends_failed_main _ (hq.imp_right fun hset h => h.1 hset)
        · obtain ⟨rfl, hset⟩ := hq
          have hdone : (arg ≠ setOption ∧ DestOperation args) = DestOperation args :=
            propext (and_iff_right hset)
          rw [hdone]
          exact ends_onDest arg args n dest
      · rintro x q ⟨rfl, hset⟩
        exact iff_of_false (by decide) fun h => h.1.1 hset

/-- A run has ended with this status. -/
def Exits {H σ : Type} (run : Run MainAnswer MainStop H σ (Option Nat)) (status : Nat) : Prop :=
  run.outcome = .returned (some status) ∨ run.outcome = .stopped (.exit status)

/-- Success is an operation that CUPS had everything for, and says nothing of what came of it. -/
theorem main_succeeds_iff (args : List CStr) (n : ℕ) {H σ : Type}
    (h : Handler MainCall MainAnswer H σ) (s : σ)
    (hended : (∃ status, ((main args n).run h s).outcome = .returned (some status)) ∨
      ∃ x, ((main args n).run h s).outcome = .stopped x) :
    Exits ((main args n).run h s) 0 ↔
      Operation args ∧ ∀ e ∈ ((main args n).run h s).trace, missing e = false := by
  obtain ⟨hreturned, hstopped⟩ := (ends_main args n).run h s
  have hnoted : ((main args n).run h s).trace.foldl noted false = false ↔
      ∀ e ∈ ((main args n).run h s).trace, missing e = false := by
    rw [foldl_noted, Bool.false_or, List.any_eq_false]
    simp only [Bool.not_eq_true]
  rw [← hnoted]
  unfold Exits
  rcases hended with ⟨status, hstatus⟩ | ⟨x, hx⟩
  · rw [← hreturned (some status) hstatus status rfl, hstatus]
    simp
  · have hexited : x = .exit 0 ↔ _ := hstopped x hx
    rw [← hexited, hx]
    simp

/-- Whatever it is asked for, CUPS finds it. -/
def finding : (c : MainCall) → MainAnswer c
  | .cupsGetDefault => some (CStr.lit "p")
  | .cupsGetNamedDest _ => some ⟨CStr.lit "p", none, []⟩
  | .cupsGetDestWithURI _ => some ⟨CStr.lit "p", none, []⟩
  | .cupsEnumDests _ _ _ => []
  | .cupsSetDefaultDest _ _ => ()
  | .cupsConnectDest _ _ => some ⟨0⟩
  | .cupsCopyDestInfo _ _ =>
    some ⟨fun _ => none, fun _ _ => false, fun _ _ => CStr.lit "p", fun _ => CStr.lit "p"⟩
  | .cupsParseOptions _ _ => (0 : Int)
  | .cupsLastErrorString => none
  | .printf _ => ()
  | .printFile (.cupsFileOpen _ _) => none
  | .printFile .strerror => CStr.lit "p"
  | .printFile (.cupsCreateDestJob _) => ⟨0, 1⟩
  | .printFile .cupsLastErrorString => none
  | .printFile (.cupsStartDestDocument _ _ _ _) => (0 : Int)
  | .printFile (.cupsFileRead _ _) => .failed
  | .printFile (.cupsWriteRequestData _) => (0 : Int)
  | .printFile (.cupsFileClose _) => ()
  | .printFile .cupsFinishDestDocument => (0 : Int)
  | .printFile (.printf _) => ()

/-- The default has been set, and the status is not 0. -/
theorem main_succeeds_set : ¬ Exits ((main [setOption, CStr.lit "dest-default", CStr.lit "p"] 0).run
    (Handler.answering finding) ()) 0 := by
  rw [main_succeeds_iff _ 0 (Handler.answering finding) () (Or.inl ⟨1, rfl⟩)]
  rintro ⟨h, -⟩
  cases h with
  | dest _ hset _ => exact hset rfl

end OlegPrinter.Examples
