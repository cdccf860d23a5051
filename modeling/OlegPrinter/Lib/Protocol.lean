/-
  Protocols of calls, and programs that keep to one whatever they are answered.

  A `Protocol` says what the calls so far amount to (`next`) and which calls that permits
  (`legal`). `Protocol.Allows q tr`: every call of the trace `tr` was legal when it was made.

  `Prog.Obeys P post p q`: from `q` on, `p` makes only legal calls, and what the calls amount to when it
  returns satisfies `post`. It is read off the program by its rules, one for each way programs are
  built (`obeys_call`, `obeys_bind`, `obeys_iterate`), and `Obeys.run` is what it says
  about runs: it holds of every run, against any handler.

  `Prog.iterate` is a loop with a bound on its turns: it leaves with a result, or reports the state
  it was still in. `Prog.embed` is a program inside one that makes other calls, too; it obeys
  there what it obeys alone (`obeys_embed`).

  `Prog.Ends next post stopped p q` is about how a program ends, by returning or by stopping, and about
  what its calls have amounted to by then.
-/
import OlegPrinter.Lib.Prog
import Mathlib.Algebra.GroupWithZero.Nat

namespace CLib

/-! ## Loops -/

namespace Prog

variable {C : Type} {A : C → Type} {S H σ ρ τ α β : Type}

/-- Repeat `body`, at most `n` times. A turn leaves the loop with a result, or goes on in a
    new state; after `n` turns the state is reported. -/
def iterate (body : τ → Prog C A S (ρ ⊕ τ)) : ℕ → τ → Prog C A S (ρ ⊕ τ)
  | 0, t => pure (.inr t)
  | n + 1, t => body t >>= fun r =>
    match r with
    | .inl x => pure (.inl x)
    | .inr t' => iterate body n t'

variable {h : Handler C A H σ} {body : τ → Prog C A S (ρ ⊕ τ)}

/-- A turn that leaves the loop is the last one. -/
theorem run_iterate_left {t : τ} {x : ρ} {s s' : σ} {tr : List (Event A)}
    (hb : (body t).run h s = ⟨.returned (.inl x), tr, s'⟩) (n : ℕ) :
    (iterate body (n + 1) t).run h s = ⟨.returned (.inl x), tr, s'⟩ := by
  rw [iterate, run_bind_returned hb]
  simp [Run.after]

/-- Any other turn is followed by the rest of the loop. -/
theorem run_iterate_right {t t' : τ} {s s' : σ} {tr : List (Event A)}
    (hb : (body t).run h s = ⟨.returned (.inr t'), tr, s'⟩) (n : ℕ) :
    (iterate body (n + 1) t).run h s = ((iterate body n t').run h s').after tr := by
  rw [iterate, run_bind_returned hb]

end Prog

/-! ## Protocols -/

/-- What the calls so far amount to, and which calls may follow. -/
structure Protocol (C : Type) (A : C → Type) (Q : Type) where
  next : Q → Event A → Q
  legal : Q → C → Prop

namespace Protocol

variable {C : Type} {A : C → Type} {Q : Type} (P : Protocol C A Q)

/-- What a trace amounts to, from `q` on. -/
def after (q : Q) (tr : List (Event A)) : Q := tr.foldl P.next q

/-- Every call of the trace is legal after those before it. -/
def Allows : Q → List (Event A) → Prop
  | _, [] => True
  | q, e :: tr => P.legal q e.1 ∧ Allows (P.next q e) tr

@[simp] theorem after_nil (q : Q) : P.after q [] = q := rfl

@[simp] theorem after_cons (q : Q) (e : Event A) (tr : List (Event A)) :
    P.after q (e :: tr) = P.after (P.next q e) tr := rfl

/-- A count that legal calls keep in balance: what has come in has gone out, or is in stock. -/
theorem balance {P : Protocol C A Q} (gain loss : Event A → ℕ) (stock : Q → ℕ)
    (hnext : ∀ q e, P.legal q e.1 → gain e + stock q = loss e + stock (P.next q e))
    {q : Q} {tr : List (Event A)} (h : P.Allows q tr) :
    (tr.map gain).sum + stock q = (tr.map loss).sum + stock (P.after q tr) := by
  induction tr generalizing q with
  | nil => rfl
  | cons e tr ih =>
    have hfirst := hnext q e h.1
    have hrest := ih h.2
    simp only [List.map_cons, List.sum_cons, after_cons]
    omega

/-- The legality of a call may depend on all the calls before it. -/
def past (legal : List (Event A) → C → Prop) : Protocol C A (List (Event A)) :=
  ⟨fun tr e => tr ++ [e], legal⟩

theorem past_after (legal : List (Event A) → C → Prop) (tr tr' : List (Event A)) :
    (past legal).after tr tr' = tr ++ tr' := by
  induction tr' generalizing tr with
  | nil => rw [after_nil, List.append_nil]
  | cons e tr' ih => rw [after_cons, ih, List.append_cons]; rfl

/-- The legality of a call in the middle of a trace. -/
theorem legal_of_allows {q : Q} {pre post : List (Event A)} {e : Event A}
    (h : P.Allows q (pre ++ e :: post)) : P.legal (P.after q pre) e.1 := by
  induction pre generalizing q with
  | nil => exact h.1
  | cons d pre ih => exact ih h.2

end Protocol

/-! ## Programs that obey a protocol -/

namespace Prog

variable {C : Type} {A : C → Type} {S H σ ρ τ α β Q : Type}

/-- From `q` on the program makes only legal calls, whatever they are answered, and returns
    in a situation that satisfies `post`. -/
def Obeys (P : Protocol C A Q) (post : α → Q → Prop) : Prog C A S α → Q → Prop
  | .ret a, q => post a q
  | .stop _, _ => True
  | .call c k, q => P.legal q c ∧ ∀ a, (k a).Obeys P post (P.next q ⟨c, a⟩)

variable {P : Protocol C A Q} {post post' : α → Q → Prop} {p : Prog C A S α} {q : Q}

theorem obeys_pure {a : α} (h : post a q) : (pure a : Prog C A S α).Obeys P post q := h

theorem obeys_call {c : C} {f : A c → Prog C A S α} (hc : P.legal q c)
    (hk : ∀ a, (f a).Obeys P post (P.next q ⟨c, a⟩)) : (perform c >>= f).Obeys P post q :=
  ⟨hc, hk⟩

theorem obeys_perform {c : C} {post : A c → Q → Prop} (hc : P.legal q c)
    (hk : ∀ a, post a (P.next q ⟨c, a⟩)) : (perform c : Prog C A S (A c)).Obeys P post q :=
  ⟨hc, hk⟩

theorem obeys_mono (hpost : ∀ a q, post a q → post' a q) (h : p.Obeys P post q) :
    p.Obeys P post' q := by
  induction p generalizing q with
  | ret a => exact hpost a q h
  | stop s => trivial
  | call c k ih => exact ⟨h.1, fun a => ih a (h.2 a)⟩

/-- Sequencing: the second part obeys from wherever the first one may end. -/
theorem obeys_bind {f : α → Prog C A S β} {post : β → Q → Prop}
    (h : p.Obeys P (fun a q => (f a).Obeys P post q) q) : (p >>= f).Obeys P post q := by
  induction p generalizing q with
  | ret a => exact h
  | stop s => trivial
  | call c k ih => exact ⟨h.1, fun a => ih a (h.2 a)⟩

/-- Loops: an invariant, indexed by the turns still allowed, that a turn keeps until it leaves. -/
theorem obeys_iterate {body : τ → Prog C A S (ρ ⊕ τ)} {post : ρ ⊕ τ → Q → Prop}
    (Inv : ℕ → τ → Q → Prop) (hstay : ∀ t q, Inv 0 t q → post (.inr t) q)
    (hturn : ∀ n t q, Inv (n + 1) t q → (body t).Obeys P
      (fun r q' => match r with
        | .inl x => post (.inl x) q'
        | .inr t' => Inv n t' q') q)
    (n : ℕ) {t : τ} (h : Inv n t q) : (iterate body n t).Obeys P post q := by
  induction n generalizing t q with
  | zero => exact hstay t q h
  | succ n ih =>
    refine obeys_bind (obeys_mono (fun r q' hr => ?_) (hturn n t q h))
    cases r with
    | inl x => exact hr
    | inr t' => exact ih hr

/-- A loop over a list, of turns that keep `Inv`. -/
theorem obeys_forM {body : τ → Prog C A S PUnit} {Inv : Q → Prop}
    (hbody : ∀ t q, Inv q → (body t).Obeys P (fun _ q' => Inv q') q) {ts : List τ} (h : Inv q) :
    (ts.forM body).Obeys P (fun _ q' => Inv q') q := by
  induction ts generalizing q with
  | nil => exact h
  | cons t ts ih => exact obeys_bind (obeys_mono (fun _ _ hq => ih hq) (hbody t q h))

/-- What obeying says about a run: its calls are allowed, the one it may be halted in too, and
    what they amount to when it returns satisfies `post`. -/
theorem Obeys.run (hp : p.Obeys P post q) (h : Handler C A H σ) (s : σ) :
    P.Allows q (p.run h s).trace ∧
      (∀ c e, (p.run h s).outcome = .halted c e → P.legal (P.after q (p.run h s).trace) c) ∧
      ∀ a, (p.run h s).outcome = .returned a → post a (P.after q (p.run h s).trace) := by
  induction p generalizing q s with
  | ret a =>
    refine ⟨trivial, nofun, fun b hb => ?_⟩
    cases hb
    exact hp
  | stop x => exact ⟨trivial, nofun, nofun⟩
  | call c k ih =>
    cases hc : h.answer s c with
    | error e =>
      rw [run_call_error hc]
      refine ⟨trivial, fun c' e' hhalted => ?_, nofun⟩
      cases hhalted
      exact hp.1
    | ok as =>
      obtain ⟨a, t⟩ := as
      rw [run_call_ok hc]
      obtain ⟨hallows, hhalted, hreturned⟩ := ih a (hp.2 a) t
      exact ⟨⟨hp.1, hallows⟩, hhalted, hreturned⟩

/-! ## Programs inside others -/

section

variable {C' : Type} {A' : C' → Type} {S' Q' : Type}

/-- The program with its calls among others; `answer` finds the answer to its call in what that is
    answered there. -/
def embed (call : C → C') (answer : (c : C) → A' (call c) → A c) :
    Prog C A Empty α → Prog C' A' S' α
  | .ret a => .ret a
  | .stop s => s.elim
  | .call c k => .call (call c) fun a => (k (answer c a)).embed call answer

/-- A protocol for all the calls, of which `view` is what those of the program amount to. -/
theorem obeys_embed {call : C → C'} {answer : (c : C) → A' (call c) → A c} {P' : Protocol C' A' Q'}
    (view : Q' → Q) (Inv : Q' → Prop)
    (hlegal : ∀ q c, Inv q → P.legal (view q) c → P'.legal q (call c))
    (hnext : ∀ q c a, Inv q → Inv (P'.next q ⟨call c, a⟩) ∧
      view (P'.next q ⟨call c, a⟩) = P.next (view q) ⟨c, answer c a⟩)
    {p : Prog C A Empty α} {q : Q'} (hq : Inv q) (h : p.Obeys P post (view q)) :
    (p.embed call answer : Prog C' A' S' α).Obeys P' (fun a q' => Inv q' ∧ post a (view q')) q := by
  induction p generalizing q with
  | ret a => exact ⟨hq, h⟩
  | stop s => exact s.elim
  | call c k ih =>
    refine ⟨hlegal q c hq h.1, fun a => ?_⟩
    obtain ⟨hinv, hview⟩ := hnext q c a hq
    exact ih (answer c a) hinv (hview ▸ h.2 (answer c a))

end

/-! ## How programs end -/

variable {next : Q → Event A → Q} {stopped : S → Q → Prop}

/-- Whatever the calls are answered: a program that returns satisfies `post`, one that stops `stopped`. -/
def Ends (next : Q → Event A → Q) (post : α → Q → Prop) (stopped : S → Q → Prop) :
    Prog C A S α → Q → Prop
  | .ret a, q => post a q
  | .stop s, q => stopped s q
  | .call c k, q => ∀ a, (k a).Ends next post stopped (next q ⟨c, a⟩)

theorem ends_pure {a : α} (h : post a q) : (pure a : Prog C A S α).Ends next post stopped q := h

theorem ends_stop {s : S} (h : stopped s q) : (stop s : Prog C A S α).Ends next post stopped q := h

theorem ends_call {c : C} {f : A c → Prog C A S α}
    (hk : ∀ a, (f a).Ends next post stopped (next q ⟨c, a⟩)) :
    (perform c >>= f).Ends next post stopped q := hk

theorem ends_perform {c : C} {post : A c → Q → Prop} (hk : ∀ a, post a (next q ⟨c, a⟩)) :
    (perform c : Prog C A S (A c)).Ends next post stopped q := hk

theorem ends_mono {stopped' : S → Q → Prop} (hpost : ∀ a q, post a q → post' a q)
    (hstopped : ∀ s q, stopped s q → stopped' s q) (h : p.Ends next post stopped q) :
    p.Ends next post' stopped' q := by
  induction p generalizing q with
  | ret a => exact hpost a q h
  | stop s => exact hstopped s q h
  | call c k ih => exact fun a => ih a (h a)

theorem ends_bind {f : α → Prog C A S β} {post : β → Q → Prop}
    (h : p.Ends next (fun a q => (f a).Ends next post stopped q) stopped q) :
    (p >>= f).Ends next post stopped q := by
  induction p generalizing q with
  | ret a => exact h
  | stop s => exact h
  | call c k ih => exact fun a => ih a (h a)

/-- A loop over a list, of turns that keep `Inv`. -/
theorem ends_forM {body : τ → Prog C A S PUnit} {Inv : Q → Prop}
    (hbody : ∀ t q, Inv q → (body t).Ends next (fun _ q' => Inv q') stopped q) {ts : List τ}
    (h : Inv q) : (ts.forM body).Ends next (fun _ q' => Inv q') stopped q := by
  induction ts generalizing q with
  | nil => exact h
  | cons t ts ih =>
    exact ends_bind (ends_mono (fun _ _ hq => ih hq) (fun _ _ hstopped => hstopped) (hbody t q h))

/-- A program inside another, if its calls keep `Inv`. -/
theorem ends_embed {C₀ : Type} {A₀ : C₀ → Type} {call : C₀ → C} {answer : (c : C₀) → A (call c) → A₀ c}
    {Inv : Q → Prop} (hnext : ∀ q c a, Inv q → Inv (next q ⟨call c, a⟩)) (p : Prog C₀ A₀ Empty α)
    (h : Inv q) : (p.embed call answer).Ends next (fun _ q' => Inv q') stopped q := by
  induction p generalizing q with
  | ret a => exact h
  | stop s => exact s.elim
  | call c k ih => exact fun a => ih (answer c a) (hnext q c a h)

/-- What a run comes to. -/
theorem Ends.run (hp : p.Ends next post stopped q) (h : Handler C A H σ) (s : σ) :
    (∀ a, (p.run h s).outcome = .returned a → post a ((p.run h s).trace.foldl next q)) ∧
      ∀ x, (p.run h s).outcome = .stopped x → stopped x ((p.run h s).trace.foldl next q) := by
  induction p generalizing q s with
  | ret a =>
    refine ⟨fun b hb => ?_, nofun⟩
    cases hb
    exact hp
  | stop x =>
    refine ⟨nofun, fun y hy => ?_⟩
    cases hy
    exact hp
  | call c k ih =>
    cases hc : h.answer s c with
    | error e =>
      rw [run_call_error hc]
      exact ⟨nofun, nofun⟩
    | ok as =>
      obtain ⟨a, t⟩ := as
      rw [run_call_ok hc]
      exact ih a (hp a) t

end Prog

end CLib
