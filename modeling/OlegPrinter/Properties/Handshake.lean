/-
  The handshake, on both ends: who is served after it.

  Both `test_sock` functions return 0 when the strings compare equal, and both loops go on,
  to a body that exits, while the result is 0. So a good handshake ends the program and a bad
  one lets the peer in.

  * `handshakeLoop_matched`, `handshakeLoop_mismatched`: the server's handshake with the first
    client of its queue; no second one takes place.
  * `main_matched`, `main_mismatched`: the client's.
  * `gates_iff`: both gates point in the right direction only where neither end hears the other: no `recv`
    of a handshake returns.

  What is at the other end is any `Sockets`: it may send anything, stop, reset the connection, or say nothing and
  stay, so that a `recv` never returns.
-/
import OlegPrinter.Server.TestSock
import OlegPrinter.Client.Main

namespace OlegPrinter

open CLib

/-- The strings a trace received, in order, in a buffer of `n` zero bytes. -/
def heard (n : Nat) (tr : List SockEvent) : List (List UInt8) :=
  tr.filterMap fun e =>
    match e with
    | ⟨.recv _ _ _, r⟩ => some (cstr ((Obj.zero n).store r.bytes).bytes)
    | _ => none

section

variable {σ : Type} (net : Sockets σ) (s : σ)

/-! ## The server -/

section

variable (afterSample : Obj 2) (listener : Int)

/-- The run of the handshake loop. -/
def serverHandshake : Run Answer Stop Halt σ Unit :=
  (handshakeLoop afterSample (Obj.zero 8) listener 1).run net.handler s

/-- The accept loop is entered only after a handshake received `Test!`, and is entered when the
    first one did. -/
def ServerGate (run : Run Answer Stop Halt σ Unit) : Prop :=
  (run.outcome = .returned () → sample ∈ heard 8 run.trace) ∧
    ((heard 8 run.trace).head? = some sample → run.outcome = .returned ())

/-- `test_sock` waits: nobody connects, or who does says nothing and stays. -/
def ServerWaits : Prop :=
  ∀ fd s', net.handler.answer s (.accept listener) = .ok (fd, s') →
    ∃ e, net.handler.answer s' (.recv fd 8 8) = .error e

/-- The string `test_sock` has in `data`. -/
def heardIn (r : Received) : List UInt8 := cstr ((Obj.zero 8).store r.bytes).bytes

variable {net s listener} {fd : Int} {r : Received} {s₁ s₂ : σ}

/-- `test_sock` up to its comparison. -/
theorem testSock_run (haccept : net.handler.answer s (.accept listener) = .ok (fd, s₁))
    (hrecv : net.handler.answer s₁ (.recv fd 8 8) = .ok (r, s₂)) :
    (testSock afterSample (Obj.zero 8) listener).run net.handler s =
      ((if heardIn r = sample then (do
          let _ ← send fd (.object (sampleMem afterSample)) 8
          close fd
          pure 0)
        else (do
          close fd
          pure 1) : ServerProg Int).run net.handler s₂).after
        [⟨.accept listener, fd⟩, ⟨.recv fd 8 8, r⟩] := by
  unfold testSock
  rw [Prog.perform_bind, Prog.run_call_ok haccept, Prog.perform_bind, Prog.run_call_ok hrecv,
    Run.after_after]
  simp only [strcmp_sample_iff]
  rfl

/-- A bad handshake: the server goes on to its accept loop. -/
theorem handshakeLoop_mismatched (haccept : net.handler.answer s (.accept listener) = .ok (fd, s₁))
    (hrecv : net.handler.answer s₁ (.recv fd 8 8) = .ok (r, s₂)) (h : heardIn r ≠ sample) :
    (serverHandshake net s afterSample listener).outcome = .returned () ∧
      heard 8 (serverHandshake net s afterSample listener).trace = [heardIn r] := by
  obtain ⟨s₃, hclose⟩ := net.close_ok s₂ fd
  have hrun := testSock_run afterSample haccept hrecv
  rw [if_neg h, Prog.perform_bind, Prog.run_call_ok hclose] at hrun
  unfold serverHandshake handshakeLoop
  rw [Prog.run_bind_returned hrun]
  exact ⟨rfl, rfl⟩

/-- A good handshake: the server answers and exits, or does not survive the answer. -/
theorem handshakeLoop_matched (haccept : net.handler.answer s (.accept listener) = .ok (fd, s₁))
    (hrecv : net.handler.answer s₁ (.recv fd 8 8) = .ok (r, s₂)) (h : heardIn r = sample) :
    (serverHandshake net s afterSample listener).outcome ≠ .returned () ∧
      heard 8 (serverHandshake net s afterSample listener).trace = [heardIn r] := by
  have hrun := testSock_run afterSample haccept hrecv
  rw [if_pos h, Prog.perform_bind] at hrun
  unfold serverHandshake handshakeLoop
  cases hsend : net.handler.answer s₂ (.send fd (.object (sampleMem afterSample)) 8) with
  | error e =>
    rw [Prog.run_call_error hsend] at hrun
    rw [Prog.run_bind_halted hrun]
    exact ⟨nofun, rfl⟩
  | ok a =>
    obtain ⟨n, s₃⟩ := a
    obtain ⟨s₄, hclose⟩ := net.close_ok s₃ fd
    rw [Prog.run_call_ok hsend, Prog.perform_bind, Prog.run_call_ok hclose] at hrun
    rw [Prog.run_bind_returned hrun]
    refine ⟨?_, rfl⟩
    rw [if_pos (by decide)]
    exact nofun

/-- Without a `recv` that returns, the server stays in `test_sock`. -/
theorem handshakeLoop_waits (h : ServerWaits net s listener) :
    (serverHandshake net s afterSample listener).outcome ≠ .returned () ∧
      heard 8 (serverHandshake net s afterSample listener).trace = [] := by
  unfold serverHandshake handshakeLoop testSock
  rw [Prog.perform_bind, Prog.call_bind]
  cases haccept : net.handler.answer s (.accept listener) with
  | error e =>
    rw [Prog.run_call_error haccept]
    exact ⟨nofun, rfl⟩
  | ok a =>
    obtain ⟨fd, s₁⟩ := a
    obtain ⟨e, hrecv⟩ := h fd s₁ haccept
    rw [Prog.run_call_ok haccept, Prog.perform_bind, Prog.call_bind, Prog.run_call_error hrecv]
    exact ⟨nofun, rfl⟩

/-- The server's gate is the wrong way round wherever it hears anything. -/
theorem serverGate_iff :
    ServerGate (serverHandshake net s afterSample listener) ↔ ServerWaits net s listener := by
  constructor
  · intro hgate fd s₁ haccept
    obtain ⟨h1, h2⟩ := hgate
    cases hrecv : net.handler.answer s₁ (.recv fd 8 8) with
    | error e => exact ⟨e, rfl⟩
    | ok a =>
      exfalso
      obtain ⟨r, s₂⟩ := a
      by_cases hs : heardIn r = sample
      · obtain ⟨hout, hheard⟩ := handshakeLoop_matched afterSample haccept hrecv hs
        apply hout
        apply h2
        rw [hheard, hs]
        rfl
      · obtain ⟨hout, hheard⟩ :=
          handshakeLoop_mismatched afterSample haccept hrecv hs
        have hmem := h1 hout
        rw [hheard] at hmem
        exact hs (List.mem_singleton.mp hmem).symm
  · intro hwaits
    obtain ⟨hout, hheard⟩ := handshakeLoop_waits afterSample hwaits
    refine ⟨fun h => absurd h hout, fun h => ?_⟩
    rw [hheard] at h
    cases h

end

/-! ## The client -/

section

variable (sock : Int) (answServer : Obj 4)

/-- The run of a connected client, `rec_mess` zero-filled. -/
def clientRun : Run Answer Client.Stop Halt σ Client.Finish :=
  (Client.main sock (Obj.zero 6) answServer).run net.handler s

/-- The client sends its command exactly when the string it received back is `Test!`. -/
def ClientGate (sock : Int) (run : Run Answer Client.Stop Halt σ Client.Finish) : Prop :=
  .send sock (.object Client.commServer.bytes) 4 ∈ run.calls ↔
    (heard 6 run.trace).head? = some (ascii "Test!")

/-- `test_sock` does not get past its `send`, or it waits: the server says nothing and stays. -/
def ClientWaits : Prop :=
  ∀ n s', net.handler.answer s (.send sock (.object Client.mess) 6) = .ok (n, s') →
    ∃ e, net.handler.answer s' (.recv sock 6 6) = .error e

variable {net s sock} {n : Int} {r : Received} {s₁ s₂ : σ}

/-- The client up to the test of its loop. -/
theorem main_run (hsend : net.handler.answer s (.send sock (.object Client.mess) 6) = .ok (n, s₁))
    (hrecv : net.handler.answer s₁ (.recv sock 6 6) = .ok (r, s₂)) :
    clientRun net s sock answServer =
      ((Client.afterHandshake sock (Obj.zero 6) answServer r).run net.handler s₂).after
        [⟨.send sock (.object Client.mess) 6, n⟩, ⟨.recv sock 6 6, r⟩] := by
  unfold clientRun
  rw [Client.main_eq, Prog.perform_bind, Prog.run_call_ok hsend, Prog.perform_bind,
    Prog.run_call_ok hrecv, Run.after_after]
  rfl

theorem heard_clientRun
    (hsend : net.handler.answer s (.send sock (.object Client.mess) 6) = .ok (n, s₁))
    (hrecv : net.handler.answer s₁ (.recv sock 6 6) = .ok (r, s₂)) :
    (heard 6 (clientRun net s sock answServer).trace).head? =
      some (cstr ((Obj.zero 6).store r.bytes).bytes) := by
  rw [main_run answServer hsend hrecv]
  rfl

/-- A good handshake: the client exits and sends no command. -/
theorem main_matched
    (hsend : net.handler.answer s (.send sock (.object Client.mess) 6) = .ok (n, s₁))
    (hrecv : net.handler.answer s₁ (.recv sock 6 6) = .ok (r, s₂))
    (h : Client.Matches ((Obj.zero 6).store r.bytes)) :
    .send sock (.object Client.commServer.bytes) 4 ∉ (clientRun net s sock answServer).calls := by
  have hne : Client.commServer.bytes ≠ Client.mess := by decide
  rw [main_run answServer hsend hrecv, Client.afterHandshake, if_pos h]
  simp [Run.calls, hne]

/-- A bad handshake: the client sends its command, or is killed sending it. -/
theorem main_mismatched
    (hsend : net.handler.answer s (.send sock (.object Client.mess) 6) = .ok (n, s₁))
    (hrecv : net.handler.answer s₁ (.recv sock 6 6) = .ok (r, s₂))
    (h : ¬ Client.Matches ((Obj.zero 6).store r.bytes)) :
    .send sock (.object Client.commServer.bytes) 4 ∈ (clientRun net s sock answServer).calls := by
  rw [main_run answServer hsend hrecv, Client.afterHandshake, if_neg h, Client.exchange, Prog.perform_bind]
  cases hcommand : net.handler.answer s₂ (.send sock (.object Client.commServer.bytes) 4) with
  | error e =>
    rw [Prog.run_call_error hcommand]
    simp [Run.calls]
  | ok a =>
    rw [Prog.run_call_ok hcommand]
    simp [Run.calls]

/-- Without a `recv` that returns, the client hears nothing and sends no command. -/
theorem main_waits (h : ClientWaits net s sock) :
    .send sock (.object Client.commServer.bytes) 4 ∉ (clientRun net s sock answServer).calls ∧
      heard 6 (clientRun net s sock answServer).trace = [] := by
  have hne : Client.commServer.bytes ≠ Client.mess := by decide
  unfold clientRun
  rw [Client.main_eq, Prog.perform_bind]
  cases hsend : net.handler.answer s (.send sock (.object Client.mess) 6) with
  | error e =>
    rw [Prog.run_call_error hsend]
    exact ⟨by simp [Run.calls, hne], rfl⟩
  | ok a =>
    obtain ⟨n, s₁⟩ := a
    obtain ⟨e, hrecv⟩ := h n s₁ hsend
    rw [Prog.run_call_ok hsend, Prog.perform_bind, Prog.run_call_error hrecv]
    exact ⟨by simp [Run.calls, hne], rfl⟩

/-- The client's gate is the wrong way round wherever it hears anything. -/
theorem clientGate_iff :
    ClientGate sock (clientRun net s sock answServer) ↔ ClientWaits net s sock := by
  constructor
  · intro hgate n s₁ hsend
    cases hrecv : net.handler.answer s₁ (.recv sock 6 6) with
    | error e => exact ⟨e, rfl⟩
    | ok a =>
      exfalso
      obtain ⟨r, s₂⟩ := a
      unfold ClientGate at hgate
      rw [heard_clientRun answServer hsend hrecv, Option.some.injEq] at hgate
      by_cases hm : Client.Matches ((Obj.zero 6).store r.bytes)
      · exact main_matched answServer hsend hrecv hm (hgate.mpr hm)
      · exact hm (hgate.mp (main_mismatched answServer hsend hrecv hm))
  · intro hwaits
    obtain ⟨hcommand, hheard⟩ := main_waits answServer hwaits
    unfold ClientGate
    rw [hheard]
    exact ⟨fun h => absurd h hcommand, fun h => absurd h (by simp)⟩

end

end

/-- Both gates hold exactly where no handshake gets as far as its comparison, at either end. -/
theorem gates_iff {σ τ : Type} (net : Sockets σ) (s : σ) (net' : Sockets τ) (s' : τ)
    (afterSample : Obj 2) (listener sock : Int) (answServer : Obj 4) :
    ServerGate (serverHandshake net s afterSample listener) ∧
        ClientGate sock (clientRun net' s' sock answServer) ↔
      ServerWaits net s listener ∧ ClientWaits net' s' sock := by
  rw [serverGate_iff, clientGate_iff]

/-- A client that sends `Test!` and hears it back: neither end goes on. -/
theorem gates_false :
    ¬ ∀ (σ τ : Type) (net : Sockets σ) (s : σ) (net' : Sockets τ) (s' : τ) (afterSample : Obj 2)
      (listener sock : Int) (answServer : Obj 4),
      ServerGate (serverHandshake net s afterSample listener) ∧
        ClientGate sock (clientRun net' s' sock answServer) := by
  intro h
  let d : Caller := ⟨⟨Peer.sending 4 [ascii "Test!" ++ [0]] (by decide), Host.blank⟩, true⟩
  have hserver := (h Backlog Backlog Backlog.sockets ⟨none, [d]⟩ Backlog.sockets ⟨some d, []⟩
    (Obj.zero 2) 3 4 (Obj.zero 4)).1
  obtain ⟨e, he⟩ := (serverGate_iff _).mp hserver 4 ⟨some d, []⟩ rfl
  cases he

end OlegPrinter
