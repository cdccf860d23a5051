/-
  Request and answer between the two programs.

  `Agreement` is what a client should be able to rely on when it has received an answer: the four
  bytes it stored are the one answer the server sent on this connection, and its command was
  written while the server still held the connection.

  * `phase_of_reach`: whatever the order of steps, the server accepts this connection once, and
    either takes it for a handshake and closes it, or takes the client's handshake for a
    command, which it is not. It never sends an answer (`no_answer`).
  * `not_agreement_of_finished`: so every client that gets as far as an answer has stored
    something else.
  * `greeting_of_echoed`: a client whose handshake reads back `Test!` exits, and agreement holds
    because there is nothing to agree on.
  * `agreement_of_runs`: both.
-/
import OlegPrinter.System

namespace OlegPrinter

open CLib

/-- What the client stored is the server's one answer, and the command was not written too
    late. -/
structure Agreement (σ : System) : Prop where
  answered : ∀ f, σ.client = .ret f → ∃ a, σ.answers = [a] ∧ a.length = 4 ∧ f.stored = a
  timely : Client.commServer.bytes ∉ σ.net.late

/-! ## The points of the two programs -/

namespace Setup

variable (u : Setup)

/-- The server's handshake after its `recv`. -/
def compared (r : Received) : ServerProg Unit :=
  (if strcmp sample (u.data.store r.bytes).bytes = 0 then (do
      let _ ← send u.fd (.object (sampleMem u.afterSample)) 8
      close u.fd
      pure 0)
    else (do
      close u.fd
      pure 1) : ServerProg Int) >>= fun r => if r = 0 ∧ 1 ≤ 3 then .stop (.exit 4) else pure ()

/-- The same from its `recv` on. -/
def greeting : ServerProg Unit := .call (.recv u.fd 8 8) u.compared

/-- The state of a turn after its `recv`. -/
def stored (s : LoopState) (r : Received) : LoopState :=
  ⟨u.lay.overrun (r.bytes.drop 4) { s.vars with sock := u.fd }, s.command.store r.bytes⟩

/-- A turn of the loop from there on. -/
def dispatched (s : LoopState) (r : Received) : ServerProg Turn :=
  branch u.cupsGetOption (u.stored s r).vars (dispatch (u.stored s r).command.toInt) >>=
    fun path => do
      close (u.stored s r).vars.sock
      pure ⟨u.stored s r, path⟩

/-- The same as a step of the loop. -/
def finishing (s : LoopState) (r : Received) : ServerProg LoopState :=
  u.dispatched s r >>= fun t => pure t.state

/-- The same from its `recv` on. -/
def serving (s : LoopState) : ServerProg LoopState :=
  .call (.recv u.fd 4 1024) (u.finishing s)

/-- The client after it sent its handshake. -/
def listening : Client.ClientProg Client.Finish :=
  .call (.recv u.sock 6 6) (Client.afterHandshake u.sock u.recMess u.answServer)

theorem handshake_eq : u.handshake = .call (.accept u.listener) fun socket =>
    .call (.recv socket 8 8) fun r =>
      (if strcmp sample (u.data.store r.bytes).bytes = 0 then (do
        let _ ← send socket (.object (sampleMem u.afterSample)) 8
        close socket
        pure 0)
      else (do
        close socket
        pure 1) : ServerProg Int) >>= fun r =>
          if r = 0 ∧ 1 ≤ 3 then .stop (.exit 4) else pure () := rfl

theorem turnFrom_eq (s : LoopState) : u.turnFrom s = .call (.accept s.vars.listener) fun sock =>
    (if sock < 0 then .stop (.exit 5)
      else serve u.cupsGetOption u.lay { s.vars with sock := sock } s.command) >>=
        fun t => pure t.state := rfl

theorem client_eq :
    u.client = .call (.send u.sock (.object Client.mess) 6) fun _ => u.listening := by
  unfold client
  rw [Client.main_eq]
  rfl

end Setup

/-- The server waits in `accept`. -/
def AtAccept (u : Setup) : ServerState → Prop
  | .startup p => p = u.handshake
  | .loop p => ∃ s, p = u.turnFrom s

/-- The server waits for the first bytes of the connection. -/
def AtRecv (u : Setup) : ServerState → Prop
  | .startup p => p = u.greeting
  | .loop p => ∃ s, p = u.serving s

/-- A call that neither accepts a connection nor sends anything. -/
def Harmless (k : SockCall) : Prop := k.isSend = false ∧ ∀ l, k ≠ .accept l

/-- The server is through with the connection: it only has its handshake to finish, or a turn
    without an answer, or it waits for another client. -/
def Through (u : Setup) : ServerState → Prop
  | .startup p => p.AllCalls fun k => ∀ l, k ≠ .accept l
  | .loop p => (∃ s, p = u.turnFrom s) ∨ p.AllCalls Harmless

section

variable {u : Setup} {sv sv' : ServerState} {n n' : Connection} {e : SockEvent}

/-! ### The server -/

theorem step_handshake {q : ServerProg Unit} (h : Prog.Step u.handshake e q) :
    ∃ a : Int, e = ⟨.accept u.listener, a⟩ ∧ (a = u.fd → u.greeting = q) := by
  rw [u.handshake_eq] at h
  obtain ⟨a, he, hq⟩ := Prog.step_call_iff.mp h
  refine ⟨a, he, ?_⟩
  rintro rfl
  exact hq

theorem step_turnFrom {s : LoopState} {q : ServerProg LoopState}
    (h : Prog.Step (u.turnFrom s) e q) :
    ∃ a : Int, e = ⟨.accept s.vars.listener, a⟩ ∧ (a = u.fd → u.serving s = q) := by
  rw [u.turnFrom_eq] at h
  obtain ⟨a, he, hq⟩ := Prog.step_call_iff.mp h
  refine ⟨a, he, ?_⟩
  rintro rfl
  have hfd : ¬ (u.fd : Int) < 0 := by omega
  rw [← hq, if_neg hfd]
  unfold serve Setup.serving
  rw [Prog.perform_bind, Prog.call_bind]
  rfl

/-- From `accept` the server comes to its first `recv`. -/
theorem atAccept_step (h : AtAccept u sv) (hp : sv.Step e sv')
    (hn : AcceptorCall u.fd u.memory n e n') :
    AtRecv u sv' ∧ n' = { n with side := .accepted } ∧ u.answersOf sv e = [] := by
  cases hp with
  | startup hp =>
    cases h
    obtain ⟨a, rfl, hq⟩ := step_handshake hp
    obtain ⟨-, ha, rfl⟩ := hn.accept_inv
    exact ⟨(hq ha).symm, rfl, rfl⟩
  | loop hp =>
    obtain ⟨s, rfl⟩ := h
    obtain ⟨a, rfl, hq⟩ := step_turnFrom hp
    obtain ⟨-, ha, rfl⟩ := hn.accept_inv
    exact ⟨⟨s, (hq ha).symm⟩, rfl, rfl⟩

/-- After its `recv` the handshake makes no `accept`. -/
theorem allCalls_compared (r : Received) : (u.compared r).AllCalls fun k => ∀ l, k ≠ .accept l := by
  refine Prog.AllCalls.bind ?_ fun v => ?_
  · split_ifs
    · exact .call nofun fun _ => .call nofun fun _ => .ret 0
    · exact .call nofun fun _ => .ret 1
  · split_ifs
    · exact .stop _
    · exact .ret ()

/-- No command begins like the client's handshake. -/
theorem dispatch_mess_prefix {k : Nat} (hk : 0 < k) (o : Obj 4) :
    dispatch (o.store (Client.mess.take k)).toInt = none := by
  have hmess : Client.mess = 84 :: [101, 115, 116, 33, 0] := by decide
  obtain ⟨m, rfl⟩ : ∃ m, k = m + 1 := ⟨k - 1, by omega⟩
  rw [dispatch_eq_none_iff, hmess, List.take_succ_cons]
  intro c hc
  have hhead := congrArg List.head? hc
  simp only [Obj.store, List.cons_append, List.take_succ_cons, List.head?_cons] at hhead
  revert hhead
  cases c <;> decide

/-- A turn that received the beginning of a handshake has no branch to take. -/
theorem allCalls_finishing (s : LoopState) {k : Nat} (hk : 0 < k) :
    (u.finishing s (.got (Client.mess.take k))).AllCalls Harmless := by
  have hnone : dispatch (u.stored s (.got (Client.mess.take k))).command.toInt = none :=
    dispatch_mess_prefix hk s.command
  unfold Setup.finishing Setup.dispatched
  rw [hnone]
  exact .call ⟨rfl, nofun⟩ fun _ => .ret _

/-- The first bytes the server reads are the client's handshake; after them it is through. -/
theorem atRecv_step (h : AtRecv u sv) (hp : sv.Step e sv')
    (hn : AcceptorCall u.fd u.memory n e n') (hside : n.side = .accepted) (hgone : n.gone = false)
    (hup : n.up = [] ∨ n.up = Client.mess) :
    Through u sv' ∧ n'.side = .accepted ∧ u.answersOf sv e = [] := by
  cases hp with
  | startup hp =>
    cases h
    obtain ⟨r, rfl, rfl⟩ := Prog.step_call_iff.mp hp
    obtain ⟨hside', -⟩ := hn.recv_inv hside hgone (by decide) (by decide)
    exact ⟨allCalls_compared r, hside', rfl⟩
  | loop hp =>
    obtain ⟨s, rfl⟩ := h
    obtain ⟨r, rfl, rfl⟩ := Prog.step_call_iff.mp hp
    obtain ⟨hside', k, hk, hle, rfl⟩ := hn.recv_inv hside hgone (by decide) (by decide)
    have hmess : n.up = Client.mess := by
      refine hup.resolve_left fun h0 => ?_
      rw [h0, List.length_nil] at hle
      omega
    rw [hmess]
    exact ⟨Or.inr (allCalls_finishing s hk), hside', rfl⟩

/-- A server that is through sends no answer and stays through. -/
theorem through_step (h : Through u sv) (hp : sv.Step e sv')
    (hn : AcceptorCall u.fd u.memory n e n') (hside : n.side ≠ .queued) :
    Through u sv' ∧ n'.side ≠ .queued ∧ u.answersOf sv e = [] := by
  obtain ⟨hside', haccept⟩ := hn.side_ne_queued hside
  cases hp with
  | startup hp => exact ⟨(h.step hp).2, hside', rfl⟩
  | loop hp =>
    rcases h with ⟨s, rfl⟩ | hall
    · obtain ⟨a, rfl, -⟩ := step_turnFrom hp
      exact absurd rfl (haccept s.vars.listener)
    · obtain ⟨⟨hsend, -⟩, hrest⟩ := hall.step hp
      refine ⟨Or.inr hrest, hside', ?_⟩
      obtain ⟨k, a⟩ := e
      cases k with
      | send => cases hsend
      | _ => rfl

/-! ### The client -/

/-- The client before the first bytes from the server: its handshake is not sent, or on its way. -/
def BeforeReply (u : Setup) (cl : Client.ClientProg Client.Finish) (up : List UInt8) : Prop :=
  (cl = u.client ∧ up = []) ∨ (cl = u.listening ∧ up = Client.mess)

variable {cl cl' : Client.ClientProg Client.Finish}

theorem step_client (h : Prog.Step u.client e cl') :
    ∃ a : Int, e = ⟨.send u.sock (.object Client.mess) 6, a⟩ ∧ u.listening = cl' := by
  rw [u.client_eq] at h
  exact Prog.step_call_iff.mp h

theorem step_listening (h : Prog.Step u.listening e cl') :
    ∃ r : Received, e = ⟨.recv u.sock 6 6, r⟩ ∧
      Client.afterHandshake u.sock u.recMess u.answServer r = cl' :=
  Prog.step_call_iff.mp h

theorem read_mess (m : Memory) : (Ptr.object Client.mess).read m 6 = Client.mess := by
  have hlen : Client.mess.length ≤ 6 := by decide
  exact List.take_of_length_le hlen

/-- While the connection is open and nothing comes from the server, the client sends its
    handshake and waits. -/
theorem beforeReply_step (h : BeforeReply u cl n.up) (hp : Prog.Step cl e cl')
    (hn : ConnectorCall u.sock u.memory n e n') (hside : n.side ≠ .closed) (hdown : n.down = []) :
    BeforeReply u cl' n'.up ∧ n' = { n with up := n'.up } := by
  rcases h with ⟨rfl, hup⟩ | ⟨rfl, hup⟩
  · obtain ⟨a, rfl, rfl⟩ := step_client hp
    rcases hn.send_inv with ⟨-, rfl⟩ | ⟨hclosed, -⟩
    · refine ⟨Or.inr ⟨rfl, ?_⟩, rfl⟩
      show n.up ++ (Ptr.object Client.mess).read u.memory 6 = Client.mess
      rw [hup, read_mess, List.nil_append]
    · exact absurd hclosed hside
  · obtain ⟨r, rfl, -⟩ := step_listening hp
    exact absurd (hn.recv_waits hdown) hside

theorem beforeReply_up (h : BeforeReply u cl n.up) : n.up = [] ∨ n.up = Client.mess := by
  rcases h with ⟨-, h⟩ | ⟨-, h⟩
  · exact Or.inl h
  · exact Or.inr h

theorem not_clientEnded_of_beforeReply {up : List UInt8} (h : BeforeReply u cl up) :
    ¬ ClientEnded cl := by
  rcases h with ⟨rfl, -⟩ | ⟨rfl, -⟩
  · rw [u.client_eq]
    exact id
  · exact id

end

/-! ## The phases of a run -/

/-- The connection is in the queue, or accepted and not read, or the server is through with it. In
    none of them has an answer been sent. -/
inductive Phase (u : Setup) : System → Prop
  | waiting {sv : ServerState} {cl : Client.ClientProg Client.Finish} {n : Connection}
      (hs : AtAccept u sv) (hc : BeforeReply u cl n.up) (hside : n.side = .queued)
      (hdown : n.down = []) (hgone : n.gone = false) : Phase u ⟨sv, cl, n, []⟩
  | reading {sv : ServerState} {cl : Client.ClientProg Client.Finish} {n : Connection}
      (hs : AtRecv u sv) (hc : BeforeReply u cl n.up) (hside : n.side = .accepted)
      (hdown : n.down = []) (hgone : n.gone = false) : Phase u ⟨sv, cl, n, []⟩
  | through {sv : ServerState} {cl : Client.ClientProg Client.Finish} {n : Connection}
      (hs : Through u sv) (hside : n.side ≠ .queued) : Phase u ⟨sv, cl, n, []⟩

section

variable {u : Setup} {σ σ' : System}

theorem phase_start (server : Option LoopState) : Phase u (u.start server) := by
  refine .waiting ?_ (Or.inl ⟨rfl, rfl⟩) rfl rfl rfl
  cases server with
  | none => rfl
  | some s => exact ⟨s, rfl⟩

/-- The phases follow one another, whoever makes the step. -/
theorem phase_step {l : Label} (h : Phase u σ) (hs : System.Step u σ l σ') : Phase u σ' := by
  cases hs with
  | server hp hn =>
    cases h with
    | waiting hsv hc hside hdown hgone =>
      obtain ⟨hsv', rfl, hans⟩ := atAccept_step hsv hp hn
      rw [hans]
      exact .reading hsv' hc rfl hdown hgone
    | reading hsv hc hside hdown hgone =>
      obtain ⟨hsv', hside', hans⟩ := atRecv_step hsv hp hn hside hgone (beforeReply_up hc)
      rw [hans]
      exact .through hsv' (by rw [hside']; exact nofun)
    | through hsv hside =>
      obtain ⟨hsv', hside', hans⟩ := through_step hsv hp hn hside
      rw [hans]
      exact .through hsv' hside'
  | client hp hn =>
    cases h with
    | waiting hsv hc hside hdown hgone =>
      obtain ⟨hc', hn'⟩ := beforeReply_step hc hp hn (by rw [hside]; exact nofun) hdown
      rw [hn'] at hc' ⊢
      exact .waiting hsv hc' hside hdown hgone
    | reading hsv hc hside hdown hgone =>
      obtain ⟨hc', hn'⟩ := beforeReply_step hc hp hn (by rw [hside]; exact nofun) hdown
      rw [hn'] at hc' ⊢
      exact .reading hsv hc' hside hdown hgone
    | through hsv hside => exact .through hsv (by rw [hn.side_eq]; exact hside)
  | next hnext =>
    cases hnext with
    | enter s =>
      cases h with
      | waiting hsv => cases hsv
      | reading hsv => cases hsv
      | through hsv hside => exact .through (Or.inl ⟨s, rfl⟩) hside
    | again s =>
      cases h with
      | waiting hsv => obtain ⟨s', hs'⟩ := hsv; cases hs'
      | reading hsv => obtain ⟨s', hs'⟩ := hsv; cases hs'
      | through hsv hside => exact .through (Or.inl ⟨s, rfl⟩) hside
  | serverEnd hend =>
    cases h with
    | waiting hsv =>
      cases hend with
      | startup x => cases hsv
      | loop x => obtain ⟨s', hs'⟩ := hsv; cases hs'
    | reading hsv =>
      cases hend with
      | startup x => cases hsv
      | loop x => obtain ⟨s', hs'⟩ := hsv; cases hs'
    | through hsv hside => exact .through hsv nofun
  | clientEnd hend =>
    cases h with
    | waiting hsv hc => exact absurd hend (not_clientEnded_of_beforeReply hc)
    | reading hsv hc => exact absurd hend (not_clientEnded_of_beforeReply hc)
    | through hsv hside => exact .through hsv hside

theorem phase_of_reach {server : Option LoopState} (h : u.Reach (u.start server) σ) : Phase u σ :=
  h.invariant (phase_start server) fun _ _ _ hi hs _ => phase_step hi hs

/-- The server answers no command of this client. -/
theorem no_answer {server : Option LoopState} (h : u.Reach (u.start server) σ) :
    σ.answers = [] := by
  cases phase_of_reach h <;> rfl

/-- A client that has received its answer has received something else. -/
theorem not_agreement_of_finished {server : Option LoopState} {f : Client.Finish}
    (h : u.Reach (u.start server) σ) (hf : σ.client = .ret f) : ¬ Agreement σ := by
  intro ha
  obtain ⟨a, hans, -⟩ := ha.answered f hf
  rw [no_answer h] at hans
  cases hans

end

/-! ## Clients that read their handshake back -/

/-- Not the `recv` of a reply after which the strings differ. -/
def Echoed (u : Setup) : Label → Prop
  | .client ⟨.recv _ _ len, r⟩ => len = 6 → Client.Matches (u.recMess.store r.bytes)
  | _ => True

/-- The client has not got past its handshake. -/
structure Greeting (u : Setup) (σ : System) : Prop where
  client : σ.client = u.client ∨ σ.client = u.listening ∨ σ.client = .stop (.exit 3)
  late : ∀ w ∈ σ.net.late, w = Client.mess

section

variable {u : Setup} {σ σ' : System}

theorem acceptorCall_late {fd : Nat} {mem : Memory} {n n' : Connection} {e : SockEvent}
    (h : AcceptorCall fd mem n e n') : n'.late = n.late := by
  cases h <;> rfl

theorem greeting_step {l : Label} (h : Greeting u σ) (hs : System.Step u σ l σ')
    (hl : Echoed u l) : Greeting u σ' := by
  obtain ⟨hclient, hlate⟩ := h
  cases hs with
  | server hp hn => exact ⟨hclient, by rw [acceptorCall_late hn]; exact hlate⟩
  | client hp hn =>
    rcases hclient with rfl | rfl | rfl
    · obtain ⟨a, rfl, rfl⟩ := step_client hp
      refine ⟨Or.inr (Or.inl rfl), ?_⟩
      rcases hn.send_inv with ⟨-, rfl⟩ | ⟨-, rfl⟩
      · exact hlate
      · intro w hw
        rcases List.mem_append.mp hw with hw | hw
        · exact hlate w hw
        · rw [List.mem_singleton.mp hw, read_mess]
    · obtain ⟨r, rfl, rfl⟩ := step_listening hp
      refine ⟨Or.inr (Or.inr ?_), by rw [hn.recv_late]; exact hlate⟩
      exact if_pos (hl rfl)
    · exact absurd hp Prog.not_step_stop
  | next _ => exact ⟨hclient, hlate⟩
  | serverEnd _ => exact ⟨hclient, hlate⟩
  | clientEnd _ => exact ⟨hclient, hlate⟩

theorem greeting_of_echoed {server : Option LoopState}
    (h : Steps (System.Step u) (Echoed u) (u.start server) σ) : Greeting u σ :=
  h.invariant ⟨Or.inl rfl, nofun⟩ fun _ _ _ hi hs hl => greeting_step hi hs hl

theorem agreement_of_greeting (h : Greeting u σ) : Agreement σ where
  answered f hf := by
    rcases h.client with hc | hc | hc <;> rw [hf] at hc
    · rw [u.client_eq] at hc
      cases hc
    · cases hc
    · cases hc
  timely hmem := by
    have hne : Client.commServer.bytes ≠ Client.mess := by decide
    exact hne (h.late _ hmem)

end

/-- In the runs in which the client reads `Test!` back the two programs agree, in every state
    reached; and in every run at all, a client that has received an answer has not received the
    server's. -/
theorem agreement_of_runs (u : Setup) (server : Option LoopState) :
    (∀ σ, Steps (System.Step u) (Echoed u) (u.start server) σ → Agreement σ) ∧
      ∀ σ, u.Reach (u.start server) σ → ∀ f, σ.client = .ret f → ¬ Agreement σ :=
  ⟨fun _ h => agreement_of_greeting (greeting_of_echoed h),
    fun _ h _ hf => not_agreement_of_finished h hf⟩

/-! ## A reply that comes in two parts -/

/-- A setup with zeros in every uninitialised variable. -/
def plainSetup : Setup :=
  ⟨optionNamed, Layout.apart, Host.blank.memory, Obj.zero 2, Obj.zero 8, 3, 4, 3, Obj.zero 6,
    Obj.zero 4⟩

/-- The server's reply: the string, its NUL and two bytes from behind it. -/
def reply : List UInt8 := sampleMem (Obj.zero 2)

/-- The connection after the server has replied and closed it. -/
def replied : Connection := ⟨.closed, [], reply, false, []⟩

/-- The server takes the client's handshake, replies and closes, while the client waits. -/
theorem reach_replied : plainSetup.Reach (plainSetup.start none)
    ⟨.startup (.stop (.exit 4)), plainSetup.listening, replied, []⟩ := by
  have hmatch :
      strcmp sample (plainSetup.data.store (Received.got Client.mess).bytes).bytes = 0 := by decide
  have hcompared : plainSetup.compared (.got Client.mess) =
      .call (.send 4 (.object reply) 8) fun _ => .call (.close 4) fun _ => .stop (.exit 4) := by
    unfold Setup.compared
    rw [if_pos hmatch]
    rfl
  have hreply : (Ptr.object reply).read plainSetup.memory 8 = reply := by decide
  have h1 : plainSetup.Reach (plainSetup.start none)
      ⟨.startup plainSetup.handshake, plainSetup.listening,
        ⟨.queued, Client.mess, [], false, []⟩, []⟩ := by
    refine Steps.tail .refl
      (.client (e := ⟨.send 3 (.object Client.mess) 6, (6 : Int)⟩) ?_ ?_) trivial
    · rw [plainSetup.client_eq]
      exact .call _ _ _
    · exact .send .fresh _ _ nofun
  have h2 : plainSetup.Reach (plainSetup.start none)
      ⟨.startup plainSetup.greeting, plainSetup.listening,
        ⟨.accepted, Client.mess, [], false, []⟩, []⟩ := by
    refine h1.tail (.server (e := ⟨.accept 3, (4 : Int)⟩) (.startup ?_) ?_) trivial
    · rw [plainSetup.handshake_eq]
      exact .call _ _ _
    · exact .accept _ _ rfl
  have h3 : plainSetup.Reach (plainSetup.start none)
      ⟨.startup (plainSetup.compared (.got Client.mess)), plainSetup.listening,
        ⟨.accepted, [], [], false, []⟩, []⟩ := by
    refine h2.tail (.server (e := ⟨.recv 4 8 8, Received.got Client.mess⟩) (.startup ?_) ?_) trivial
    · exact .call _ _ _
    · exact .recv _ 8 8 6 rfl (by decide) (by decide) (by decide) (by decide)
  rw [hcompared] at h3
  have h4 : plainSetup.Reach (plainSetup.start none)
      ⟨.startup (.call (.close 4) fun _ => .stop (.exit 4)), plainSetup.listening,
        ⟨.accepted, [], reply, false, []⟩, []⟩ := by
    refine h3.tail (.server (e := ⟨.send 4 (.object reply) 8, (8 : Int)⟩) (.startup ?_) ?_) trivial
    · exact .call _ _ _
    · have hsend : AcceptorCall 4 plainSetup.memory ⟨.accepted, [], [], false, []⟩
          ⟨.send 4 (.object reply) 8, (8 : Int)⟩
          ⟨.accepted, [], [] ++ (Ptr.object reply).read plainSetup.memory 8, false, []⟩ :=
        .send _ _ _ rfl (by rw [hreply]; decide)
      rw [hreply] at hsend
      exact hsend
  refine h4.tail (.server (e := ⟨.close 4, ()⟩) (.startup ?_) ?_) trivial
  · exact .call _ _ _
  · exact .close _

/-- The client reads one byte of the reply, sends its command to nobody, and takes the next four
    bytes for the answer. -/
theorem reach_leftover : ∃ σ f, plainSetup.Reach (plainSetup.start none) σ ∧ σ.client = .ret f ∧
    f.stored = ascii "est!" := by
  have hdiffer : ¬ Client.Matches ((Obj.zero 6).store [84]) := by decide
  have hgoes : Client.afterHandshake 3 (Obj.zero 6) (Obj.zero 4) (.got [84]) =
      .call (.send 3 (.object Client.commServer.bytes) 4) fun _ => .call (.recv 3 4 4) fun r =>
        .ret ⟨r.bytes, (Obj.zero 4).store r.bytes,
          Client.clientSwitch ((Obj.zero 4).store r.bytes).toInt⟩ := by
    unfold Client.afterHandshake
    have hbytes : (Received.got [84]).bytes = [84] := rfl
    rw [hbytes, if_neg hdiffer]
    rfl
  have h1 : plainSetup.Reach (plainSetup.start none)
      ⟨.startup (.stop (.exit 4)), Client.afterHandshake 3 (Obj.zero 6) (Obj.zero 4) (.got [84]),
        ⟨.closed, [], reply.drop 1, false, []⟩, []⟩ := by
    refine reach_replied.tail (.client (e := ⟨.recv 3 6 6, Received.got [84]⟩) ?_ ?_) trivial
    · exact .call _ _ _
    · exact .recv replied 6 6 1 (by decide) (by decide) (by decide)
  rw [hgoes] at h1
  have h2 := h1.tail (.client (e := ⟨.send 3 (.object Client.commServer.bytes) 4, (4 : Int)⟩)
    (.call _ _ _) (.sendLate _ _ _ rfl)) trivial
  have h3 := h2.tail (.client (e := ⟨.recv 3 4 4, Received.got (ascii "est!")⟩)
    (.call _ _ _) (.recv _ 4 4 4 (by decide) (by decide) (by decide))) trivial
  exact ⟨_, _, h3, rfl, rfl⟩

theorem agreement_of_runs_plain :
    (∀ σ, Steps (System.Step plainSetup) (Echoed plainSetup) (plainSetup.start none) σ →
        Agreement σ) ∧
      ∀ σ, plainSetup.Reach (plainSetup.start none) σ → ∀ f, σ.client = .ret f → ¬ Agreement σ :=
  agreement_of_runs plainSetup none

/-- A client that stores `est!`, left over from the reply to its handshake. -/
theorem agreement_leftover_false :
    ¬ ∀ (u : Setup) (server : Option LoopState) (σ : System),
      u.Reach (u.start server) σ → Agreement σ := by
  intro h
  obtain ⟨σ, f, hreach, hf, -⟩ := reach_leftover
  exact not_agreement_of_finished hreach hf (h plainSetup none σ hreach)

end OlegPrinter
