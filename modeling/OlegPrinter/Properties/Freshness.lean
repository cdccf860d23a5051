/-
  How old a status answer is.

  `main` looks the destination up once, before it listens, and the loop reads the options of that
  snapshot. A `World` is the printer and the server; in a run the printer changes state and
  clients ask for it, in any order, and the printer may also change state between `accept` and the
  answer.

  * `dest_of_run`: no step of a run touches the snapshot.
  * `answeredFrom_snapshot`: every answer is the one for the state at start-up.
  * `freshness`: so it is fresh exactly when a state the printer had since `accept` happens
    to have the same answer.

  Of CUPS: `cupsGetDestWithURI` returns the options as they are at the call, and
  `cupsGetOption` looks only at the list it is given (it is a function of it).
-/
import OlegPrinter.Server.AcceptLoop

namespace OlegPrinter

open CLib

/-! ## Runs -/

/-- The printer, by the options it would be found with now, and the server at its loop. -/
structure World where
  printer : Dest
  server : LoopState

/-- `cupsGetDestWithURI(NULL, dest_URI_str)`. -/
def cupsGetDestWithURI (printer : Dest) : Dest := printer

/-- The server at the head of its loop for the first time: the lookup was done at `printer`. -/
def World.start (printer : Dest) (listener sock : Int) (command : Obj 4) : World :=
  ⟨printer, ⟨⟨listener, sock, cupsGetDestWithURI printer⟩, command⟩⟩

/-- A connection that is served the command PRINTER_INFO, and whose bytes behind it, if there are any,
    leave the variables of the server alone. -/
structure StatusRequest (lay : Layout) (s : LoopState) (c : Conn) : Prop where
  command : commandOf s c = some .printerInfo
  alone : lay.overrun ((commandRecv c).bytes.drop 4) { s.vars with sock := c.peer.fd } =
    { s.vars with sock := c.peer.fd }

/-- The printer changes state, or a status request is served while the printer goes through
    the states `during`. -/
inductive World.Step (cupsGetOption : CupsGetOption) (lay : Layout) : World → World → Prop
  | change (w : World) (now : Dest) : World.Step cupsGetOption lay w { w with printer := now }
  | request (w : World) (c : Conn) (during : List Dest) (t : Turn) (tr : List SockEvent)
      (c' : Conn) (hc : StatusRequest lay w.server c)
      (ht : (turn cupsGetOption lay w.server).run connHandler c = ⟨.returned t, tr, c'⟩) :
      World.Step cupsGetOption lay w ⟨during.getLastD w.printer, t.state⟩

/-- The calls of this turn are those of the answer for the destination `d`. -/
def AnsweredFrom (cupsGetOption : CupsGetOption) (lay : Layout) (s : LoopState) (c : Conn)
    (d : Dest) : Prop :=
  ((turn cupsGetOption lay s).run connHandler c).calls.filter SockCall.isSend =
    answerCalls c.peer.fd (answerOf cupsGetOption c.host.stack.toInt d)

/-- The answer is one for a state the printer had when the connection was accepted or later. -/
def Fresh (cupsGetOption : CupsGetOption) (lay : Layout) (w : World) (c : Conn)
    (during : List Dest) : Prop :=
  ∃ d ∈ w.printer :: during, AnsweredFrom cupsGetOption lay w.server c d

/-! ## The snapshot -/

section

variable {cupsGetOption : CupsGetOption} {lay : Layout}

/-- The four bytes of the command and nothing else leave everything alone. -/
theorem StatusRequest.of_stream {s : LoopState} {c : Conn} (hcommand : commandOf s c = some .printerInfo)
    (hstream : c.peer.segments.flatten = ServerCommand.printerInfo.bytes) : StatusRequest lay s c := by
  refine ⟨hcommand, ?_⟩
  have htake := c.peer.received_eq_take 1024
  have hlen := congrArg List.length htake
  rw [hstream, List.length_take, ServerCommand.bytes_length] at hlen
  have hshort : (commandRecv c).bytes.length ≤ 4 := by
    show (c.peer.received 1024).bytes.length ≤ 4
    omega
  rw [List.drop_of_length_le hshort, Layout.overrun_nil]

theorem StatusRequest.received_vars {s : LoopState} {c : Conn} (hc : StatusRequest lay s c) :
    (received lay s c).vars = { s.vars with sock := c.peer.fd } := hc.alone

theorem dest_of_step {w w' : World} (h : World.Step cupsGetOption lay w w') :
    w'.server.vars.dest = w.server.vars.dest := by
  cases h with
  | change now => rfl
  | request c during t tr c' hc ht =>
    show t.state.vars.dest = w.server.vars.dest
    rw [turn_returned_state ht, hc.received_vars]

/-- Every run keeps the destination of its start. -/
theorem dest_of_run {w w' : World} (h : Relation.ReflTransGen (World.Step cupsGetOption lay) w w') :
    w'.server.vars.dest = w.server.vars.dest := by
  induction h with
  | refl => rfl
  | tail _ hstep ih => exact (dest_of_step hstep).trans ih

/-- A status request is answered from the destination the server holds. -/
theorem answeredFrom_dest {s : LoopState} {c : Conn} (hc : StatusRequest lay s c) :
    AnsweredFrom cupsGetOption lay s c s.vars.dest := by
  unfold AnsweredFrom
  rw [turn_sends hc.command]
  simp only [hc.received_vars]

theorem answeredFrom_snapshot {printer : Dest} {listener sock : Int} {command : Obj 4} {w : World}
    (hrun : Relation.ReflTransGen (World.Step cupsGetOption lay)
      (World.start printer listener sock command) w)
    {c : Conn} (hc : StatusRequest lay w.server c) :
    AnsweredFrom cupsGetOption lay w.server c printer := by
  have hdest : w.server.vars.dest = printer := dest_of_run hrun
  have h : AnsweredFrom cupsGetOption lay w.server c w.server.vars.dest := answeredFrom_dest hc
  rwa [hdest] at h

/-- Two destinations stand behind the same calls exactly when they have the same answer. -/
theorem answeredFrom_iff {s : LoopState} {c : Conn} {d d' : Dest}
    (h : AnsweredFrom cupsGetOption lay s c d) :
    AnsweredFrom cupsGetOption lay s c d' ↔
      (answerOf cupsGetOption c.host.stack.toInt d').map answerPtr =
        (answerOf cupsGetOption c.host.stack.toInt d).map answerPtr := by
  unfold AnsweredFrom at h ⊢
  rw [h, answerCalls_inj, eq_comm]

end

/-- In every run, every status request is answered from the snapshot taken at start-up; the answer
    is fresh exactly when a state the printer had since `accept` has the same one. -/
theorem freshness (cupsGetOption : CupsGetOption) (lay : Layout) (printer : Dest)
    (listener sock : Int) (command : Obj 4) (w : World)
    (hrun : Relation.ReflTransGen (World.Step cupsGetOption lay)
      (World.start printer listener sock command) w)
    (c : Conn) (during : List Dest) (hc : StatusRequest lay w.server c) :
    AnsweredFrom cupsGetOption lay w.server c printer ∧
      (Fresh cupsGetOption lay w c during ↔ ∃ d ∈ w.printer :: during,
        (answerOf cupsGetOption c.host.stack.toInt d).map answerPtr =
          (answerOf cupsGetOption c.host.stack.toInt printer).map answerPtr) := by
  have h := answeredFrom_snapshot hrun hc
  refine ⟨h, ?_⟩
  unfold Fresh
  simp only [answeredFrom_iff h]

/-- A printer that was idle at start-up and then ran out of paper. -/
def emptyDest : Dest := Dest.withStatus (CStr.lit "5") (CStr.lit "media-empty")

theorem run_to_empty :
    Relation.ReflTransGen (World.Step optionNamed Layout.apart)
      (World.start idleDest 3 0 (Obj.zero 4))
      ⟨emptyDest, (World.start idleDest 3 0 (Obj.zero 4)).server⟩ :=
  .single (.change _ emptyDest)

theorem statusRequest_statusConn :
    StatusRequest Layout.apart (World.start idleDest 3 0 (Obj.zero 4)).server statusConn :=
  .of_stream (commandOf_statusConn _) (by decide)

theorem freshness_empty :
    AnsweredFrom optionNamed Layout.apart (World.start idleDest 3 0 (Obj.zero 4)).server statusConn
        idleDest ∧
      (Fresh optionNamed Layout.apart ⟨emptyDest, (World.start idleDest 3 0 (Obj.zero 4)).server⟩
          statusConn [] ↔ ∃ d ∈ [emptyDest],
        (answerOf optionNamed statusConn.host.stack.toInt d).map answerPtr =
          (answerOf optionNamed statusConn.host.stack.toInt idleDest).map answerPtr) :=
  freshness optionNamed Layout.apart idleDest 3 0 (Obj.zero 4) _ run_to_empty statusConn []
    statusRequest_statusConn

/-- There the answer is still `idle`. -/
theorem freshness_empty_false :
    ¬ ∀ (cupsGetOption : CupsGetOption) (lay : Layout) (printer : Dest) (listener sock : Int)
      (command : Obj 4) (w : World) (c : Conn) (during : List Dest),
      Relation.ReflTransGen (World.Step cupsGetOption lay)
        (World.start printer listener sock command) w →
      StatusRequest lay w.server c → Fresh cupsGetOption lay w c during := by
  intro h
  obtain ⟨d, hd, hfresh⟩ := h optionNamed Layout.apart idleDest 3 0 (Obj.zero 4) _ statusConn []
    run_to_empty statusRequest_statusConn
  have hsnapshot := answeredFrom_snapshot run_to_empty statusRequest_statusConn
  rw [List.mem_singleton.mp hd, answeredFrom_iff hsnapshot] at hfresh
  exact absurd hfresh (by decide)

end OlegPrinter
