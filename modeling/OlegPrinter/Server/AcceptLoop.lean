/-
  The `while (1)` loop of the server's `main`: accept a connection, receive a command into
  `command`, take the branch of that command, close the connection.

  * `MainVars` are the variables of `main` that the loop uses; `LoopState` adds the storage of
    `command`, which the source does not initialise, so a turn starts with the bytes the
    turn before left there.
  * `recv(sock, &command, 1024, 0)` may deliver more than the four bytes of `command`. The
    rest is written over whatever the compiler placed behind it: `Layout` is that
    placement, one unknown effect for each variable, and no effect when nothing is written.
  * `cupsGetOption` is a parameter: CUPS is not part of the repository.
  * Passing NULL to `atoi` or `strcmp` stops the program (`Stop.nullString`).

  The debug output of the loop is left out.

  Runs: `turn_returned`, `turn_stopped` and `turn_halted` give the run of a turn from the run of
  its branch; `turn_answered`, `turn_killed`, `turn_silent`, `turn_printFile` and `turn_other`
  are all the turns there are. `turn_sends` and the `sentOn_turn` lemmas say what they send.
-/
import OlegPrinter.Lib.Socket
import OlegPrinter.Server.StateReason

namespace OlegPrinter

open CLib

/-! ## Data -/

/-- `cups_option_t`. -/
structure CupsOption where
  name : CStr
  value : CStr
  deriving DecidableEq

/-- `cups_dest_t`: the options of the destination, as CUPS returned them. -/
structure Dest where
  options : List CupsOption
  deriving DecidableEq

/-- `cupsGetOption(name, num_options, options)`: the value, or NULL. -/
abbrev CupsGetOption := CStr → List CupsOption → Option CStr

/-- The search by name, for lists whose names differ in more than their case. -/
def optionNamed : CupsGetOption := fun name options =>
  (options.find? fun o => o.name = name).map CupsOption.value

/-- A destination with the two options the server asks for. -/
def Dest.withStatus (state reasons : CStr) : Dest :=
  ⟨[⟨CStr.lit "printer-state", state⟩, ⟨CStr.lit "printer-state-reasons", reasons⟩]⟩

/-- The variables of `main` that the loop uses. -/
structure MainVars where
  listener : Int
  sock : Int
  dest : Dest
  deriving DecidableEq

/-- What bytes written past the end of `command` do to the other variables. -/
structure Layout where
  listener : List UInt8 → Int → Int
  sock : List UInt8 → Int → Int
  dest : List UInt8 → Dest → Dest
  listener_nil : ∀ l, listener [] l = l
  sock_nil : ∀ s, sock [] s = s
  dest_nil : ∀ d, dest [] d = d

/-- The variables after `past` was written behind `command`. -/
def Layout.overrun (lay : Layout) (past : List UInt8) (v : MainVars) : MainVars :=
  ⟨lay.listener past v.listener, lay.sock past v.sock, lay.dest past v.dest⟩

@[simp] theorem Layout.overrun_nil (lay : Layout) (v : MainVars) : lay.overrun [] v = v := by
  simp only [Layout.overrun, lay.listener_nil, lay.sock_nil, lay.dest_nil]

/-- A placement with nothing that matters behind `command`. -/
def Layout.apart : Layout :=
  ⟨fun _ l => l, fun _ s => s, fun _ d => d, fun _ => rfl, fun _ => rfl, fun _ => rfl⟩

/-- What `main` carries from one turn to the next. -/
structure LoopState where
  vars : MainVars
  command : Obj 4
  deriving DecidableEq

/-- A library function that reads a string. -/
inductive Callee where
  | atoi
  | strcmp
  deriving DecidableEq

/-- Why the server ends on its own: `exit`, or a NULL string. -/
inductive Stop where
  | exit (status : Nat)
  | nullString (callee : Callee)
  deriving DecidableEq

abbrev ServerProg := Prog SockCall Answer Stop

/-! ## The branches -/

/-- The arms of `switch (printer_st_i)`: `PRINTER_WORK` and `PRINTER_IDLE` share one. -/
inductive StateArm where
  | working
  | stopped
  deriving DecidableEq

/-- The arm taken, if any: the switch has no default. -/
def serverSwitch (printerStI : Int) : Option StateArm :=
  if printerStI = PrinterState.printerWork.code ∨ printerStI = PrinterState.printerIdle.code then
    some .working
  else if printerStI = PrinterState.printerStopped.code then some .stopped
  else none

section

variable (cupsGetOption : CupsGetOption)

/-- `printer_st_str`. -/
def printerStStr (options : List CupsOption) : Option CStr :=
  cupsGetOption (CStr.lit "printer-state") options

/-- `printer_st_reasons_str`. -/
def printerStReasonsStr (options : List CupsOption) : Option CStr :=
  cupsGetOption (CStr.lit "printer-state-reasons") options

/-- The PRINTER_INFO branch. In the PRINTER_STOPPED case the source passes
    `(int *) printer_st_reasons_i`, the code itself, as the address of the buffer. -/
def printerInfo (v : MainVars) : ServerProg Unit := do
  match printerStStr cupsGetOption v.dest.options with
  | none => .stop (.nullString .atoi)
  | some st =>
    let printerStI := atoi st.bytes
    match serverSwitch printerStI with
    | some .working =>
      let _ ← send v.sock (.object (Obj.ofInt printerStI).bytes) 4
      pure ()
    | some .stopped =>
      match printerStReasonsStr cupsGetOption v.dest.options with
      | none => .stop (.nullString .strcmp)
      | some reasons =>
        let stateReasonValue ← uninit
        let printerStReasonsI := getStateReason stateReasonValue.toInt reasons.bytes
        let _ ← send v.sock (.address printerStReasonsI) 4
        pure ()
    | none => pure ()

/-- The answer the branch chooses from the two option values: the arm of its switch, and
    the value (`printer_st_i`, or the code of the reason). -/
def chosenAnswer (slot : Int) (printerStStr printerStReasonsStr : Option CStr) :
    Option (StateArm × Int) :=
  match printerStStr with
  | none => none
  | some st =>
    match serverSwitch (atoi st.bytes) with
    | some .working => some (.working, atoi st.bytes)
    | some .stopped => printerStReasonsStr.map fun reasons =>
      (.stopped, getStateReason slot reasons.bytes)
    | none => none

/-- The three ways a status request can go: the state is sent, a code of the reasons is, or
    there is nothing to send (no state, an unknown one, or no reasons for a stopped printer). -/
theorem chosenAnswer_cases (slot : Int) (printerStStr printerStReasonsStr : Option CStr) :
    (∃ st, printerStStr = some st ∧ serverSwitch (atoi st.bytes) = some .working ∧
      chosenAnswer slot printerStStr printerStReasonsStr = some (.working, atoi st.bytes)) ∨
    (∃ st reasons, printerStStr = some st ∧ printerStReasonsStr = some reasons ∧
      serverSwitch (atoi st.bytes) = some .stopped ∧
      chosenAnswer slot printerStStr printerStReasonsStr =
        some (.stopped, getStateReason slot reasons.bytes)) ∨
    (chosenAnswer slot printerStStr printerStReasonsStr = none ∧
      (printerStStr = none ∨ ∃ st, printerStStr = some st ∧
        (serverSwitch (atoi st.bytes) = none ∨
          serverSwitch (atoi st.bytes) = some .stopped ∧ printerStReasonsStr = none))) := by
  rcases printerStStr with - | st
  · exact Or.inr (Or.inr ⟨rfl, Or.inl rfl⟩)
  · rcases hsw : serverSwitch (atoi st.bytes) with - | - | -
    · refine Or.inr (Or.inr ⟨?_, Or.inr ⟨st, rfl, Or.inl hsw⟩⟩)
      simp only [chosenAnswer, hsw]
    · refine Or.inl ⟨st, rfl, hsw, ?_⟩
      simp only [chosenAnswer, hsw]
    · rcases printerStReasonsStr with - | reasons
      · refine Or.inr (Or.inr ⟨?_, Or.inr ⟨st, rfl, Or.inr ⟨hsw, rfl⟩⟩⟩)
        simp only [chosenAnswer, hsw, Option.map_none]
      · refine Or.inr (Or.inl ⟨st, reasons, rfl, rfl, hsw, ?_⟩)
        simp only [chosenAnswer, hsw, Option.map_some]

/-- The buffer argument with which an answer is sent. -/
def answerPtr : StateArm × Int → Ptr
  | (.working, v) => .object (Obj.ofInt v).bytes
  | (.stopped, v) => .address v

/-- The variables of the PRINT_FILE branch at its end: the size as received, and the block at
    `path_file`, if `calloc` returned one. -/
structure PrintFileVars where
  pathFileSize : Obj 4
  pathFile : Option (List UInt8)

/-- The PRINT_FILE branch. `path_file_size` is an `int`; `calloc` and `recv` take it as a
    `size_t`. A NULL `path_file` is an object of no bytes. -/
def printFile (v : MainVars) : ServerProg PrintFileVars := do
  let r ← recv v.sock 4 4
  let pathFileSize := (Obj.zero 4).store r.bytes
  let size := sizeT pathFileSize.toInt
  let ok ← calloc size
  let r ← recv v.sock (if ok = true then size else 0) size
  pure ⟨pathFileSize,
    if ok = true then some ((Obj.zero size).store r.bytes).bytes else none⟩

/-- The branch of a command. PRINT_INFO and INFO_JOB are empty in the source. -/
def branch (v : MainVars) : Option ServerCommand → ServerProg (Option PrintFileVars)
  | some .printerInfo => do
    printerInfo cupsGetOption v
    pure none
  | some .printFile => do
    let w ← printFile v
    pure (some w)
  | some .printInfo => pure none
  | some .infoJob => pure none
  | none => pure none

/-- A finished turn: the state for the next one, and the variables of the PRINT_FILE branch. -/
structure Turn where
  state : LoopState
  path : Option PrintFileVars

/-- The loop body after `accept`. -/
def serve (lay : Layout) (v : MainVars) (command : Obj 4) : ServerProg Turn := do
  let r ← recv v.sock 4 1024
  let command := command.store r.bytes
  let v := lay.overrun (r.bytes.drop 4) v
  let path ← branch cupsGetOption v (dispatch command.toInt)
  close v.sock
  pure ⟨⟨v, command⟩, path⟩

/-- One turn of `while (1)`. -/
def turn (lay : Layout) (s : LoopState) : ServerProg Turn := do
  let sock ← accept s.vars.listener
  if sock < 0 then .stop (.exit 5)
  else serve cupsGetOption lay { s.vars with sock := sock } s.command

/-- The loop body, from state to state. -/
def turnState (lay : Layout) (s : LoopState) : ServerProg LoopState := do
  let t ← turn cupsGetOption lay s
  pure t.state

/-- The loop over a list of connections: how it ends, and all its calls. -/
def serveAll (lay : Layout) (s : LoopState) (conns : List Conn) :
    Outcome SockCall Stop Halt LoopState × List SockEvent :=
  Prog.runEach connHandler (turnState cupsGetOption lay) s conns

end

/-! ## The runs of the branches -/

/-- What the first `recv` of a turn returns. -/
def commandRecv (c : Conn) : Received := c.peer.received 1024

/-- The connection after the first `recv`. -/
def afterCommand (c : Conn) : Conn := { c with peer := c.peer.advance 1024 }

/-- The state of a turn when its branch is chosen: the command stored, the overrun done. -/
def received (lay : Layout) (s : LoopState) (c : Conn) : LoopState :=
  ⟨lay.overrun ((commandRecv c).bytes.drop 4) { s.vars with sock := c.peer.fd },
    s.command.store (commandRecv c).bytes⟩

/-- The destination and `sock` when the branch is chosen: what the bytes behind the command
    left of them. -/
def destSeen (lay : Layout) (dest : Dest) (p : Peer) : Dest :=
  lay.dest ((p.received 1024).bytes.drop 4) dest

def sockSeen (lay : Layout) (p : Peer) : Int :=
  lay.sock ((p.received 1024).bytes.drop 4) p.fd

/-- The command of a turn, if it is a known one. -/
def commandOf (s : LoopState) (c : Conn) : Option ServerCommand :=
  dispatch (s.command.store (commandRecv c).bytes).toInt

/-- The calls of a turn before its branch. -/
def opening (s : LoopState) (c : Conn) : List SockEvent :=
  [⟨.accept s.vars.listener, (c.peer.fd : Int)⟩, ⟨.recv c.peer.fd 4 1024, commandRecv c⟩]

section

variable {cupsGetOption : CupsGetOption} {lay : Layout} {s : LoopState} {c : Conn}

theorem received_dest (lay : Layout) (s : LoopState) (c : Conn) :
    (received lay s c).vars.dest = destSeen lay s.vars.dest c.peer := rfl

theorem received_sock (lay : Layout) (s : LoopState) (c : Conn) :
    (received lay s c).vars.sock = sockSeen lay c.peer := rfl

theorem turn_run :
    (turn cupsGetOption lay s).run connHandler c =
      ((branch cupsGetOption (received lay s c).vars (commandOf s c) >>= fun path => do
        close (received lay s c).vars.sock
        pure ⟨received lay s c, path⟩).run connHandler (afterCommand c)).after (opening s c) := by
  have hfd : ¬ ((c.peer.fd : Int) < 0) := by omega
  have hrecv : c.recv c.peer.fd 4 1024 = (commandRecv c, afterCommand c) :=
    Conn.recv_eq rfl (by decide) 1024
  have hanswer : connHandler.answer c (.recv c.peer.fd 4 1024) =
      .ok (commandRecv c, afterCommand c) := congrArg Except.ok hrecv
  unfold turn
  rw [Prog.perform_bind, Prog.run_call_ok (a := (c.peer.fd : Int)) (t := c) rfl, if_neg hfd]
  unfold serve
  rw [Prog.perform_bind, Prog.run_call_ok hanswer, Run.after_after]
  rfl

/-- A turn whose branch returns closes the descriptor and goes round. -/
theorem turn_returned {path : Option PrintFileVars} {tr : List SockEvent} {c' : Conn}
    (hb : (branch cupsGetOption (received lay s c).vars (commandOf s c)).run
      connHandler (afterCommand c) = ⟨.returned path, tr, c'⟩) :
    (turn cupsGetOption lay s).run connHandler c =
      ⟨.returned ⟨received lay s c, path⟩,
        opening s c ++ tr ++ [⟨.close (received lay s c).vars.sock, ()⟩], c'⟩ := by
  rw [turn_run, Prog.run_bind_returned hb, Prog.perform_bind,
    Prog.run_call_ok (a := ()) (t := c') rfl]
  simp [Run.after]

theorem turn_stopped {x : Stop} {tr : List SockEvent} {c' : Conn}
    (hb : (branch cupsGetOption (received lay s c).vars (commandOf s c)).run
      connHandler (afterCommand c) = ⟨.stopped x, tr, c'⟩) :
    (turn cupsGetOption lay s).run connHandler c = ⟨.stopped x, opening s c ++ tr, c'⟩ := by
  rw [turn_run, Prog.run_bind_stopped hb]
  rfl

theorem turn_halted {k : SockCall} {e : Halt} {tr : List SockEvent} {c' : Conn}
    (hb : (branch cupsGetOption (received lay s c).vars (commandOf s c)).run
      connHandler (afterCommand c) = ⟨.halted k e, tr, c'⟩) :
    (turn cupsGetOption lay s).run connHandler c = ⟨.halted k e, opening s c ++ tr, c'⟩ := by
  rw [turn_run, Prog.run_bind_halted hb]
  rfl

/-- Whatever its branch does, a turn begins with the same calls. -/
theorem turn_trace (cupsGetOption : CupsGetOption) (lay : Layout) (s : LoopState) (c : Conn) :
    ∃ tr, ((turn cupsGetOption lay s).run connHandler c).trace = opening s c ++ tr := by
  rw [turn_run]
  exact ⟨_, rfl⟩

/-- A turn that comes back leaves the received state. -/
theorem turn_returned_state {t : Turn} {tr : List SockEvent} {c' : Conn}
    (ht : (turn cupsGetOption lay s).run connHandler c = ⟨.returned t, tr, c'⟩) :
    t.state = received lay s c := by
  rw [turn_run] at ht
  generalize hq : (branch cupsGetOption (received lay s c).vars (commandOf s c) >>= fun path => do
    close (received lay s c).vars.sock
    pure ⟨received lay s c, path⟩ : ServerProg Turn).run connHandler (afterCommand c) = q at ht
  obtain ⟨o, tr', d⟩ := q
  cases ht
  obtain ⟨path, _, s₁, tr₂, -, hclose, -⟩ := Prog.run_bind_returned_inv hq
  rw [Prog.perform_bind, Prog.run_call_ok (a := ()) (t := s₁) rfl] at hclose
  cases hclose
  rfl

/-- The same for the turn as a step of the loop. -/
theorem turnState_run {t : Turn} {tr : List SockEvent} {c' : Conn}
    (ht : (turn cupsGetOption lay s).run connHandler c = ⟨.returned t, tr, c'⟩) :
    (turnState cupsGetOption lay s).run connHandler c = ⟨.returned t.state, tr, c'⟩ := by
  unfold turnState
  rw [Prog.run_bind_returned ht]
  simp [Run.after]

theorem turnState_inv {s' : LoopState} {tr : List SockEvent} {c' : Conn}
    (ht : (turnState cupsGetOption lay s).run connHandler c = ⟨.returned s', tr, c'⟩) :
    ∃ t, (turn cupsGetOption lay s).run connHandler c = ⟨.returned t, tr, c'⟩ ∧ s' = t.state := by
  obtain ⟨t, tr₁, s₁, tr₂, hturn, hret, rfl⟩ := Prog.run_bind_returned_inv ht
  cases hret
  exact ⟨t, by rw [hturn, List.append_nil], rfl⟩

/-- A run of the loop that is back at `accept`, split after its first turn. -/
theorem serveAll_cons_inv {s' : LoopState} {cs : List Conn} {tr : List SockEvent}
    (hrun : serveAll cupsGetOption lay s (c :: cs) = (.returned s', tr)) :
    ∃ t c' tr₁ tr₂, (turn cupsGetOption lay s).run connHandler c = ⟨.returned t, tr₁, c'⟩ ∧
      serveAll cupsGetOption lay (received lay s c) cs = (.returned s', tr₂) ∧ tr = tr₁ ++ tr₂ := by
  obtain ⟨b, c', tr₁, tr₂, hturn, hrest, htr⟩ := Prog.runEach_cons_inv hrun
  obtain ⟨t, ht, rfl⟩ := turnState_inv hturn
  rw [turn_returned_state ht] at hrest
  exact ⟨t, c', tr₁, tr₂, ht, hrest, htr⟩

theorem serveAll_cons {t : Turn} {tr : List SockEvent} {c' : Conn}
    (ht : (turn cupsGetOption lay s).run connHandler c = ⟨.returned t, tr, c'⟩) (cs : List Conn) :
    serveAll cupsGetOption lay s (c :: cs) =
      ((serveAll cupsGetOption lay (received lay s c) cs).1,
        tr ++ (serveAll cupsGetOption lay (received lay s c) cs).2) := by
  rw [← turn_returned_state ht]
  exact Prog.runEach_cons_returned (turnState_run ht) cs

/-! ### PRINTER_INFO -/

/-- A `send`, on the connection or wherever `sock` now points. -/
theorem send_run {v : MainVars} {d : Conn} (h : ¬ (v.sock = d.peer.fd ∧ d.peer.reset = true))
    (buf : Ptr) (len : Nat) :
    (send v.sock buf len >>= fun _ => pure () : ServerProg Unit).run connHandler d =
      ⟨.returned (), [⟨.send v.sock buf len, d.sendResult v.sock buf len⟩], d⟩ := by
  rw [Prog.perform_bind, Prog.run_call_ok (connHandler_send_ok h buf len)]
  rfl

theorem send_killed {v : MainVars} {d : Conn} (h : v.sock = d.peer.fd ∧ d.peer.reset = true)
    (buf : Ptr) (len : Nat) :
    (send v.sock buf len >>= fun _ => pure () : ServerProg Unit).run connHandler d =
      ⟨.halted (.send v.sock buf len) .sigpipe, [], d⟩ := by
  rw [Prog.perform_bind, Prog.run_call_error (connHandler_send_killed h buf len)]

/-- The answer chosen for the options of a destination. -/
def answerOf (cupsGetOption : CupsGetOption) (slot : Int) (dest : Dest) :
    Option (StateArm × Int) :=
  chosenAnswer slot (printerStStr cupsGetOption dest.options)
    (printerStReasonsStr cupsGetOption dest.options)

/-- The uninitialised `state_reason_value` is read on the way to a reason code. -/
def reasonEvents (arm : StateArm) (d : Conn) : List SockEvent :=
  match arm with
  | .working => []
  | .stopped => [⟨.uninit, d.host.stack⟩]

variable {v : MainVars} {d : Conn}

/-- The branch sends the answer it chooses. -/
theorem printerInfo_answer {a : StateArm × Int}
    (ha : answerOf cupsGetOption d.host.stack.toInt v.dest = some a) :
    (printerInfo cupsGetOption v).run connHandler d =
      ((send v.sock (answerPtr a) 4 >>= fun _ => pure () : ServerProg Unit).run connHandler
        d).after (reasonEvents a.1 d) := by
  have hu : connHandler.answer d .uninit = .ok (d.host.stack, d) := rfl
  unfold answerOf at ha
  rcases chosenAnswer_cases d.host.stack.toInt (printerStStr cupsGetOption v.dest.options)
    (printerStReasonsStr cupsGetOption v.dest.options) with
    ⟨st, hst, hsw, hchosen⟩ | ⟨st, reasons, hst, hrs, hsw, hchosen⟩ | ⟨hchosen, -⟩
  · rw [hchosen] at ha
    obtain rfl := Option.some.inj ha
    simp only [printerInfo, hst, hsw]
    rfl
  · rw [hchosen] at ha
    obtain rfl := Option.some.inj ha
    simp only [printerInfo, hst, hrs, hsw]
    rw [Prog.perform_bind, Prog.run_call_ok hu]
    rfl
  · rw [hchosen] at ha
    exact absurd ha (by simp)

/-- When there is no answer to choose, the branch does nothing, or a NULL string is passed. -/
theorem printerInfo_silent (ha : answerOf cupsGetOption d.host.stack.toInt v.dest = none) :
    ∃ o, (printerInfo cupsGetOption v).run connHandler d = ⟨o, [], d⟩ ∧
      (o = .returned () ∨
        (o = .stopped (.nullString .atoi) ∧ printerStStr cupsGetOption v.dest.options = none) ∨
        (o = .stopped (.nullString .strcmp) ∧
          printerStReasonsStr cupsGetOption v.dest.options = none)) := by
  unfold answerOf at ha
  rcases chosenAnswer_cases d.host.stack.toInt (printerStStr cupsGetOption v.dest.options)
    (printerStReasonsStr cupsGetOption v.dest.options) with
    ⟨st, -, -, hchosen⟩ | ⟨st, reasons, -, -, -, hchosen⟩ | ⟨-, hst | ⟨st, hst, hsw | ⟨hsw, hrs⟩⟩⟩
  · rw [hchosen] at ha
    exact absurd ha (by simp)
  · rw [hchosen] at ha
    exact absurd ha (by simp)
  · refine ⟨_, ?_, Or.inr (Or.inl ⟨rfl, hst⟩)⟩
    simp only [printerInfo, hst]
    rfl
  · refine ⟨_, ?_, Or.inl rfl⟩
    simp only [printerInfo, hst, hsw]
    rfl
  · refine ⟨_, ?_, Or.inr (Or.inr ⟨rfl, hrs⟩)⟩
    simp only [printerInfo, hst, hrs, hsw]
    rfl

/-! ### PRINT_FILE -/

/-- `path_file_size` after its `recv`. -/
def sizeReceived (v : MainVars) (d : Conn) : Obj 4 :=
  (Obj.zero 4).store (d.recv v.sock 4 4).1.bytes

/-- The size as `calloc` and `recv` take it. -/
def sizeRequested (v : MainVars) (d : Conn) : Nat := sizeT (sizeReceived v d).toInt

/-- The `recv` of the path: into the block, or into NULL. -/
def pathRecv (v : MainVars) (d : Conn) : Received × Conn :=
  (d.recv v.sock 4 4).2.recv v.sock
    (if d.host.callocOk (sizeRequested v d) = true then sizeRequested v d else 0)
    (sizeRequested v d)

/-- The calls of the branch. -/
def printFileTrace (v : MainVars) (d : Conn) : List SockEvent :=
  [⟨.recv v.sock 4 4, (d.recv v.sock 4 4).1⟩,
    ⟨.calloc (sizeRequested v d), d.host.callocOk (sizeRequested v d)⟩,
    ⟨.recv v.sock (if d.host.callocOk (sizeRequested v d) = true then sizeRequested v d else 0)
      (sizeRequested v d), (pathRecv v d).1⟩]

/-- The variables at the end of the branch. -/
def printFileVars (v : MainVars) (d : Conn) : PrintFileVars :=
  ⟨sizeReceived v d,
    if d.host.callocOk (sizeRequested v d) = true then
      some ((Obj.zero (sizeRequested v d)).store (pathRecv v d).1.bytes).bytes
    else none⟩

/-- The size field as the client sent it, zero-filled where it sent less. -/
def sizeField (c : Conn) : Obj 4 := (Obj.zero 4).store ((c.peer.advance 1024).received 4).bytes

theorem sizeReceived_of_sock {v : MainVars} {c : Conn} (h : v.sock = c.peer.fd) :
    sizeReceived v (afterCommand c) = sizeField c := by
  unfold sizeReceived
  rw [Conn.recv_eq (c := afterCommand c) h (by decide : 0 < 4)]
  rfl

theorem conn_recv_host (d : Conn) (fd : Int) (cap len : Nat) :
    (d.recv fd cap len).2.host = d.host := by
  unfold Conn.recv
  split_ifs <;> rfl

/-- The branch always returns: nothing in it is checked. -/
theorem printFile_run (v : MainVars) (d : Conn) :
    (printFile v).run connHandler d =
      ⟨.returned (printFileVars v d), printFileTrace v d, (pathRecv v d).2⟩ := by
  have hrecv (e : Conn) (cap len : Nat) : connHandler.answer e (.recv v.sock cap len) =
      .ok ((e.recv v.sock cap len).1, (e.recv v.sock cap len).2) := rfl
  have hcalloc : connHandler.answer (d.recv v.sock 4 4).2 (.calloc (sizeRequested v d)) =
      .ok (d.host.callocOk (sizeRequested v d), (d.recv v.sock 4 4).2) := by
    simp only [connHandler, conn_recv_host]
  have hsize : sizeT ((Obj.zero 4).store (d.recv v.sock 4 4).1.bytes).toInt = sizeRequested v d :=
    rfl
  unfold printFile
  rw [Prog.perform_bind, Prog.run_call_ok (hrecv d 4 4)]
  simp only [hsize]
  rw [Prog.perform_bind, Prog.run_call_ok hcalloc]
  rw [Prog.perform_bind, Prog.run_call_ok (hrecv _ _ _)]
  simp only [Prog.pure_eq, Prog.run_ret, Run.after, List.append_nil, List.cons_append,
    List.nil_append]
  rfl

/-! ### The branches together -/

theorem branch_printerInfo : branch cupsGetOption v (some .printerInfo) =
    printerInfo cupsGetOption v >>= fun _ => pure none := rfl

theorem branch_printFile : (branch cupsGetOption v (some .printFile)).run connHandler d =
    ⟨.returned (some (printFileVars v d)), printFileTrace v d, (pathRecv v d).2⟩ := by
  unfold branch
  rw [Prog.run_bind_returned (printFile_run v d)]
  simp [Run.after]

/-- PRINT_INFO, INFO_JOB and unknown commands do nothing. -/
theorem branch_other {k : Option ServerCommand} (h1 : k ≠ some .printerInfo)
    (h2 : k ≠ some .printFile) :
    (branch cupsGetOption v k).run connHandler d = ⟨.returned none, [], d⟩ := by
  rcases k with - | - | - | - | -
  · rfl
  · exact absurd rfl h1
  · exact absurd rfl h2
  · rfl
  · rfl

/-! ### The turns -/

/-- The `send` of an answer in a turn, and its result. -/
def answerEvent (lay : Layout) (s : LoopState) (c : Conn) (a : StateArm × Int) : SockEvent :=
  ⟨.send (received lay s c).vars.sock (answerPtr a) 4,
    (afterCommand c).sendResult (received lay s c).vars.sock (answerPtr a) 4⟩

/-- The answer goes to a peer that has reset the connection. -/
def AnswerKills (lay : Layout) (s : LoopState) (c : Conn) : Prop :=
  (received lay s c).vars.sock = c.peer.fd ∧ c.peer.reset = true

instance : Decidable (AnswerKills lay s c) := inferInstanceAs (Decidable (_ ∧ _))

/-- The closing call of a turn. -/
def closing (lay : Layout) (s : LoopState) (c : Conn) : List SockEvent :=
  [⟨.close (received lay s c).vars.sock, ()⟩]

/-- A status request that is answered. -/
theorem turn_answered {a : StateArm × Int} (hk : commandOf s c = some .printerInfo)
    (ha : answerOf cupsGetOption c.host.stack.toInt (received lay s c).vars.dest = some a)
    (hn : ¬ AnswerKills lay s c) :
    (turn cupsGetOption lay s).run connHandler c =
      ⟨.returned ⟨received lay s c, none⟩,
        opening s c ++ (reasonEvents a.1 c ++ [answerEvent lay s c a]) ++ closing lay s c,
        afterCommand c⟩ := by
  have hn' : ¬ ((received lay s c).vars.sock = (afterCommand c).peer.fd ∧
      (afterCommand c).peer.reset = true) := hn
  have hp := printerInfo_answer (d := afterCommand c) ha
  rw [send_run hn'] at hp
  refine turn_returned ?_
  rw [hk, branch_printerInfo, Prog.run_bind_returned hp]
  simp only [Run.after, Prog.pure_eq, Prog.run_ret, List.append_nil]
  rfl

/-- A status request whose answer raises SIGPIPE. -/
theorem turn_killed {a : StateArm × Int} (hk : commandOf s c = some .printerInfo)
    (ha : answerOf cupsGetOption c.host.stack.toInt (received lay s c).vars.dest = some a)
    (hn : AnswerKills lay s c) :
    (turn cupsGetOption lay s).run connHandler c =
      ⟨.halted (.send (received lay s c).vars.sock (answerPtr a) 4) .sigpipe,
        opening s c ++ reasonEvents a.1 c, afterCommand c⟩ := by
  have hn' : (received lay s c).vars.sock = (afterCommand c).peer.fd ∧
      (afterCommand c).peer.reset = true := hn
  have hp := printerInfo_answer (d := afterCommand c) ha
  rw [send_killed hn'] at hp
  refine turn_halted ?_
  rw [hk, branch_printerInfo, Prog.run_bind_halted hp]
  simp only [List.append_nil]
  rfl

/-- A status request without an answer: nothing is sent, or the server crashes on NULL. -/
theorem turn_silent (hk : commandOf s c = some .printerInfo)
    (ha : answerOf cupsGetOption c.host.stack.toInt (received lay s c).vars.dest = none) :
    (turn cupsGetOption lay s).run connHandler c =
        ⟨.returned ⟨received lay s c, none⟩, opening s c ++ [] ++ closing lay s c,
          afterCommand c⟩ ∨
      ∃ callee, (turn cupsGetOption lay s).run connHandler c =
          ⟨.stopped (.nullString callee), opening s c ++ [], afterCommand c⟩ ∧
        (printerStStr cupsGetOption (received lay s c).vars.dest.options = none ∨
          printerStReasonsStr cupsGetOption (received lay s c).vars.dest.options = none) := by
  obtain ⟨o, hp, ho⟩ := printerInfo_silent (v := (received lay s c).vars) (d := afterCommand c) ha
  rcases ho with rfl | ⟨rfl, hnull⟩ | ⟨rfl, hnull⟩
  · left
    refine turn_returned ?_
    rw [hk, branch_printerInfo, Prog.run_bind_returned hp]
    rfl
  · right
    refine ⟨.atoi, turn_stopped ?_, Or.inl hnull⟩
    rw [hk, branch_printerInfo, Prog.run_bind_stopped hp]
  · right
    refine ⟨.strcmp, turn_stopped ?_, Or.inr hnull⟩
    rw [hk, branch_printerInfo, Prog.run_bind_stopped hp]

/-- A file request. -/
theorem turn_printFile (hk : commandOf s c = some .printFile) :
    (turn cupsGetOption lay s).run connHandler c =
      ⟨.returned ⟨received lay s c,
          some (printFileVars (received lay s c).vars (afterCommand c))⟩,
        opening s c ++ printFileTrace (received lay s c).vars (afterCommand c) ++
          closing lay s c,
        (pathRecv (received lay s c).vars (afterCommand c)).2⟩ :=
  turn_returned (by rw [hk]; exact branch_printFile)

/-- Any other command, known or not. -/
theorem turn_other (h1 : commandOf s c ≠ some .printerInfo)
    (h2 : commandOf s c ≠ some .printFile) :
    (turn cupsGetOption lay s).run connHandler c =
      ⟨.returned ⟨received lay s c, none⟩, opening s c ++ [] ++ closing lay s c,
        afterCommand c⟩ :=
  turn_returned (branch_other h1 h2)

/-! ### What a turn sends -/

/-- The sending calls for an answer, or for none. -/
def answerCalls (sock : Int) : Option (StateArm × Int) → List SockCall
  | some a => [.send sock (answerPtr a) 4]
  | none => []

theorem answerCalls_inj {sock : Int} {a b : Option (StateArm × Int)} :
    answerCalls sock a = answerCalls sock b ↔ a.map answerPtr = b.map answerPtr := by
  cases a <;> cases b <;> simp [answerCalls]

/-- All calls of a request with an answer: the last ones are the `send` and, if the server
    survives it, the `close`. -/
theorem turn_calls {a : StateArm × Int} (hk : commandOf s c = some .printerInfo)
    (ha : answerOf cupsGetOption c.host.stack.toInt (received lay s c).vars.dest = some a) :
    ((turn cupsGetOption lay s).run connHandler c).calls =
      (opening s c ++ reasonEvents a.1 c).map Sigma.fst ++
        .send (received lay s c).vars.sock (answerPtr a) 4 ::
          if AnswerKills lay s c then [] else [.close (received lay s c).vars.sock] := by
  by_cases hkill : AnswerKills lay s c
  · rw [turn_killed hk ha hkill, if_pos hkill]
    rfl
  · rw [turn_answered hk ha hkill, if_neg hkill]
    simp [Run.calls, answerEvent, closing]

/-- Before the `send` nothing is sent or closed. -/
theorem opening_calls (arm : StateArm) :
    ∀ k ∈ (opening s c ++ reasonEvents arm c).map Sigma.fst,
      k.isSend = false ∧ k.isClose = false := by
  cases arm <;> simp [opening, reasonEvents, SockCall.isSend, SockCall.isClose]

/-- The only `send` of a status request is that of the answer, if there is one. -/
theorem turn_sends (hk : commandOf s c = some .printerInfo) :
    ((turn cupsGetOption lay s).run connHandler c).calls.filter SockCall.isSend =
      answerCalls (received lay s c).vars.sock
        (answerOf cupsGetOption c.host.stack.toInt (received lay s c).vars.dest) := by
  rcases ha : answerOf cupsGetOption c.host.stack.toInt (received lay s c).vars.dest with - | a
  · rcases turn_silent hk ha with h | ⟨callee, h, -⟩ <;> rw [h] <;> rfl
  · have hbefore : ((opening s c ++ reasonEvents a.1 c).map Sigma.fst).filter SockCall.isSend =
        [] := List.filter_eq_nil_iff.mpr fun k hk => by simp [(opening_calls a.1 k hk).1]
    rw [turn_calls hk ha, List.filter_append, hbefore]
    split_ifs <;> rfl

end

/-! ## A status request -/

theorem printerStStr_withStatus (state reasons : CStr) :
    printerStStr optionNamed (Dest.withStatus state reasons).options = some state := rfl

theorem printerStReasonsStr_withStatus (state reasons : CStr) :
    printerStReasonsStr optionNamed (Dest.withStatus state reasons).options = some reasons := rfl

/-- The server at the head of its loop, for this destination. -/
def statusState (dest : Dest) : LoopState := ⟨⟨3, 0, dest⟩, Obj.zero 4⟩

/-- An idle printer. -/
def idleDest : Dest := Dest.withStatus (CStr.lit "4") (CStr.lit "none")

def idleState : LoopState := statusState idleDest

/-- A client that sends the four zero bytes of PRINTER_INFO. -/
def statusConn : Conn := ⟨Peer.sending 4 [[0, 0, 0, 0]] (by decide), Host.blank⟩

theorem commandOf_statusConn (dest : Dest) :
    commandOf (statusState dest) statusConn = some .printerInfo := by
  have hbytes : ((Obj.zero 4).store (commandRecv statusConn).bytes).bytes =
      ServerCommand.printerInfo.bytes := by decide
  exact dispatch_eq_some_iff.mpr hbytes

end OlegPrinter
