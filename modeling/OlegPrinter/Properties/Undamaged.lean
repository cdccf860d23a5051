/-
  What a client can do to the server.

  `Undamaged W` is the loop invariant: after any number of the connections the server is back at
  `accept`, its listener and destination are what they were, every descriptor it accepted is
  closed, no block is held, and every call passed the test `W`. With `W := RecvWithin` no
  `recv` may ask for more than its object holds.

  * `undamaged_within_iff`: with that test the invariant breaks in the first turn, whoever
    connects, since `command` is received with a length of 1024.
  * `undamaged_iff_benign`: with that one length forgiven it holds, for every placement of the
    variables, exactly in the runs of `BenignTurn` turns: at most four command bytes in one
    segment, no answer to a client that has reset the connection, no file request (but for
    one of size 0 when `calloc` returns NULL for that).
  * `undamaged_iff`: both.
-/
import OlegPrinter.Server.AcceptLoop

namespace OlegPrinter

open CLib

/-! ## The invariant -/

/-- Nothing is left over between two heads of the loop, and every call passed the test. -/
structure Intact (W : SockEvent → Prop) (s s' : LoopState) (tr : List SockEvent) : Prop where
  listener : s'.vars.listener = s.vars.listener
  dest : s'.vars.dest = s.vars.dest
  closed : openFds tr = []
  freed : heldBlocks tr = 0
  passed : ∀ e ∈ tr, W e

/-- The server comes back to `accept` intact after every one of the connections. -/
def Undamaged (W : SockEvent → Prop) (cupsGetOption : CupsGetOption) (lay : Layout)
    (s : LoopState) (conns : List Conn) : Prop :=
  ∀ pre, pre <+: conns → ∃ s' tr, serveAll cupsGetOption lay s pre = (.returned s', tr) ∧
    Intact W s s' tr

/-- `RecvWithin`, but for the `recv` of `command`. -/
def WithinButCommand (e : SockEvent) : Prop :=
  RecvWithin e ∨ ∃ fd, e.1 = .recv fd 4 1024

section

variable {W : SockEvent → Prop} {s s₁ s₂ : LoopState} {tr₁ tr₂ : List SockEvent}

theorem Intact.nil : Intact W s s [] := ⟨rfl, rfl, rfl, rfl, nofun⟩

theorem Intact.append (h₁ : Intact W s s₁ tr₁) (h₂ : Intact W s₁ s₂ tr₂) :
    Intact W s s₂ (tr₁ ++ tr₂) where
  listener := h₂.listener.trans h₁.listener
  dest := h₂.dest.trans h₁.dest
  closed := by rw [openFds_append, h₁.closed]; exact h₂.closed
  freed := by rw [heldBlocks_append, h₁.freed]; exact h₂.freed
  passed e he := (List.mem_append.mp he).elim (h₁.passed e) (h₂.passed e)

theorem Intact.of_append (h₁ : Intact W s s₁ tr₁) (h : Intact W s s₂ (tr₁ ++ tr₂)) :
    Intact W s₁ s₂ tr₂ where
  listener := h.listener.trans h₁.listener.symm
  dest := h.dest.trans h₁.dest.symm
  closed := by have hc := h.closed; rw [openFds_append, h₁.closed] at hc; exact hc
  freed := by have hf := h.freed; rw [heldBlocks_append, h₁.freed] at hf; exact hf
  passed e he := h.passed e (List.mem_append_right tr₁ he)

variable {cupsGetOption : CupsGetOption} {lay : Layout} {c : Conn} {cs : List Conn}

theorem undamaged_nil : Undamaged W cupsGetOption lay s [] := by
  intro pre hpre
  rw [List.prefix_nil.mp hpre]
  exact ⟨s, [], rfl, .nil⟩

/-- A run goes on intact from an intact turn exactly as it would from there. -/
theorem undamaged_cons {t : Turn} {c' : Conn}
    (ht : (turn cupsGetOption lay s).run connHandler c = ⟨.returned t, tr₁, c'⟩)
    (hi : Intact W s (received lay s c) tr₁) :
    Undamaged W cupsGetOption lay s (c :: cs) ↔
      Undamaged W cupsGetOption lay (received lay s c) cs := by
  refine ⟨fun h pre hpre => ?_, fun h pre hpre => ?_⟩
  · obtain ⟨s', tr, hrun, hs'⟩ := h (c :: pre) (List.cons_prefix_cons.mpr ⟨rfl, hpre⟩)
    rw [serveAll_cons ht] at hrun
    obtain ⟨hout, rfl⟩ := Prod.mk.inj hrun
    exact ⟨s', _, Prod.ext hout rfl, hi.of_append hs'⟩
  · rcases List.prefix_cons_iff.mp hpre with rfl | ⟨pre', rfl, hpre'⟩
    · exact ⟨s, [], rfl, .nil⟩
    · obtain ⟨s', tr, hrun, hs'⟩ := h pre' hpre'
      refine ⟨s', tr₁ ++ tr, ?_, hi.append hs'⟩
      rw [serveAll_cons ht, hrun]

/-- The first turn of an undamaged run. -/
theorem undamaged_first (h : Undamaged W cupsGetOption lay s (c :: cs)) :
    ∃ t tr c', (turn cupsGetOption lay s).run connHandler c = ⟨.returned t, tr, c'⟩ ∧
      Intact W s (received lay s c) tr := by
  obtain ⟨s', tr, hrun, hs'⟩ := h [c] (List.cons_prefix_cons.mpr ⟨rfl, List.nil_prefix⟩)
  obtain ⟨t, c', tr₁, tr₂, ht, hrest, rfl⟩ := serveAll_cons_inv hrun
  cases hrest
  rw [List.append_nil] at hs'
  exact ⟨t, tr₁, c', ht, hs'⟩

/-- No turn keeps its receives within their objects. -/
theorem undamaged_within_iff {conns : List Conn} :
    Undamaged RecvWithin cupsGetOption lay s conns ↔ conns = [] := by
  refine ⟨fun h => ?_, ?_⟩
  · cases conns with
    | nil => rfl
    | cons c cs =>
      obtain ⟨t, tr, c', ht, hi⟩ := undamaged_first h
      obtain ⟨tr', htr⟩ := turn_trace cupsGetOption lay s c
      rw [ht] at htr
      have hmem : (⟨.recv c.peer.fd 4 1024, commandRecv c⟩ : SockEvent) ∈ tr := by
        rw [show tr = opening s c ++ tr' from htr]
        simp [opening]
      have hlen : 1024 ≤ 4 := hi.passed _ hmem
      omega
  · rintro rfl
    exact undamaged_nil

end

/-! ## Benign turns -/

/-- The destination carries both options. -/
def CarriesStatus (cupsGetOption : CupsGetOption) (dest : Dest) : Prop :=
  ∃ st reasons, printerStStr cupsGetOption dest.options = some st ∧
    printerStReasonsStr cupsGetOption dest.options = some reasons

/-- The size field of a file request, zero-filled where the client sent less. -/
def wireSize (c : Conn) : Int := (sizeField c).toInt

/-- A turn that does no harm: no byte lands behind `command`; a status request has no answer, or a
    client that takes it; a file request asks for nothing and gets no block. -/
structure BenignTurn (cupsGetOption : CupsGetOption) (s : LoopState) (c : Conn) : Prop where
  short : (commandRecv c).bytes.length ≤ 4
  answer : commandOf s c = some .printerInfo → c.peer.reset = true →
    ∀ st, printerStStr cupsGetOption s.vars.dest.options = some st →
      serverSwitch (atoi st.bytes) = none
  file : commandOf s c = some .printFile → wireSize c = 0 ∧ c.host.callocOk 0 = false

/-- A run of benign turns: `command` keeps its bytes from one to the next. -/
def BenignRun (cupsGetOption : CupsGetOption) : LoopState → List Conn → Prop
  | _, [] => True
  | s, c :: cs => BenignTurn cupsGetOption s c ∧
      BenignRun cupsGetOption (received Layout.apart s c) cs

/-- A placement under which every byte behind `command` moves the listener. -/
def Layout.beforeListener : Layout :=
  ⟨fun past l => l + past.length, fun _ s => s, fun _ d => d,
    fun l => by simp, fun _ => rfl, fun _ => rfl⟩

section

variable {cupsGetOption : CupsGetOption} {lay : Layout} {s : LoopState} {c : Conn}

theorem received_apart_vars :
    (received Layout.apart s c).vars = { s.vars with sock := c.peer.fd } := rfl

/-- A short receive writes nothing behind `command`. -/
theorem received_of_short (h : (commandRecv c).bytes.length ≤ 4) (lay : Layout) :
    received lay s c = received Layout.apart s c := by
  unfold received
  rw [List.drop_of_length_le h, Layout.overrun_nil, Layout.overrun_nil]

/-- The size asked for, once the turn is in its file branch. -/
theorem sizeRequested_eq (hsock : (received lay s c).vars.sock = c.peer.fd) :
    sizeRequested (received lay s c).vars (afterCommand c) = sizeT (wireSize c) := by
  unfold sizeRequested wireSize
  rw [sizeReceived_of_sock hsock]

theorem sizeT_wireSize_eq_zero_iff : sizeT (wireSize c) = 0 ↔ wireSize c = 0 :=
  sizeT_eq_zero_iff (Obj.toInt_inRange _)

/-- The shape of every turn: accept, receive, a part that touches no descriptor, close. -/
theorem intact_turn {W : SockEvent → Prop} {mid : List SockEvent}
    (hr : received lay s c = received Layout.apart s c)
    (hW : ∀ e ∈ opening s c ++ mid ++ closing lay s c, W e)
    (hfds : mid.foldl fdStep [(c.peer.fd : Int)] = [(c.peer.fd : Int)])
    (hblocks : mid.foldl blockStep 0 = 0) :
    Intact W s (received lay s c) (opening s c ++ mid ++ closing lay s c) where
  listener := by rw [hr]; rfl
  dest := by rw [hr]; rfl
  closed := by
    have hopen : openFds (opening s c) = [(c.peer.fd : Int)] := by simp [openFds, opening, fdStep]
    rw [openFds_append, openFds_append, hopen, hfds, closing, hr]
    simp [fdStep, received_apart_vars]
  freed := by
    have hopen : heldBlocks (opening s c) = 0 := rfl
    rw [heldBlocks_append, heldBlocks_append, hopen, hblocks]
    rfl
  passed := hW

theorem within_opening : ∀ e ∈ opening s c, WithinButCommand e := by
  intro e he
  simp only [opening, List.mem_cons, List.not_mem_nil, or_false] at he
  rcases he with rfl | rfl
  · exact Or.inl trivial
  · exact Or.inr ⟨_, rfl⟩

theorem within_closing : ∀ e ∈ closing lay s c, WithinButCommand e := by
  intro e he
  rw [List.mem_singleton.mp he]
  exact Or.inl trivial

/-- The whole trace passes when its middle part does. -/
theorem within_turn {mid : List SockEvent} (hmid : ∀ e ∈ mid, WithinButCommand e) :
    ∀ e ∈ opening s c ++ mid ++ closing lay s c, WithinButCommand e := by
  intro e he
  rw [List.mem_append, List.mem_append] at he
  rcases he with (he | he) | he
  · exact within_opening e he
  · exact hmid e he
  · exact within_closing e he

/-- The middle part of an answered request. -/
theorem answer_events (lay : Layout) (s : LoopState) (c : Conn) (a : StateArm × Int) :
    (∀ e ∈ reasonEvents a.1 c ++ [answerEvent lay s c a], WithinButCommand e) ∧
      (∀ fds, (reasonEvents a.1 c ++ [answerEvent lay s c a]).foldl fdStep fds = fds) ∧
      (reasonEvents a.1 c ++ [answerEvent lay s c a]).foldl blockStep 0 = 0 := by
  obtain ⟨arm, v⟩ := a
  cases arm with
  | working =>
    refine ⟨fun e he => ?_, fun fds => rfl, rfl⟩
    rw [List.mem_singleton.mp he]
    exact Or.inl trivial
  | stopped =>
    refine ⟨fun e he => ?_, fun fds => rfl, rfl⟩
    simp only [reasonEvents, List.cons_append, List.nil_append, List.mem_cons, List.not_mem_nil,
      or_false] at he
    rcases he with rfl | rfl
    · exact Or.inl trivial
    · exact Or.inl trivial

/-- The receive of the path fits only when there is a block, or nothing is asked for. -/
theorem within_path_iff (fd : Int) (ok : Bool) (n : Nat) (r : Received) :
    WithinButCommand ⟨.recv fd (if ok = true then n else 0) n, r⟩ ↔ ok = true ∨ n = 0 := by
  cases ok with
  | true =>
    have hle : RecvWithin ⟨.recv fd n n, r⟩ := Nat.le_refl n
    simp only [true_or, iff_true]
    exact Or.inl hle
  | false =>
    refine ⟨fun h => ?_, fun h => ?_⟩
    · rcases h with hw | ⟨fd', hfd⟩
      · have hle : n ≤ 0 := hw
        omega
      · cases hfd
    · have hle : n ≤ 0 := by simpa using h
      exact Or.inl hle

/-- The middle part of a file request. -/
theorem printFile_events (v : MainVars) (d : Conn) :
    (∀ fds, (printFileTrace v d).foldl fdStep fds = fds) ∧
      (printFileTrace v d).foldl blockStep 0 =
        (if d.host.callocOk (sizeRequested v d) = true then 1 else 0) ∧
      ((∀ e ∈ printFileTrace v d, WithinButCommand e) ↔
        d.host.callocOk (sizeRequested v d) = true ∨ sizeRequested v d = 0) := by
  refine ⟨fun fds => rfl, rfl, ?_⟩
  have hsize : WithinButCommand ⟨.recv v.sock 4 4, (d.recv v.sock 4 4).1⟩ :=
    Or.inl (Nat.le_refl 4)
  have hcalloc : WithinButCommand ⟨.calloc (sizeRequested v d),
    d.host.callocOk (sizeRequested v d)⟩ := Or.inl trivial
  rw [← within_path_iff v.sock _ _ (pathRecv v d).1]
  simp only [printFileTrace, List.forall_mem_cons, List.not_mem_nil, false_implies, implies_true,
    and_true]
  exact ⟨fun h => h.2.2, fun h => ⟨hsize, hcalloc, h⟩⟩

/-- With both options, only an unknown state has no answer. -/
theorem answerOf_eq_none_iff {dest : Dest} {st reasons : CStr} (slot : Int)
    (hst : printerStStr cupsGetOption dest.options = some st)
    (hrs : printerStReasonsStr cupsGetOption dest.options = some reasons) :
    answerOf cupsGetOption slot dest = none ↔ serverSwitch (atoi st.bytes) = none := by
  unfold answerOf
  rw [hst, hrs]
  rcases chosenAnswer_cases slot (some st) (some reasons) with
    ⟨s, hs, hsw, hc⟩ | ⟨s, rs, hs, -, hsw, hc⟩ | ⟨hc, hnone | ⟨s, hs, hsw | ⟨-, hrs'⟩⟩⟩
  · obtain rfl := Option.some.inj hs
    simp [hc, hsw]
  · obtain rfl := Option.some.inj hs
    simp [hc, hsw]
  · exact absurd hnone (by simp)
  · obtain rfl := Option.some.inj hs
    simp [hc, hsw]
  · exact absurd hrs' (by simp)

/-- A benign turn comes back intact, wherever the compiler put the variables. -/
theorem intact_of_benignTurn (hc : CarriesStatus cupsGetOption s.vars.dest)
    (hb : BenignTurn cupsGetOption s c) (lay : Layout) :
    ∃ t tr c', (turn cupsGetOption lay s).run connHandler c = ⟨.returned t, tr, c'⟩ ∧
      Intact WithinButCommand s (received lay s c) tr := by
  have hr := received_of_short (s := s) hb.short lay
  have hsock : (received lay s c).vars.sock = c.peer.fd := by rw [hr]; rfl
  have hdest : (received lay s c).vars.dest = s.vars.dest := by rw [hr]; rfl
  obtain ⟨st, reasons, hst, hrs⟩ := hc
  by_cases hinfo : commandOf s c = some .printerInfo
  · cases ha : answerOf cupsGetOption c.host.stack.toInt (received lay s c).vars.dest with
    | some a =>
      have hlive : ¬ AnswerKills lay s c := by
        rintro ⟨-, hreset⟩
        rw [hdest, (answerOf_eq_none_iff _ hst hrs).mpr (hb.answer hinfo hreset st hst)] at ha
        cases ha
      obtain ⟨hW, hfds, hblocks⟩ := answer_events lay s c a
      exact ⟨_, _, _, turn_answered hinfo ha hlive,
        intact_turn hr (within_turn hW) (hfds _) hblocks⟩
    | none =>
      rcases turn_silent hinfo ha with hturn | ⟨callee, -, hnull⟩
      · exact ⟨_, _, _, hturn, intact_turn hr (within_turn nofun) rfl rfl⟩
      · rw [hdest, hst, hrs] at hnull
        rcases hnull with h | h <;> cases h
  · by_cases hfile : commandOf s c = some .printFile
    · obtain ⟨hzero, hnull⟩ := hb.file hfile
      have hsize : sizeRequested (received lay s c).vars (afterCommand c) = 0 := by
        rw [sizeRequested_eq hsock, sizeT_wireSize_eq_zero_iff, hzero]
      obtain ⟨hfds, hblocks, hW⟩ := printFile_events (received lay s c).vars (afterCommand c)
      refine ⟨_, _, _, turn_printFile hfile, intact_turn hr (within_turn (hW.mpr (Or.inr hsize)))
        (hfds _) ?_⟩
      rw [hblocks, hsize]
      exact if_neg (by simp [afterCommand, hnull])
    · exact ⟨_, _, _, turn_other hinfo hfile, intact_turn hr (within_turn nofun) rfl rfl⟩

/-- A turn that comes back intact, wherever the compiler put the variables, is benign. -/
theorem benignTurn_of_intact (hc : CarriesStatus cupsGetOption s.vars.dest)
    (h : ∀ lay, ∃ t tr c', (turn cupsGetOption lay s).run connHandler c = ⟨.returned t, tr, c'⟩ ∧
      Intact WithinButCommand s (received lay s c) tr) :
    BenignTurn cupsGetOption s c where
  short := by
    obtain ⟨t, tr, c', -, hi⟩ := h Layout.beforeListener
    have hl : s.vars.listener + (((commandRecv c).bytes.drop 4).length : Int) = s.vars.listener :=
      hi.listener
    rw [List.length_drop] at hl
    omega
  answer := by
    intro hinfo hreset st hst
    obtain ⟨t, tr, c', hturn, -⟩ := h Layout.apart
    obtain ⟨_, reasons, -, hrs⟩ := hc
    rw [← answerOf_eq_none_iff c.host.stack.toInt hst hrs]
    cases ha : answerOf cupsGetOption c.host.stack.toInt s.vars.dest with
    | some a =>
      have ha' : answerOf cupsGetOption c.host.stack.toInt
          (received Layout.apart s c).vars.dest = some a := ha
      rw [turn_killed hinfo ha' ⟨rfl, hreset⟩] at hturn
      cases hturn
    | none => rfl
  file := by
    intro hfile
    obtain ⟨t, tr, c', hturn, hi⟩ := h Layout.apart
    rw [turn_printFile hfile] at hturn
    cases hturn
    obtain ⟨-, hblocks, hW⟩ := printFile_events (received Layout.apart s c).vars (afterCommand c)
    have hopen : heldBlocks (opening s c) = 0 := rfl
    have hfreed := hi.freed
    rw [heldBlocks_append, heldBlocks_append, hopen, hblocks] at hfreed
    have hnull : (afterCommand c).host.callocOk
        (sizeRequested (received Layout.apart s c).vars (afterCommand c)) = false := by
      by_contra hok
      rw [if_pos (by simpa using hok)] at hfreed
      cases hfreed
    have hpassed := hW.mp fun e he =>
      hi.passed e (List.mem_append_left _ (List.mem_append_right _ he))
    have hsize := hpassed.resolve_left (by simp [hnull])
    rw [hsize] at hnull
    rw [sizeRequested_eq rfl, sizeT_wireSize_eq_zero_iff] at hsize
    exact ⟨hsize, hnull⟩

/-- With the length of the command forgiven, the undamaged runs are the benign ones. -/
theorem undamaged_iff_benign (conns : List Conn) (hc : CarriesStatus cupsGetOption s.vars.dest) :
    (∀ lay, Undamaged WithinButCommand cupsGetOption lay s conns) ↔
      BenignRun cupsGetOption s conns := by
  induction conns generalizing s with
  | nil => exact ⟨fun _ => trivial, fun _ _ => undamaged_nil⟩
  | cons c cs ih =>
    have ih' := ih (s := received Layout.apart s c) hc
    refine ⟨fun h => ?_, fun ⟨hb, hrest⟩ lay => ?_⟩
    · have hb := benignTurn_of_intact hc fun lay => undamaged_first (h lay)
      refine ⟨hb, ih'.mp fun lay => ?_⟩
      obtain ⟨t, tr, c', hturn, hi⟩ := undamaged_first (h lay)
      rw [← received_of_short hb.short lay]
      exact (undamaged_cons hturn hi).mp (h lay)
    · obtain ⟨t, tr, c', hturn, hi⟩ := intact_of_benignTurn hc hb lay
      rw [undamaged_cons hturn hi, received_of_short hb.short lay]
      exact ih'.mpr hrest lay

end

/-- The invariant of the accept loop holds for no client at all, and but for the length of the
    command's `recv` it holds exactly in benign runs. -/
theorem undamaged_iff (cupsGetOption : CupsGetOption) (s : LoopState) (conns : List Conn)
    (hc : CarriesStatus cupsGetOption s.vars.dest) :
    (∀ lay, Undamaged RecvWithin cupsGetOption lay s conns ↔ conns = []) ∧
      ((∀ lay, Undamaged WithinButCommand cupsGetOption lay s conns) ↔
        BenignRun cupsGetOption s conns) :=
  ⟨fun _ => undamaged_within_iff, undamaged_iff_benign conns hc⟩

theorem idleState_carriesStatus : CarriesStatus optionNamed idleState.vars.dest :=
  ⟨_, _, printerStStr_withStatus _ _, printerStReasonsStr_withStatus _ _⟩

theorem undamaged_iff_idle :
    (∀ lay, Undamaged RecvWithin optionNamed lay idleState [statusConn] ↔ [statusConn] = []) ∧
      ((∀ lay, Undamaged WithinButCommand optionNamed lay idleState [statusConn]) ↔
        BenignRun optionNamed idleState [statusConn]) :=
  undamaged_iff optionNamed idleState [statusConn] idleState_carriesStatus

/-- One status request for an idle printer. -/
theorem undamaged_idle_false :
    ¬ ∀ (cupsGetOption : CupsGetOption) (lay : Layout) (s : LoopState) (conns : List Conn),
      CarriesStatus cupsGetOption s.vars.dest → Undamaged RecvWithin cupsGetOption lay s conns := by
  intro h
  have hrun := h optionNamed Layout.apart idleState [statusConn] idleState_carriesStatus
  exact absurd (undamaged_within_iff.mp hrun) (List.cons_ne_nil _ _)

end OlegPrinter
