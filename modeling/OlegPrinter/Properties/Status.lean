/-
  The PRINTER_INFO request: what the server chooses, what it sends, what the client makes of it.

  Values. `chosenAnswer` is a printer state in the working arm and a reason code in the stopped
  arm, and the client reads either by a switch on printer states (`clientSwitch`).
  * `decoderInverts_iff`: the arms agree, except when the state is PRINTER_STOPPED: a reason
    code is at least 6 and falls in the client's default arm, and an unknown text of reasons
    gives the contents of an uninitialised variable.

  Calls. `AnsweredOnce` is one `send` of the chosen answer, from an object that holds it,
  before the descriptor is closed, with no NULL string on the way.
  * `answeredOnce_iff`: that is so exactly for a working or idle printer (and a `sock` the
    request has not overwritten). The stopped arm passes the code as an address.
-/
import OlegPrinter.Server.AcceptLoop
import OlegPrinter.Client.Main

namespace OlegPrinter

open CLib

/-! ## The arms of the two switches -/

theorem serverSwitch_eq_stopped_iff (i : Int) :
    serverSwitch i = some .stopped ↔ i = PrinterState.printerStopped.code := by
  unfold serverSwitch
  split_ifs with h1 h2
  · have : i ≠ PrinterState.printerStopped.code := by
      rcases h1 with rfl | rfl <;> decide
    simp [this]
  · simp [h2]
  · simp [h2]

/-- The client switches on the same three values, and has a default. -/
theorem clientSwitch_eq (i : Int) :
    Client.clientSwitch i = match serverSwitch i with
      | some .working => .working
      | some .stopped => .stopped
      | none => .other := by
  unfold Client.clientSwitch serverSwitch
  split_ifs <;> rfl

/-- No reason code is a state code. -/
theorem clientSwitch_reason (r : PrinterStateReason) : Client.clientSwitch r.code = .other := by
  cases r <;> decide

/-- The answer in the working arm is the state itself. -/
theorem chosenAnswer_working {slot v : Int} {st reasons : Option CStr}
    (h : chosenAnswer slot st reasons = some (.working, v)) :
    ∃ s, st = some s ∧ v = atoi s.bytes ∧ serverSwitch v = some .working := by
  rcases chosenAnswer_cases slot st reasons with
    ⟨s, hst, hsw, hc⟩ | ⟨s, rs, -, -, -, hc⟩ | ⟨hc, -⟩ <;> rw [hc] at h <;> cases h
  exact ⟨s, hst, rfl, hsw⟩

/-- The answer in the stopped arm is what `getStateReason` returns. -/
theorem chosenAnswer_stopped {slot v : Int} {st reasons : Option CStr}
    (h : chosenAnswer slot st reasons = some (.stopped, v)) :
    ∃ s rs, st = some s ∧ reasons = some rs ∧ serverSwitch (atoi s.bytes) = some .stopped ∧
      v = getStateReason slot rs.bytes := by
  rcases chosenAnswer_cases slot st reasons with
    ⟨s, -, -, hc⟩ | ⟨s, rs, hst, hrs, hsw, hc⟩ | ⟨hc, -⟩ <;> rw [hc] at h <;> cases h
  exact ⟨s, rs, hst, hrs, hsw, rfl⟩

/-! ## The client's decoder -/

/-- Whatever the server chooses to answer for these two strings, the client takes the arm of the
    status the server saw, and never its default. -/
def DecoderInverts (slot : Int) (st reasons : CStr) : Prop :=
  ∀ arm v, chosenAnswer slot (some st) (some reasons) = some (arm, v) →
    (Client.clientSwitch v = .working ↔ arm = .working) ∧
      (Client.clientSwitch v = .stopped ↔ arm = .stopped) ∧
      Client.clientSwitch v ≠ .other

/-- The value sent for a stopped printer is decoded as one only by chance: when the text of
    reasons is unknown and the uninitialised variable holds PRINTER_STOPPED. -/
theorem clientSwitch_getStateReason_iff (slot : Int) (reasons : CStr) :
    Client.clientSwitch (getStateReason slot reasons.bytes) = .stopped ↔
      ¬ Recognised reasons ∧ slot = PrinterState.printerStopped.code := by
  by_cases hr : Recognised reasons
  · obtain ⟨r, hcode⟩ := getStateReason_recognised hr
    rw [hcode slot, clientSwitch_reason]
    simp [hr]
  · rw [getStateReason_unrecognised hr, clientSwitch_eq, ← serverSwitch_eq_stopped_iff]
    simp only [hr, not_false_eq_true, true_and]
    cases serverSwitch slot with
    | none => simp
    | some arm => cases arm <;> simp

/-- The decoder inverts the encoder exactly for printers that are not stopped (or by the chance of
    `clientSwitch_getStateReason_iff`). -/
theorem decoderInverts_iff (slot : Int) (st reasons : CStr) :
    DecoderInverts slot st reasons ↔
      (atoi st.bytes = PrinterState.printerStopped.code →
        ¬ Recognised reasons ∧ slot = PrinterState.printerStopped.code) := by
  rw [← clientSwitch_getStateReason_iff, ← serverSwitch_eq_stopped_iff]
  refine ⟨fun h hst => ?_, fun h arm v hv => ?_⟩
  · have hchosen : chosenAnswer slot (some st) (some reasons) =
        some (.stopped, getStateReason slot reasons.bytes) := by
      simp only [chosenAnswer, hst, Option.map_some]
    exact (h .stopped _ hchosen).2.1.mpr rfl
  · cases arm with
    | working =>
      obtain ⟨s, -, -, hsw⟩ := chosenAnswer_working hv
      have hcl : Client.clientSwitch v = .working := by rw [clientSwitch_eq, hsw]
      rw [hcl]
      decide
    | stopped =>
      obtain ⟨s, rs, hs, hrs, hsw, rfl⟩ := chosenAnswer_stopped hv
      cases hs
      cases hrs
      rw [h hsw]
      decide

/-- A stopped printer whose reason is `paused`: the answer is 17. -/
theorem decoderInverts_paused_false :
    ¬ ∀ (slot : Int) (st reasons : CStr), DecoderInverts slot st reasons := by
  intro h
  have h17 : chosenAnswer 0 (some (CStr.lit "5")) (some (CStr.lit "paused")) =
      some (.stopped, 17) := by decide
  exact (h 0 _ _ .stopped 17 h17).2.2 (by decide)

/-! ## One answer for each request -/

/-- `cupsGetOption` answers for a status request: one `send` of four bytes of an object that
    holds the chosen answer, before any `close`; and no NULL string is passed on. -/
def AnsweredOnce (cupsGetOption : CupsGetOption) (lay : Layout) (s : LoopState) (c : Conn) :
    Prop :=
  let run := (turn cupsGetOption lay s).run connHandler c
  (∀ callee, run.outcome ≠ .stopped (.nullString callee)) ∧
    ∃ arm v rest,
      answerOf cupsGetOption c.host.stack.toInt (received lay s c).vars.dest = some (arm, v) ∧
      run.calls.filter (fun k => k.isSend || k.isClose) =
        .send c.peer.fd (.object (Obj.ofInt v).bytes) 4 :: rest ∧
      ∀ k ∈ rest, k.isSend = false

section

variable {cupsGetOption : CupsGetOption} {lay : Layout} {s : LoopState} {c : Conn}

/-- The sends and closes of a turn that has an answer: it is sent at once, whether or not the
    server survives that. -/
theorem turn_calls_of_answer {a : StateArm × Int} (hk : commandOf s c = some .printerInfo)
    (ha : answerOf cupsGetOption c.host.stack.toInt (received lay s c).vars.dest = some a) :
    (∀ x, ((turn cupsGetOption lay s).run connHandler c).outcome ≠ .stopped x) ∧
    ∃ rest, ((turn cupsGetOption lay s).run connHandler c).calls.filter
        (fun k => k.isSend || k.isClose) =
      .send (received lay s c).vars.sock (answerPtr a) 4 :: rest ∧
      ∀ k ∈ rest, k.isSend = false := by
  have hbefore : ((opening s c ++ reasonEvents a.1 c).map Sigma.fst).filter
      (fun k => k.isSend || k.isClose) = [] := by
    refine List.filter_eq_nil_iff.mpr fun k hk => ?_
    obtain ⟨hsend, hclose⟩ := opening_calls a.1 k hk
    simp [hsend, hclose]
  refine ⟨?_, (if AnswerKills lay s c then [] else [.close (received lay s c).vars.sock]), ?_, ?_⟩
  · by_cases hkill : AnswerKills lay s c
    · rw [turn_killed hk ha hkill]
      exact nofun
    · rw [turn_answered hk ha hkill]
      exact nofun
  · rw [turn_calls hk ha, List.filter_append, hbefore]
    split_ifs <;> rfl
  · split_ifs <;> simp [SockCall.isSend]

/-- An answered request was one about a working or idle printer. -/
theorem working_of_answeredOnce (hk : commandOf s c = some .printerInfo)
    (h : AnsweredOnce cupsGetOption lay s c) :
    sockSeen lay c.peer = c.peer.fd ∧
      ∃ st, printerStStr cupsGetOption (destSeen lay s.vars.dest c.peer).options = some st ∧
        serverSwitch (atoi st.bytes) = some .working := by
  obtain ⟨-, arm, v, rest, ha, hcalls, -⟩ := h
  obtain ⟨-, rest', hcalls', -⟩ := turn_calls_of_answer hk ha
  have hhead := (List.cons.inj (hcalls'.symm.trans hcalls)).1
  obtain ⟨hsock, hptr, -⟩ := SockCall.send.inj hhead
  rw [received_sock] at hsock
  cases arm with
  | stopped => cases hptr
  | working =>
    obtain ⟨st, hst, hv, hsw⟩ := chosenAnswer_working ha
    exact ⟨hsock, st, hst, hv ▸ hsw⟩

theorem answeredOnce_of_working (hk : commandOf s c = some .printerInfo)
    (hsock : sockSeen lay c.peer = c.peer.fd) {st : CStr}
    (hst : printerStStr cupsGetOption (destSeen lay s.vars.dest c.peer).options = some st)
    (hsw : serverSwitch (atoi st.bytes) = some .working) :
    AnsweredOnce cupsGetOption lay s c := by
  have ha : answerOf cupsGetOption c.host.stack.toInt (received lay s c).vars.dest =
      some (.working, atoi st.bytes) := by
    unfold answerOf
    rw [received_dest, hst]
    simp only [chosenAnswer, hsw]
  obtain ⟨hout, rest, hcalls, hrest⟩ := turn_calls_of_answer hk ha
  refine ⟨fun callee => hout _, .working, atoi st.bytes, rest, ha, ?_, hrest⟩
  rw [hcalls, received_sock, hsock]
  rfl

end

/-- A status request is answered exactly once, from an object that holds the answer, exactly when
    the bytes behind the command leave `sock` alone and a destination with a working or idle
    state. -/
theorem answeredOnce_iff (cupsGetOption : CupsGetOption) (lay : Layout) (s : LoopState) (c : Conn)
    (hk : commandOf s c = some .printerInfo) :
    AnsweredOnce cupsGetOption lay s c ↔
      sockSeen lay c.peer = c.peer.fd ∧
        ∃ st, printerStStr cupsGetOption (destSeen lay s.vars.dest c.peer).options = some st ∧
          serverSwitch (atoi st.bytes) = some .working := by
  refine ⟨working_of_answeredOnce hk, ?_⟩
  rintro ⟨hsock, st, hst, hsw⟩
  exact answeredOnce_of_working hk hsock hst hsw

theorem answeredOnce_iff_idle :
    AnsweredOnce optionNamed Layout.apart idleState statusConn :=
  (answeredOnce_iff optionNamed Layout.apart idleState statusConn (commandOf_statusConn _)).mpr
    ⟨rfl, CStr.lit "4", printerStStr_withStatus _ _, by decide⟩

/-- A stopped printer: the answer is read at address 17. -/
theorem answeredOnce_paused_false :
    ¬ ∀ (cupsGetOption : CupsGetOption) (lay : Layout) (s : LoopState) (c : Conn),
      commandOf s c = some .printerInfo → AnsweredOnce cupsGetOption lay s c := by
  intro h
  have hk := commandOf_statusConn (Dest.withStatus (CStr.lit "5") (CStr.lit "paused"))
  obtain ⟨-, st, hst, hsw⟩ := working_of_answeredOnce hk (h optionNamed Layout.apart _ _ hk)
  cases (printerStStr_withStatus _ _).symm.trans hst
  exact absurd hsw (by decide)

end OlegPrinter
