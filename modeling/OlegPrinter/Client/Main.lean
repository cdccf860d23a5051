/-
  The client: `main` from the connected socket on, and its `test_sock`.

  `rec_mess` and `answ_server` are uninitialised, so their contents on entry are arguments.
  `test_sock` returns 0 when the server answered `Test!`, and 1 otherwise; the loop in `main`
  runs its body, which ends in `exit(3)`, when the result is 0. Console output is left out;
  what is printed is the arm of `switch (answ_server)`.
-/
import OlegPrinter.Lib.Socket
import OlegPrinter.PrinterState

namespace OlegPrinter.Client

open CLib

/-- `exit(status)`. -/
inductive Stop where
  | exit (status : Nat)
  deriving DecidableEq

abbrev ClientProg := Prog SockCall Answer Stop

/-- `char mess[] = "Test!"`, six bytes with its NUL. -/
def mess : List UInt8 := ascii "Test!" ++ [0]

/-- `test_sock(sock)`; `recMess` is the array as it was before. -/
def testSock (sock : Int) (recMess : Obj 6) : ClientProg Int := do
  let _ ← send sock (.object mess) 6
  let r ← recv sock 6 6
  let recMess := recMess.store r.bytes
  if strcmp mess recMess.bytes = 0 then pure 0
  else pure 1

/-- The arms of `switch (answ_server)`. -/
inductive Arm where
  | working
  | stopped
  | other
  deriving DecidableEq

/-- `PRINTER_WORK` and `PRINTER_IDLE` share an arm; there is a default. -/
def clientSwitch (answServer : Int) : Arm :=
  if answServer = PrinterState.printerWork.code ∨ answServer = PrinterState.printerIdle.code then
    .working
  else if answServer = PrinterState.printerStopped.code then .stopped
  else .other

/-- The end of `main`: the bytes the last `recv` stored, `answ_server`, and the arm it takes. -/
structure Finish where
  stored : List UInt8
  answServer : Obj 4
  arm : Arm

/-- `comm_server` is PRINTER_INFO. -/
def commServer : ServerCommand := .printerInfo

/-- Send the command, receive the answer. -/
def exchange (sockServer : Int) (answServer : Obj 4) : ClientProg Finish := do
  let _ ← send sockServer (.object commServer.bytes) 4
  let r ← recv sockServer 4 4
  let answServer := answServer.store r.bytes
  pure ⟨r.bytes, answServer, clientSwitch answServer.toInt⟩

/-- `for (int i = 1; test_sock(sock_server) == 0 && i <= 3; i++)` with a body that exits, then
    the exchange. -/
def main (sockServer : Int) (recMess : Obj 6) (answServer : Obj 4) : ClientProg Finish := do
  let r ← testSock sockServer recMess
  if r = 0 ∧ 1 ≤ 3 then .stop (.exit 3)
  else exchange sockServer answServer

/-- The string `Test!`, as the comparison of `test_sock` sees it. -/
def Matches (recMess : Obj 6) : Prop := cstr recMess.bytes = ascii "Test!"

instance (recMess : Obj 6) : Decidable (Matches recMess) := inferInstanceAs (Decidable (_ = _))

theorem strcmp_mess_iff (recMess : Obj 6) : strcmp mess recMess.bytes = 0 ↔ Matches recMess := by
  have hm : cstr mess = ascii "Test!" := by decide
  rw [strcmp_eq_zero_iff, hm]
  exact eq_comm

/-! ## The points of `main` -/

/-- After the handshake was received: leave when it matched, go on when it did not. -/
def afterHandshake (sockServer : Int) (recMess : Obj 6) (answServer : Obj 4) (r : Received) :
    ClientProg Finish :=
  if Matches (recMess.store r.bytes) then .stop (.exit 3) else exchange sockServer answServer

theorem main_eq (sockServer : Int) (recMess : Obj 6) (answServer : Obj 4) :
    main sockServer recMess answServer =
      send sockServer (.object mess) 6 >>= fun _ =>
        recv sockServer 6 6 >>= afterHandshake sockServer recMess answServer := by
  unfold main testSock
  rw [Prog.perform_bind, Prog.perform_bind, Prog.call_bind]
  congr 1
  funext _
  rw [Prog.perform_bind, Prog.call_bind]
  congr 1
  funext r
  unfold afterHandshake
  by_cases h : Matches (recMess.store r.bytes)
  · rw [if_pos h, if_pos ((strcmp_mess_iff _).mpr h)]
    rfl
  · rw [if_neg h, if_neg (fun h' => h ((strcmp_mess_iff _).mp h'))]
    rfl

end OlegPrinter.Client
