/-
  The two programs together: one server, one client, one connection between them.

  The server is in its handshake (`ServerState.startup`) or in its accept loop; the client runs its
  `main` from the connected socket on. Their calls interleave in any order, and every answer the
  connection allows may come (`CLib.AcceptorCall`, `CLib.ConnectorCall`). When a process
  ends, its end of the connection is closed.

  `System.answers` records the bytes the server sent on the connection from its accept loop.
-/
import OlegPrinter.Lib.Connection
import OlegPrinter.Server.TestSock
import OlegPrinter.Client.Main

namespace OlegPrinter

open CLib

/-- What is fixed in a run: CUPS, where the compiler put the variables, what memory holds,
    the descriptors, and the contents of the uninitialised variables. -/
structure Setup where
  cupsGetOption : CupsGetOption
  lay : Layout
  memory : Memory
  afterSample : Obj 2
  data : Obj 8
  listener : Int
  fd : Nat
  sock : Int
  recMess : Obj 6
  answServer : Obj 4

/-- The rest of the server's program. -/
inductive ServerState where
  | startup (p : ServerProg Unit)
  | loop (p : ServerProg LoopState)

structure System where
  server : ServerState
  client : Client.ClientProg Client.Finish
  net : Connection
  answers : List (List UInt8)

namespace Setup

variable (u : Setup)

/-- The handshake loop of the server's `main`. -/
def handshake : ServerProg Unit := handshakeLoop u.afterSample u.data u.listener 1

/-- A turn of the accept loop. -/
def turnFrom (s : LoopState) : ServerProg LoopState := turnState u.cupsGetOption u.lay s

/-- The client's `main`. -/
def client : Client.ClientProg Client.Finish := Client.main u.sock u.recMess u.answServer

/-- The client has connected; the server is in `test_sock`, or at the head of its loop in some
    state. -/
def start (server : Option LoopState) : System where
  server := match server with
    | none => .startup u.handshake
    | some s => .loop (u.turnFrom s)
  client := u.client
  net := .fresh
  answers := []

/-- What a call of the server adds to the answers: the bytes of a successful `send` on the
    connection, when the server is in its loop. -/
def answersOf : ServerState → SockEvent → List (List UInt8)
  | .loop _, ⟨.send fd buf len, r⟩ =>
    if fd = u.fd ∧ r = (len : Int) then [buf.read u.memory len] else []
  | _, _ => []

end Setup

/-- A call of the server. -/
inductive ServerState.Step : ServerState → SockEvent → ServerState → Prop
  | startup {p q : ServerProg Unit} {e : SockEvent} (h : Prog.Step p e q) :
      Step (.startup p) e (.startup q)
  | loop {p q : ServerProg LoopState} {e : SockEvent} (h : Prog.Step p e q) :
      Step (.loop p) e (.loop q)

/-- The server goes on to its accept loop, or to the next turn of it. At the first turn
    `command` and the options are whatever they are. -/
inductive ServerState.Next (u : Setup) : ServerState → ServerState → Prop
  | enter (s : LoopState) : Next u (.startup (.ret ())) (.loop (u.turnFrom s))
  | again (s : LoopState) : Next u (.loop (.ret s)) (.loop (u.turnFrom s))

/-- The server's process has ended. -/
inductive ServerState.Ended : ServerState → Prop
  | startup (x : Stop) : Ended (.startup (.stop x))
  | loop (x : Stop) : Ended (.loop (.stop x))

/-- The client's process has ended. -/
def ClientEnded : Client.ClientProg Client.Finish → Prop
  | .ret _ => True
  | .stop _ => True
  | .call _ _ => False

/-- What happens in a step. -/
inductive Label where
  | server (e : SockEvent)
  | client (e : SockEvent)
  | internal

/-- One step of either process. -/
inductive System.Step (u : Setup) : System → Label → System → Prop
  | server {sv sv' : ServerState} {cl : Client.ClientProg Client.Finish} {n n' : Connection}
      {as : List (List UInt8)} {e : SockEvent} (hp : sv.Step e sv')
      (hn : AcceptorCall u.fd u.memory n e n') :
      System.Step u ⟨sv, cl, n, as⟩ (.server e) ⟨sv', cl, n', as ++ u.answersOf sv e⟩
  | client {sv : ServerState} {cl cl' : Client.ClientProg Client.Finish} {n n' : Connection}
      {as : List (List UInt8)} {e : SockEvent} (hp : Prog.Step cl e cl')
      (hn : ConnectorCall u.sock u.memory n e n') :
      System.Step u ⟨sv, cl, n, as⟩ (.client e) ⟨sv, cl', n', as⟩
  | next {sv sv' : ServerState} {cl : Client.ClientProg Client.Finish} {n : Connection}
      {as : List (List UInt8)} (h : sv.Next u sv') :
      System.Step u ⟨sv, cl, n, as⟩ .internal ⟨sv', cl, n, as⟩
  | serverEnd {sv : ServerState} {cl : Client.ClientProg Client.Finish} {n : Connection}
      {as : List (List UInt8)} (h : sv.Ended) :
      System.Step u ⟨sv, cl, n, as⟩ .internal ⟨sv, cl, { n with side := .closed }, as⟩
  | clientEnd {sv : ServerState} {cl : Client.ClientProg Client.Finish} {n : Connection}
      {as : List (List UInt8)} (h : ClientEnded cl) :
      System.Step u ⟨sv, cl, n, as⟩ .internal ⟨sv, cl, { n with gone := true }, as⟩

/-- The states a system reaches by any steps at all. -/
abbrev Setup.Reach (u : Setup) : System → System → Prop := Steps (System.Step u) fun _ => True

end OlegPrinter
