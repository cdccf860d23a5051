/-
  The POSIX calls of a small TCP server, and one connection as its environment.

  * `SockCall`, `Answer`: the calls and what they answer. A `recv` carries the size of the
    object it fills (`cap`) next to the length it asks for, so that a request beyond the
    object shows in the trace. `uninit` is the contents of an uninitialised local of
    four bytes.
  * `openFds`, `heldBlocks`, `RecvWithin`: what a trace says about descriptors,
    allocated blocks and buffer bounds.
  * `Conn`, `connHandler`: one client as a script. Its bytes come in segments; a `recv`
    returns at most one segment and at most the length asked for. When they are used up
    it returns 0, or an error. A `send` to a client that has reset the connection raises
    SIGPIPE. Calls on another descriptor fail and touch nothing.
  * `Sockets`: any clients at all, which also may say nothing and stay. `backlogHandler`: several clients, one
    after the other, each `accept` taking the next.
-/
import OlegPrinter.Lib.Prog
import OlegPrinter.Lib.Bytes

namespace CLib

/-! ## Calls -/

/-- The buffer argument of `send`: the address of an object (with the memory from there on),
    or an integer cast to a pointer. -/
inductive Ptr where
  | object (mem : List UInt8)
  | address (a : Int)
  deriving DecidableEq

/-- What can be read at an address: all the bytes asked for, or nothing where they are not all
    mapped. The first page is never mapped. -/
structure Memory where
  read : Int → Nat → List UInt8
  whole : ∀ a n, read a n = [] ∨ (read a n).length = n
  firstPage : ∀ a n, 0 ≤ a → a < 4096 → read a n = []

/-- The bytes `send` finds at a pointer. -/
def Ptr.read (m : Memory) (len : Nat) : Ptr → List UInt8
  | .object mem => mem.take len
  | .address a => m.read a len

/-- The result of `recv`: the bytes put in the buffer (none at end of stream), or an error. -/
inductive Received where
  | got (bs : List UInt8)
  | failed
  deriving DecidableEq

/-- The bytes `recv` wrote. -/
def Received.bytes : Received → List UInt8
  | .got bs => bs
  | .failed => []

inductive SockCall where
  | accept (listener : Int)
  | recv (fd : Int) (cap len : Nat)
  | send (fd : Int) (buf : Ptr) (len : Nat)
  | close (fd : Int)
  | calloc (n : Nat)
  | free
  | uninit
  deriving DecidableEq

def SockCall.isSend : SockCall → Bool
  | .send _ _ _ => true
  | _ => false

def SockCall.isClose : SockCall → Bool
  | .close _ => true
  | _ => false

/-- `calloc` answers whether it returned a block (of zero bytes) rather than NULL. -/
abbrev Answer : SockCall → Type
  | .accept _ => Int
  | .recv _ _ _ => Received
  | .send _ _ _ => Int
  | .close _ => Unit
  | .calloc _ => Bool
  | .free => Unit
  | .uninit => Obj 4

section

variable {S : Type}

/-! The calls as programs. -/

abbrev accept (listener : Int) : Prog SockCall Answer S Int := .perform (SockCall.accept listener)

abbrev recv (fd : Int) (cap len : Nat) : Prog SockCall Answer S Received :=
  .perform (SockCall.recv fd cap len)

abbrev send (fd : Int) (buf : Ptr) (len : Nat) : Prog SockCall Answer S Int :=
  .perform (SockCall.send fd buf len)

abbrev close (fd : Int) : Prog SockCall Answer S Unit := .perform (SockCall.close fd)

abbrev calloc (n : Nat) : Prog SockCall Answer S Bool := .perform (SockCall.calloc n)

abbrev uninit : Prog SockCall Answer S (Obj 4) := .perform SockCall.uninit

end

/-! ## Traces -/

abbrev SockEvent := Event Answer

/-- Descriptors that `accept` opened and `close` has not closed. -/
def fdStep (fds : List Int) : SockEvent → List Int
  | ⟨.accept _, fd⟩ => if 0 ≤ fd then fd :: fds else fds
  | ⟨.close fd, _⟩ => fds.erase fd
  | _ => fds

def openFds (tr : List SockEvent) : List Int := tr.foldl fdStep []

/-- Blocks that `calloc` returned and `free` has not taken back. -/
def blockStep (held : Nat) : SockEvent → Nat
  | ⟨.calloc _, ok⟩ => if ok = true then held + 1 else held
  | ⟨.free, _⟩ => held - 1
  | _ => held

def heldBlocks (tr : List SockEvent) : Nat := tr.foldl blockStep 0

/-- A `recv` asked for no more than its object holds. -/
def RecvWithin : SockEvent → Prop
  | ⟨.recv _ cap len, _⟩ => len ≤ cap
  | _ => True

instance : DecidablePred RecvWithin
  | ⟨.recv _ cap len, _⟩ => inferInstanceAs (Decidable (len ≤ cap))
  | ⟨.accept _, _⟩ | ⟨.send _ _ _, _⟩ | ⟨.close _, _⟩ | ⟨.calloc _, _⟩ | ⟨.free, _⟩
  | ⟨.uninit, _⟩ => isTrue trivial

theorem openFds_append (tr tr' : List SockEvent) :
    openFds (tr ++ tr') = tr'.foldl fdStep (openFds tr) := List.foldl_append

theorem heldBlocks_append (tr tr' : List SockEvent) :
    heldBlocks (tr ++ tr') = tr'.foldl blockStep (heldBlocks tr) := List.foldl_append

/-- A client: the descriptor it gets, its bytes as they arrive, whether the end of its stream
    is an error, and whether it has reset the connection when it is written to. -/
structure Peer where
  fd : Nat
  segments : List (List UInt8)
  segments_ne : ∀ s ∈ segments, s ≠ []
  failed : Bool
  reset : Bool

/-- The machine: which allocations succeed, what the stack holds, what is mapped. -/
structure Host where
  callocOk : Nat → Bool
  stack : Obj 4
  memory : Memory

structure Conn where
  peer : Peer
  host : Host

/-- A client that sends these segments and then ends its stream. -/
def Peer.sending (fd : Nat) (segments : List (List UInt8)) (h : ∀ s ∈ segments, s ≠ []) : Peer :=
  ⟨fd, segments, h, false, false⟩

/-- A machine on which every allocation succeeds, with a stack of zeros and nothing mapped. -/
def Host.blank : Host :=
  ⟨fun _ => true, Obj.zero 4, ⟨fun _ _ => [], fun _ _ => Or.inl rfl, fun _ _ _ _ => rfl⟩⟩

/-- What is left of the segments after a `recv` of `len`. -/
def Peer.rest (p : Peer) (len : Nat) : List (List UInt8) :=
  match p.segments with
  | [] => []
  | s :: ss => if s.length ≤ len then ss else s.drop len :: ss

theorem Peer.rest_ne (p : Peer) (len : Nat) : ∀ s ∈ p.rest len, s ≠ [] := by
  intro s hs
  have hp := p.segments_ne
  unfold Peer.rest at hs
  cases hseg : p.segments with
  | nil => rw [hseg] at hs; simp at hs
  | cons t ts =>
    rw [hseg] at hs hp
    simp only at hs
    split at hs
    · exact hp s (List.mem_cons_of_mem _ hs)
    · rcases List.mem_cons.mp hs with rfl | hs
      · intro h0
        have := congrArg List.length h0
        simp only [List.length_drop, List.length_nil] at this
        omega
      · exact hp s (List.mem_cons_of_mem _ hs)

/-- The client after a `recv` of `len` bytes. -/
def Peer.advance (p : Peer) (len : Nat) : Peer :=
  { p with segments := p.rest len, segments_ne := p.rest_ne len }

/-- What a `recv` of `len` bytes returns. -/
def Peer.received (p : Peer) (len : Nat) : Received :=
  match p.segments with
  | [] => if p.failed then .failed else .got []
  | s :: _ => .got (s.take len)

theorem Peer.received_bytes_length_le (p : Peer) (len : Nat) :
    (p.received len).bytes.length ≤ len := by
  unfold Peer.received
  cases p.segments with
  | nil => cases p.failed <;> simp [Received.bytes]
  | cons s ss => simp [Received.bytes]

/-- The bytes a `recv` returns are the first ones of the stream. -/
theorem Peer.received_eq_take (p : Peer) (len : Nat) :
    (p.received len).bytes = p.segments.flatten.take (p.received len).bytes.length := by
  unfold Peer.received
  cases p.segments with
  | nil => cases p.failed <;> simp [Received.bytes]
  | cons s ss =>
    simp only [Received.bytes, List.flatten_cons, List.length_take]
    rw [List.take_append_of_le_length (Nat.min_le_right _ _), List.take_eq_take_iff]
    omega

/-- The stream goes on where a `recv` left it. -/
theorem Peer.advance_flatten (p : Peer) (len : Nat) :
    (p.advance len).segments.flatten = p.segments.flatten.drop (p.received len).bytes.length := by
  show (p.rest len).flatten = _
  unfold Peer.rest Peer.received
  cases p.segments with
  | nil => simp
  | cons s ss =>
    simp only [Received.bytes, List.flatten_cons, List.length_take]
    by_cases h : s.length ≤ len
    · rw [if_pos h, Nat.min_eq_right h, List.drop_left]
    · rw [if_neg h, Nat.min_eq_left (by omega), List.drop_append_of_le_length (by omega)]
      rfl

/-- While bytes are left, a `recv` returns some. -/
theorem Peer.received_pos {p : Peer} {len : Nat} (hlen : 0 < len) (h : p.segments.flatten ≠ []) :
    0 < (p.received len).bytes.length := by
  have hp := p.segments_ne
  unfold Peer.received
  cases hs : p.segments with
  | nil => rw [hs] at h; exact absurd rfl h
  | cons s ss =>
    rw [hs] at hp
    have hne := List.length_pos_iff.mpr (hp s List.mem_cons_self)
    simp only [Received.bytes, List.length_take]
    omega

/-- The end of a run inside a call: killed by SIGPIPE, or waiting for ever. -/
inductive Halt where
  | sigpipe
  | blocked
  deriving DecidableEq

/-- `recv`, on the connection's descriptor: an object of no bytes (NULL) cannot be written. -/
def Conn.recv (c : Conn) (fd : Int) (cap len : Nat) : Received × Conn :=
  if fd ≠ c.peer.fd then (.failed, c)
  else if cap = 0 ∧ 0 < len ∧ c.peer.segments ≠ [] then (.failed, c)
  else (c.peer.received len, { c with peer := c.peer.advance len })

/-- `send` returns the length when the buffer can be read. -/
def Conn.sendResult (c : Conn) (fd : Int) (buf : Ptr) (len : Nat) : Int :=
  if fd = c.peer.fd ∧ (buf.read c.host.memory len).length = len then len else -1

def connHandler : Handler SockCall Answer Halt Conn where
  answer c
    | .accept _ => .ok ((c.peer.fd : Int), c)
    | .recv fd cap len => .ok (c.recv fd cap len)
    | .send fd buf len =>
      if fd = c.peer.fd ∧ c.peer.reset = true then .error .sigpipe
      else .ok (c.sendResult fd buf len, c)
    | .close _ => .ok ((), c)
    | .calloc n => .ok (c.host.callocOk n, c)
    | .free => .ok ((), c)
    | .uninit => .ok (c.host.stack, c)

theorem Conn.recv_eq {c : Conn} {fd : Int} (hfd : fd = c.peer.fd) {cap : Nat} (hcap : 0 < cap)
    (len : Nat) :
    c.recv fd cap len = (c.peer.received len, { c with peer := c.peer.advance len }) := by
  unfold Conn.recv
  rw [if_neg (by simpa using hfd), if_neg (by omega)]

theorem connHandler_send_ok {c : Conn} {fd : Int} (h : ¬ (fd = c.peer.fd ∧ c.peer.reset = true))
    (buf : Ptr) (len : Nat) :
    connHandler.answer c (.send fd buf len) = .ok (c.sendResult fd buf len, c) := if_neg h

theorem connHandler_send_killed {c : Conn} {fd : Int} (h : fd = c.peer.fd ∧ c.peer.reset = true)
    (buf : Ptr) (len : Nat) :
    connHandler.answer c (.send fd buf len) = .error .sigpipe := if_pos h

/-! ## Any clients -/

/-- The sockets of a process, whatever is at their other ends. A call is answered in any way, or the
    process waits in it or is killed in it; `close` comes back. -/
structure Sockets (σ : Type) where
  handler : Handler SockCall Answer Halt σ
  close_ok : ∀ s fd, ∃ s', handler.answer s (.close fd) = .ok ((), s')

/-- A client that may stay when its bytes are used up: then a `recv` waits. -/
structure Caller where
  conn : Conn
  stays : Bool

def Caller.recv (d : Caller) (fd : Int) (cap len : Nat) : Except Halt (Received × Caller) :=
  if fd = d.conn.peer.fd ∧ 0 < len ∧ d.conn.peer.segments = [] ∧ d.stays = true then .error .blocked
  else .ok ((d.conn.recv fd cap len).1, { d with conn := (d.conn.recv fd cap len).2 })

/-- The connection in use, and the clients waiting in the queue of the listening socket. -/
structure Backlog where
  current : Option Caller
  waiting : List Caller

/-- Each `accept` takes the next client, and waits when there is none; every other call is
    about the connection in use. -/
def backlogHandler : Handler SockCall Answer Halt Backlog where
  answer s
    | .accept _ =>
      match s.waiting with
      | [] => .error .blocked
      | d :: ds => .ok ((d.conn.peer.fd : Int), ⟨some d, ds⟩)
    | .recv fd cap len =>
      match s.current with
      | none => .ok (.failed, s)
      | some d => (d.recv fd cap len).map fun r => (r.1, { s with current := some r.2 })
    | .send fd buf len =>
      match s.current with
      | none => .ok ((-1 : Int), s)
      | some d => (connHandler.answer d.conn (.send fd buf len)).map fun r => (r.1, s)
    | .close _ => .ok ((), s)
    | .calloc n => .ok ((s.current.map fun d => d.conn.host.callocOk n).getD true, s)
    | .free => .ok ((), s)
    | .uninit => .ok ((s.current.map fun d => d.conn.host.stack).getD (Obj.zero 4), s)

def Backlog.sockets : Sockets Backlog := ⟨backlogHandler, fun s _ => ⟨s, rfl⟩⟩

end CLib
