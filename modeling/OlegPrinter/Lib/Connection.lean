/-
  One TCP connection between two processes, each making socket calls of its own.

  * `Connection`: the bytes on their way in both directions, and where the accepting process
    stands. `late` records what the connecting process wrote after the other had closed.
  * `AcceptorCall`, `ConnectorCall`: the answers a call of either process may get. A `recv` takes
    any non-empty prefix of what has arrived, up to the length asked for; with nothing there
    it has no answer (it waits) until the other end is closed. An acceptor that closes with bytes
    unread resets the connection, so then a `recv` of the connector may fail. A `send` never waits.
  * `Steps`: runs of a labelled transition system whose labels all satisfy a condition, with
    their invariant rule.
-/
import OlegPrinter.Lib.Socket

namespace CLib

/-! ## Runs -/

/-- The runs whose steps all have an allowed label. -/
def Steps {σ L : Type} (R : σ → L → σ → Prop) (ok : L → Prop) : σ → σ → Prop :=
  Relation.ReflTransGen fun a b => ∃ l, R a l b ∧ ok l

theorem Steps.invariant {σ L : Type} {R : σ → L → σ → Prop} {ok : L → Prop} {Inv : σ → Prop}
    {a b : σ} (h : Steps R ok a b) (ha : Inv a)
    (hstep : ∀ a l b, Inv a → R a l b → ok l → Inv b) : Inv b := by
  induction h with
  | refl => exact ha
  | tail _ hs ih =>
    obtain ⟨l, hl, hok⟩ := hs
    exact hstep _ l _ ih hl hok

theorem Steps.tail {σ L : Type} {R : σ → L → σ → Prop} {ok : L → Prop} {a b c : σ} {l : L}
    (h : Steps R ok a b) (hs : R b l c) (hok : ok l) : Steps R ok a c :=
  Relation.ReflTransGen.tail h ⟨l, hs, hok⟩

/-! ## The connection -/

/-- The accepting process has not accepted yet, holds the connection, or has closed it. -/
inductive Side where
  | queued
  | accepted
  | closed
  deriving DecidableEq

/-- The bytes under way from the connecting process (`up`) and to it (`down`), whether that
    process has ended, and the writes it made too late. -/
structure Connection where
  side : Side
  up : List UInt8
  down : List UInt8
  gone : Bool
  late : List (List UInt8)

/-- A connection just made. -/
def Connection.fresh : Connection := ⟨.queued, [], [], false, []⟩

/-- The calls of the accepting process, to which `accept` returns `fd`. Calls on another
    descriptor, or with a buffer that is not mapped, fail. -/
inductive AcceptorCall (fd : Nat) (mem : Memory) : Connection → SockEvent → Connection → Prop
  | accept (n : Connection) (listener : Int) (h : n.side = .queued) :
      AcceptorCall fd mem n ⟨.accept listener, (fd : Int)⟩ { n with side := .accepted }
  | recv (n : Connection) (cap len k : Nat) (h : n.side = .accepted) (hcap : 0 < cap) (hk : 0 < k)
      (hlen : k ≤ len) (hup : k ≤ n.up.length) :
      AcceptorCall fd mem n ⟨.recv fd cap len, Received.got (n.up.take k)⟩
        { n with up := n.up.drop k }
  | recvEnd (n : Connection) (cap len : Nat) (h : n.side = .accepted) (hup : n.up = [])
      (hgone : n.gone = true) : AcceptorCall fd mem n ⟨.recv fd cap len, Received.got []⟩ n
  | recvNone (n : Connection) (fd' : Int) (cap : Nat) :
      AcceptorCall fd mem n ⟨.recv fd' cap 0, Received.got []⟩ n
  | recvFailed (n : Connection) (fd' : Int) (cap len : Nat)
      (h : n.side ≠ .accepted ∨ fd' ≠ fd ∨ cap = 0) :
      AcceptorCall fd mem n ⟨.recv fd' cap len, Received.failed⟩ n
  | send (n : Connection) (buf : Ptr) (len : Nat) (h : n.side = .accepted)
      (hbuf : (buf.read mem len).length = len) :
      AcceptorCall fd mem n ⟨.send fd buf len, (len : Int)⟩
        { n with down := n.down ++ buf.read mem len }
  | sendFailed (n : Connection) (fd' : Int) (buf : Ptr) (len : Nat)
      (h : n.side ≠ .accepted ∨ fd' ≠ fd ∨ (buf.read mem len).length ≠ len) :
      AcceptorCall fd mem n ⟨.send fd' buf len, (-1 : Int)⟩ n
  | close (n : Connection) : AcceptorCall fd mem n ⟨.close fd, ()⟩ { n with side := .closed }
  | closeOther (n : Connection) (fd' : Int) (h : fd' ≠ fd) :
      AcceptorCall fd mem n ⟨.close fd', ()⟩ n
  | calloc (n : Connection) (size : Nat) (ok : Bool) :
      AcceptorCall fd mem n ⟨.calloc size, ok⟩ n
  | free (n : Connection) : AcceptorCall fd mem n ⟨.free, ()⟩ n
  | uninit (n : Connection) (o : Obj 4) : AcceptorCall fd mem n ⟨.uninit, o⟩ n

/-- The calls of the connecting process on its socket. -/
inductive ConnectorCall (sock : Int) (mem : Memory) : Connection → SockEvent → Connection → Prop
  | send (n : Connection) (buf : Ptr) (len : Nat) (h : n.side ≠ .closed) :
      ConnectorCall sock mem n ⟨.send sock buf len, (len : Int)⟩
        { n with up := n.up ++ buf.read mem len }
  | sendLate (n : Connection) (buf : Ptr) (len : Nat) (h : n.side = .closed) :
      ConnectorCall sock mem n ⟨.send sock buf len, (len : Int)⟩
        { n with late := n.late ++ [buf.read mem len] }
  | recv (n : Connection) (cap len k : Nat) (hk : 0 < k) (hlen : k ≤ len)
      (hdown : k ≤ n.down.length) :
      ConnectorCall sock mem n ⟨.recv sock cap len, Received.got (n.down.take k)⟩
        { n with down := n.down.drop k }
  | recvEnd (n : Connection) (cap len : Nat) (h : n.side = .closed) (hdown : n.down = []) :
      ConnectorCall sock mem n ⟨.recv sock cap len, Received.got []⟩ n
  | recvReset (n : Connection) (cap len : Nat) (h : n.side = .closed) :
      ConnectorCall sock mem n ⟨.recv sock cap len, Received.failed⟩ n

section

variable {fd : Nat} {mem : Memory} {sock : Int} {n n' : Connection}

theorem AcceptorCall.accept_inv {l a : Int} (h : AcceptorCall fd mem n ⟨.accept l, a⟩ n') :
    n.side = .queued ∧ a = fd ∧ n' = { n with side := .accepted } := by
  cases h with
  | accept _ hside => exact ⟨hside, rfl, rfl⟩

/-- A `recv` into a buffer on an accepted connection whose other end is there: bytes arrive. -/
theorem AcceptorCall.recv_inv {cap len : Nat} {r : Received}
    (h : AcceptorCall fd mem n ⟨.recv fd cap len, r⟩ n') (hside : n.side = .accepted)
    (hgone : n.gone = false) (hcap : 0 < cap) (hlen : 0 < len) :
    n'.side = .accepted ∧ ∃ k, 0 < k ∧ k ≤ n.up.length ∧ r = .got (n.up.take k) := by
  cases h with
  | recv _ _ k _ _ hk _ hup => exact ⟨hside, k, hk, hup, rfl⟩
  | recvEnd _ _ _ _ hg => rw [hgone] at hg; cases hg
  | recvNone => omega
  | recvFailed _ _ _ hf =>
    rcases hf with hf | hf | hf
    · exact absurd hside hf
    · exact absurd rfl hf
    · omega

/-- Only `accept` takes a connection out of the queue, and nothing puts it back. -/
theorem AcceptorCall.side_ne_queued {e : SockEvent} (h : AcceptorCall fd mem n e n')
    (hside : n.side ≠ .queued) : n'.side ≠ .queued ∧ ∀ l, e.1 ≠ .accept l := by
  cases h with
  | accept _ hq => exact absurd hq hside
  | close => exact ⟨nofun, nofun⟩
  | _ => exact ⟨hside, nofun⟩

theorem ConnectorCall.side_eq {e : SockEvent} (h : ConnectorCall sock mem n e n') :
    n'.side = n.side := by
  cases h <;> rfl

theorem ConnectorCall.send_inv {buf : Ptr} {len : Nat} {a : Int}
    (h : ConnectorCall sock mem n ⟨.send sock buf len, a⟩ n') :
    (n.side ≠ .closed ∧ n' = { n with up := n.up ++ buf.read mem len }) ∨
      (n.side = .closed ∧ n' = { n with late := n.late ++ [buf.read mem len] }) := by
  cases h with
  | send _ _ hside => exact Or.inl ⟨hside, rfl⟩
  | sendLate _ _ hside => exact Or.inr ⟨hside, rfl⟩

/-- A `recv` with nothing on its way and the other end not closed has no answer. -/
theorem ConnectorCall.recv_waits {cap len : Nat} {r : Received}
    (h : ConnectorCall sock mem n ⟨.recv sock cap len, r⟩ n') (hdown : n.down = []) :
    n.side = .closed := by
  cases h with
  | recv _ _ k hk _ hle => rw [hdown, List.length_nil] at hle; omega
  | recvEnd _ _ hside _ => exact hside
  | recvReset _ _ hside => exact hside

theorem ConnectorCall.recv_late {cap len : Nat} {r : Received}
    (h : ConnectorCall sock mem n ⟨.recv sock cap len, r⟩ n') : n'.late = n.late := by
  cases h <;> rfl

end

end CLib
