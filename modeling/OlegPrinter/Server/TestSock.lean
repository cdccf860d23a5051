/-
  `test_sock` of the server and the loop of `main` that calls it.

  `data` is an uninitialised pointer in the source; here it points to eight bytes, as many
  as `recv` is asked for (`sizeof(sample)` is the size of a pointer). The answer is sent with
  the same length, so two bytes behind the six of the literal go out with it:
  `afterSample`.

  `test_sock` returns 0 when the client sent `Test!` and 1 otherwise. The loop in `main` runs
  its body, which ends in `exit(4)`, when the result is 0.
-/
import OlegPrinter.Server.AcceptLoop

namespace OlegPrinter

open CLib

/-- `char *sample = "Test!"`. -/
def sample : List UInt8 := ascii "Test!"

theorem cstr_sample : cstr sample = sample := by decide

/-- The memory at `sample`: the literal with its NUL, and what follows it. -/
def sampleMem (afterSample : Obj 2) : List UInt8 := sample ++ 0 :: afterSample.bytes

/-- `test_sock(listener)`; `data` is the buffer as it was before. -/
def testSock (afterSample : Obj 2) (data : Obj 8) (listener : Int) : ServerProg Int := do
  let socket ← accept listener
  let r ← recv socket 8 8
  let data := data.store r.bytes
  if strcmp sample data.bytes = 0 then
    let _ ← send socket (.object (sampleMem afterSample)) 8
    close socket
    pure 0
  else
    close socket
    pure 1

/-- `for (int i = 1; test_sock(listener) == 0 && i <= 3; i++)`, entered with `i`. The body
    prints, sleeps and exits, so `i++` is never reached. Returning is going on to
    the accept loop. -/
def handshakeLoop (afterSample : Obj 2) (data : Obj 8) (listener : Int) (i : Nat) :
    ServerProg Unit := do
  let r ← testSock afterSample data listener
  if r = 0 ∧ i ≤ 3 then .stop (.exit 4)
  else pure ()

/-- The comparison of `test_sock`: the buffer holds the string `Test!`. -/
theorem strcmp_sample_iff (mem : List UInt8) : strcmp sample mem = 0 ↔ cstr mem = sample := by
  rw [strcmp_eq_zero_iff, cstr_sample]
  exact eq_comm

end OlegPrinter
