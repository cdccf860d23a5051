/-
  The server's `main` before its loops: configuration, destination, listening socket.

  `StartCall` are the calls it makes and `StartResults` one answer to each of them.

  * `startUp`: the source text. `while (dest == NULL)` has an empty body and is given `n` turns here
    (`awaitDest`); `none` is returned by a server that is still in it.
  * `if (listener = socket(…))` assigns and tests for nonzero (`socketSetting`).
  * `run_startUp_noConfig`, `run_startUp_noDest`, `run_startUp_nonzero`, `run_startUp_bind` and
    `run_startUp_listen` are all the ways a run goes.
-/
import OlegPrinter.Lib.Protocol
import OlegPrinter.CJson.Print
import OlegPrinter.Server.AcceptLoop

namespace OlegPrinter

open CLib

/-! ## Calls -/

/-- `sockaddr_in`, its numbers in host order. -/
structure SockaddrIn where
  sinFamily : Nat
  sinPort : Nat
  sinAddr : Nat

inductive StartCall where
  | readingJSON (file : CStr)
  | cJSONGetErrorPtr
  | fprintf (format : String) (args : List CStr)
  | perror (s : String)
  | cupsGetDestWithURI (name : Option CStr) (uri : Option (List UInt8))
  | socket (domain type protocol : Nat)
  | bind (fd : Int) (addr : SockaddrIn)
  | listen (fd backlog : Int)

abbrev StartAnswer : StartCall → Type
  | .readingJSON _ => Option CJson
  | .cJSONGetErrorPtr => Option CStr
  | .fprintf _ _ => Unit
  | .perror _ => Unit
  | .cupsGetDestWithURI _ _ => Option Dest
  | .socket _ _ _ => Int
  | .bind _ _ => Int
  | .listen _ _ => Int

abbrev StartProg := Prog StartCall StartAnswer Stop

/-! ## The program -/

/-- `conf_file`. -/
def confFile : CStr := CStr.lit "config.json"

/-- `AF_INET`. -/
def afInet : Nat := 2

/-- `SOCK_STREAM`. -/
def sockStream : Nat := 1

/-- `addr`: port 3452 of `INADDR_ANY`. -/
def serverAddr : SockaddrIn := ⟨afInet, 3452, 0⟩

/-- `"IPP"`. -/
def ippName : CStr := CStr.lit "IPP"

/-- `dest_URI_str`. -/
def destURIStr (hooks : Hooks) (config : CJson) : Option (List UInt8) :=
  cJSONPrint hooks (getObjectItem (some config) (some ippName))

/-- `config == NULL`. -/
def failedConfig {α : Type} : StartProg α := do
  let errorPtr : Option CStr ← Prog.perform StartCall.cJSONGetErrorPtr
  match errorPtr with
  | some errorPtr => do
    let _ ← Prog.perform (StartCall.fprintf "JSON error before: %s\n" [errorPtr])
    .stop (.exit 1)
  | none => do
    let _ ← Prog.perform (StartCall.fprintf "Error: couldn't get JSON\n" [])
    .stop (.exit 1)

/-- `while (dest == NULL) {}`, at most `n` turns. -/
def awaitDest (n : ℕ) (dest : Option Dest) : StartProg (Dest ⊕ Option Dest) :=
  Prog.iterate (fun dest => pure (match dest with
    | some dest => .inl dest
    | none => .inr none)) n dest

/-- From `socket` to `listen`. The result is `listener`. -/
def socketSetting : StartProg Int := do
  let listener : Int ← Prog.perform (StartCall.socket afInet sockStream 0)
  if listener ≠ 0 then do
    let _ ← Prog.perform (StartCall.perror "Socket server: ")
    .stop (.exit 2)
  else do
    let bound : Int ← Prog.perform (StartCall.bind listener serverAddr)
    if bound < 0 then do
      let _ ← Prog.perform (StartCall.perror "Server bind")
      .stop (.exit 3)
    else do
      let _ ← Prog.perform (StartCall.listen listener 1)
      pure listener

/-- `main` up to the listening socket; `none` from a server still waiting after `n` turns. -/
def startUp (hooks : Hooks) (n : ℕ) : StartProg (Option (Int × Dest)) := do
  let config : Option CJson ← Prog.perform (StartCall.readingJSON confFile)
  match config with
  | none => failedConfig
  | some config => do
    let uri := destURIStr hooks config
    let dest : Option Dest ← Prog.perform (StartCall.cupsGetDestWithURI none uri)
    let dest ← awaitDest n dest
    match dest with
    | .inr _ => pure none
    | .inl dest => do
      let listener ← socketSetting
      pure (some (listener, dest))

/-! ## Runs -/

/-- The results of the calls: NULL or a value, a descriptor or `-1`. -/
structure StartResults where
  config : Option CJson
  errorPtr : Option CStr
  dest : Option Dest
  socket : Int
  bind : Int
  socket_ge : -1 ≤ socket

namespace StartResults

def answer (r : StartResults) : (c : StartCall) → StartAnswer c
  | .readingJSON _ => r.config
  | .cJSONGetErrorPtr => r.errorPtr
  | .fprintf _ _ => ()
  | .perror _ => ()
  | .cupsGetDestWithURI _ _ => r.dest
  | .socket _ _ _ => r.socket
  | .bind _ _ => r.bind
  | .listen _ _ => (0 : Int)

/-- A run against these results. -/
abbrev run {α : Type} (r : StartResults) (p : StartProg α) : Run StartAnswer Stop Empty Unit α :=
  p.run (Handler.answering r.answer) ()

end StartResults

/-- The calls up to the loop, with a configuration. -/
def lookupTrace (hooks : Hooks) (r : StartResults) (config : CJson) : List (Event StartAnswer) :=
  [⟨.readingJSON confFile, some config⟩,
    ⟨.cupsGetDestWithURI none (destURIStr hooks config), r.dest⟩]

/-- A destination leaves the loop at once. -/
theorem awaitDest_some (n : ℕ) (dest : Dest) : awaitDest (n + 1) (some dest) = pure (.inl dest) := rfl

/-- Without one it is never left: nothing in it changes `dest`. -/
theorem awaitDest_none (n : ℕ) : awaitDest n none = pure (.inr none) := by
  induction n with
  | zero => rfl
  | succ n ih => exact ih

section

variable (hooks : Hooks) (n : ℕ) {r : StartResults}

theorem run_startUp_noConfig (h : r.config = none) :
    ∃ format args, r.run (startUp hooks n) = ⟨.stopped (.exit 1),
      [⟨.readingJSON confFile, none⟩, ⟨.cJSONGetErrorPtr, r.errorPtr⟩,
        ⟨.fprintf format args, ()⟩], ()⟩ := by
  unfold startUp failedConfig
  cases hptr : r.errorPtr with
  | none => simp [StartResults.answer, h, hptr]
  | some errorPtr => simp [StartResults.answer, h, hptr]

variable {config : CJson} (h : r.config = some config)

include h

theorem run_startUp_noDest (hd : r.dest = none) :
    r.run (startUp hooks n) = ⟨.returned none, lookupTrace hooks r config, ()⟩ := by
  unfold startUp lookupTrace
  simp [StartResults.answer, h, hd, awaitDest_none]

/-- Looked at before its first turn, the loop has not been left. -/
theorem run_startUp_zero :
    r.run (startUp hooks 0) = ⟨.returned none, lookupTrace hooks r config, ()⟩ := by
  unfold startUp awaitDest lookupTrace
  simp [StartResults.answer, h, Prog.iterate]

variable {dest : Dest} (hd : r.dest = some dest)

include hd

/-- With a destination, start-up goes on to the socket. -/
theorem run_startUp_dest :
    r.run (startUp hooks (n + 1)) =
      ((r.run socketSetting).andThen fun listener _ =>
        ⟨.returned (some (listener, dest)), [], ()⟩).after (lookupTrace hooks r config) := by
  unfold startUp lookupTrace
  simp [StartResults.answer, h, hd, awaitDest_some, Prog.run_bind]

/-- A nonzero result of `socket`, whether a descriptor or `-1`, ends it. -/
theorem run_startUp_nonzero (hs : r.socket ≠ 0) :
    r.run (startUp hooks (n + 1)) = ⟨.stopped (.exit 2), lookupTrace hooks r config ++
      [⟨.socket afInet sockStream 0, r.socket⟩, ⟨.perror "Socket server: ", ()⟩], ()⟩ := by
  rw [run_startUp_dest hooks n h hd]
  unfold socketSetting
  simp [StartResults.answer, hs]

theorem run_startUp_bind (hs : r.socket = 0) (hb : r.bind < 0) :
    r.run (startUp hooks (n + 1)) = ⟨.stopped (.exit 3), lookupTrace hooks r config ++
      [⟨.socket afInet sockStream 0, (0 : Int)⟩, ⟨.bind 0 serverAddr, r.bind⟩,
        ⟨.perror "Server bind", ()⟩], ()⟩ := by
  rw [run_startUp_dest hooks n h hd]
  unfold socketSetting
  simp [StartResults.answer, hs, hb]

theorem run_startUp_listen (hs : r.socket = 0) (hb : ¬ r.bind < 0) :
    r.run (startUp hooks (n + 1)) = ⟨.returned (some (0, dest)), lookupTrace hooks r config ++
      [⟨.socket afInet sockStream 0, (0 : Int)⟩, ⟨.bind 0 serverAddr, r.bind⟩,
        ⟨.listen 0 1, (0 : Int)⟩], ()⟩ := by
  rw [run_startUp_dest hooks n h hd]
  unfold socketSetting
  simp [StartResults.answer, hs, hb]

end

end OlegPrinter
