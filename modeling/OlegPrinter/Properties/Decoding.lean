/-
  Decoding a PRINT_FILE request from a TCP stream.

  A `Request` goes out as the command, the size of the path and the path (`Request.encode`), and
  arrives in any segments. The server reads it with three calls of `recv`, for 1024, 4 and
  `path_file_size` bytes, each of which may return less.

  * `not_decodesTo_nul`: no segmentation gives a terminated path: the block has exactly as many
    bytes as the path.
  * `decodesTo_iff_aligned`: with the terminator set aside, a path without NUL bytes is decoded
    exactly when the three calls happen to return 4, 4 and all the path's bytes (and `calloc`
    returns a block). Where one of them returns another number, the size read is not the
    one sent, or a byte of the path stays zero.
  * `decoding_iff`: both.
-/
import Mathlib.Tactic.IntervalCases
import OlegPrinter.Server.AcceptLoop

namespace OlegPrinter

open CLib

/-! ## Requests -/

/-- A request to print the file at a path: at least one byte, and no more than an `int` can say. -/
structure Request where
  path : List UInt8
  pos : 0 < path.length
  fits : path.length < 2 ^ 31

/-- The size field. -/
def Request.size (r : Request) : Obj 4 := Obj.ofInt r.path.length

/-- The request as a stream of bytes. -/
def Request.encode (r : Request) : List UInt8 :=
  ServerCommand.printFile.bytes ++ (r.size.bytes ++ r.path)

theorem Request.inIntRange (r : Request) : Obj.InIntRange (r.path.length : Int) := by
  have := r.fits
  unfold Obj.InIntRange
  omega

theorem Request.size_ne_zero (r : Request) : r.size ≠ Obj.zero 4 := by
  intro h
  have hn : r.size.toInt = r.path.length := Obj.toInt_ofInt r.inIntRange
  have h0 : (Obj.zero 4).toInt = 0 := by decide
  have hpos := r.pos
  rw [h, h0] at hn
  omega

theorem Request.encode_length (r : Request) : r.encode.length = 8 + r.path.length := by
  simp only [encode, List.length_append, ServerCommand.bytes_length, r.size.size_eq]
  omega

/-! ## What the server decodes -/

/-- A turn that decodes the request: the command, the size, and a block that begins with the path
    and this ending. -/
def DecodesTo (cupsGetOption : CupsGetOption) (lay : Layout) (s : LoopState) (c : Conn)
    (r : Request) (ending : List UInt8) : Prop :=
  ∃ t tr c' w block, (turn cupsGetOption lay s).run connHandler c = ⟨.returned t, tr, c'⟩ ∧
    t.state.command.bytes = ServerCommand.printFile.bytes ∧ t.path = some w ∧
    w.pathFileSize.toInt = r.path.length ∧ w.pathFile = some block ∧ r.path ++ ending <+: block

/-- The three calls return 4, 4 and all bytes of the path. -/
structure Aligned (p : Peer) (r : Request) : Prop where
  command : (p.received 1024).bytes.length = 4
  size : ((p.advance 1024).received 4).bytes.length = 4
  path : (((p.advance 1024).advance 4).received r.path.length).bytes.length = r.path.length

section

variable {cupsGetOption : CupsGetOption} {lay : Layout} {s : LoopState} {c : Conn} {r : Request}
  {ending : List UInt8}

/-- The block at `path_file` for a size of `n` bytes. -/
def pathBlock (n : Nat) (c : Conn) : Obj n :=
  (Obj.zero n).store (((c.peer.advance 1024).advance 4).received n).bytes

/-- On another descriptor nothing is received. -/
theorem sizeReceived_of_ne (h : (received lay s c).vars.sock ≠ c.peer.fd) :
    sizeReceived (received lay s c).vars (afterCommand c) = Obj.zero 4 := by
  have hfd : (received lay s c).vars.sock ≠ (afterCommand c).peer.fd := h
  unfold sizeReceived Conn.recv
  rw [if_pos hfd]
  exact Obj.store_nil _

/-- The size asked for, once the size field is that of the request. -/
theorem sizeRequested_of_size (hsock : (received lay s c).vars.sock = c.peer.fd)
    (hsize : sizeField c = r.size) :
    sizeRequested (received lay s c).vars (afterCommand c) = r.path.length := by
  unfold sizeRequested
  rw [sizeReceived_of_sock hsock, hsize, Request.size, Obj.toInt_ofInt r.inIntRange,
    sizeT_of_nonneg (by omega) r.inIntRange]
  exact Int.toNat_natCast _

/-- The receive into a block of the path's size. -/
theorem pathRecv_of_size (hsock : (received lay s c).vars.sock = c.peer.fd)
    (hsize : sizeField c = r.size) (hok : c.host.callocOk r.path.length = true) :
    (pathRecv (received lay s c).vars (afterCommand c)).1 =
      ((c.peer.advance 1024).advance 4).received r.path.length := by
  have hhost : (afterCommand c).host.callocOk r.path.length = true := hok
  let d : Conn := { afterCommand c with peer := (afterCommand c).peer.advance 4 }
  have hfd : (received lay s c).vars.sock = d.peer.fd := hsock
  unfold pathRecv
  rw [sizeRequested_of_size hsock hsize,
    Conn.recv_eq (c := afterCommand c) hsock (by decide : 0 < 4), if_pos hhost,
    Conn.recv_eq (c := d) hfd r.pos]
  rfl

/-- The branch variables then. -/
theorem printFileVars_of_size (hsock : (received lay s c).vars.sock = c.peer.fd)
    (hsize : sizeField c = r.size) :
    printFileVars (received lay s c).vars (afterCommand c) =
      ⟨r.size, if c.host.callocOk r.path.length = true then
        some (pathBlock r.path.length c).bytes else none⟩ := by
  have hhost : (afterCommand c).host.callocOk r.path.length = c.host.callocOk r.path.length := rfl
  unfold printFileVars
  rw [sizeRequested_of_size hsock hsize, sizeReceived_of_sock hsock, hsize, hhost]
  by_cases hok : c.host.callocOk r.path.length = true
  · rw [if_pos hok, if_pos hok, pathRecv_of_size hsock hsize hok]
    rfl
  · rw [if_neg hok, if_neg hok]

/-- The request is decoded when the command arrives, `sock` is intact, the size field is the one
    sent, there is a block, and the block is right. -/
theorem decodesTo_iff : DecodesTo cupsGetOption lay s c r ending ↔
    commandOf s c = some .printFile ∧ (received lay s c).vars.sock = c.peer.fd ∧
      sizeField c = r.size ∧ c.host.callocOk r.path.length = true ∧
      r.path ++ ending <+: (pathBlock r.path.length c).bytes := by
  refine ⟨?_, fun ⟨hk, hsock, hsize, hok, hblock⟩ => ?_⟩
  · rintro ⟨t, tr, c', w, block, hturn, hcmd, hw, hsize, hblock, hpre⟩
    have hk : commandOf s c = some .printFile := by
      rw [turn_returned_state hturn] at hcmd
      exact dispatch_eq_some_iff.mpr hcmd
    rw [turn_printFile hk] at hturn
    cases hturn
    cases hw
    have hrange := r.inIntRange
    have hbytes : sizeReceived (received lay s c).vars (afterCommand c) = r.size :=
      Obj.ext ((Obj.toInt_eq_iff hrange).mp hsize)
    have hsock : (received lay s c).vars.sock = c.peer.fd := by
      by_contra hne
      rw [sizeReceived_of_ne hne] at hbytes
      exact r.size_ne_zero hbytes.symm
    rw [sizeReceived_of_sock hsock] at hbytes
    rw [printFileVars_of_size hsock hbytes] at hblock
    by_cases hok : c.host.callocOk r.path.length = true
    · simp only [if_pos hok, Option.some.injEq] at hblock
      rw [← hblock] at hpre
      exact ⟨hk, hsock, hbytes, hok, hpre⟩
    · simp only [if_neg hok] at hblock
      cases hblock
  · refine ⟨_, _, _, _, (pathBlock r.path.length c).bytes, turn_printFile hk, ?_, rfl, ?_, ?_,
      hblock⟩
    · exact dispatch_eq_some_iff.mp hk
    · rw [printFileVars_of_size hsock hsize]
      exact Obj.toInt_ofInt r.inIntRange
    · rw [printFileVars_of_size hsock hsize, if_pos hok]

/-- There is no room for a terminator. -/
theorem not_decodesTo_nul : ¬ DecodesTo cupsGetOption lay s c r [0] := by
  intro h
  have hlen := (decodesTo_iff.mp h).2.2.2.2.length_le
  rw [(pathBlock r.path.length c).size_eq, List.length_append] at hlen
  simp only [List.length_singleton] at hlen
  omega

end

/-! ## Misread fields -/

/-- A short receive leaves zero bytes. -/
theorem zero_mem_store_zero {n : Nat} {bs : List UInt8} (h : bs.length < n) :
    (0 : UInt8) ∈ ((Obj.zero n).store bs).bytes := by
  rw [Obj.store_bytes_of_le _ (by omega)]
  refine List.mem_append_right _ ?_
  rw [Obj.zero, List.drop_replicate]
  exact List.mem_replicate.mpr ⟨by omega, rfl⟩

/-- A receive that starts with a zero byte leaves one. -/
theorem zero_mem_store_cons {n : Nat} (hn : 0 < n) (o : Obj n) (bs : List UInt8) :
    (0 : UInt8) ∈ (o.store (0 :: bs)).bytes := by
  obtain ⟨m, rfl⟩ : ∃ m, n = m + 1 := ⟨n - 1, by omega⟩
  simp only [Obj.store, List.cons_append, List.take_succ_cons, List.mem_cons, true_or]

/-- Read at another offset, and before the path begins, the size field is not the one sent. -/
theorem size_misread (z : Obj 4) (hz : z ≠ Obj.zero 4) (path : List UInt8) {i k : Nat}
    (hi : 0 < i) (hi4 : i ≠ 4) (hk : k ≤ 4) (hik : i + k ≤ 8) :
    (Obj.zero 4).store
      (((ServerCommand.printFile.bytes ++ (z.bytes ++ path)).drop i).take k) ≠ z := by
  have hcmd : ServerCommand.printFile.bytes = [1, 0, 0, 0] := by decide
  obtain ⟨zb, hlen⟩ := z
  obtain ⟨a, b, c, d, rfl⟩ := List.length_eq_four.mp hlen
  have hne : ¬ (a = 0 ∧ b = 0 ∧ c = 0 ∧ d = 0) := by
    rintro ⟨rfl, rfl, rfl, rfl⟩
    exact hz rfl
  intro h
  rw [Obj.ext_iff, hcmd] at h
  apply hne
  have hi8 : i ≤ 8 := by omega
  -- at every wrong offset the zeros of the command, or of the object, fall into the field, and
  -- byte by byte the whole of it is zero
  interval_cases i <;> interval_cases k <;>
    simp [Obj.store, Obj.zero] at h hik hi4 ⊢ <;> grind

/-- A size field received only in part, and right all the same, ends in zeros. -/
theorem size_tail_zero (z : Obj 4) {k : Nat} (hk : k < 4)
    (h : (Obj.zero 4).store (z.bytes.take k) = z) : ∃ zs, z.bytes.drop k = 0 :: zs := by
  have hz := z.size_eq
  have hlen : (z.bytes.take k).length = k := by rw [List.length_take]; omega
  have hb : ((Obj.zero 4).store (z.bytes.take k)).bytes =
      z.bytes.take k ++ (Obj.zero 4).bytes.drop (z.bytes.take k).length :=
    Obj.store_bytes_of_le _ (by omega)
  rw [h, hlen] at hb
  have hdrop : z.bytes.drop k = (Obj.zero 4).bytes.drop k := by
    have hcut := congrArg (List.drop k) hb
    rwa [List.drop_left' hlen] at hcut
  refine ⟨List.replicate (3 - k) 0, ?_⟩
  rw [hdrop, Obj.zero, List.drop_replicate, ← List.replicate_succ]
  congr 1
  omega

/-! ## The three calls on the stream -/

section

variable {cupsGetOption : CupsGetOption} {lay : Layout} {s : LoopState} {c : Conn} {r : Request}

/-- The number of bytes the first call returns, and the second. -/
def firstLen (c : Conn) : Nat := (c.peer.received 1024).bytes.length

def secondLen (c : Conn) : Nat := ((c.peer.advance 1024).received 4).bytes.length

theorem first_bytes (hd : c.peer.segments.flatten = r.encode) :
    (c.peer.received 1024).bytes = r.encode.take (firstLen c) := by
  rw [← hd]
  exact c.peer.received_eq_take 1024

theorem second_bytes (hd : c.peer.segments.flatten = r.encode) :
    ((c.peer.advance 1024).received 4).bytes =
      (r.encode.drop (firstLen c)).take (secondLen c) := by
  rw [← hd, firstLen, ← c.peer.advance_flatten 1024]
  exact (c.peer.advance 1024).received_eq_take 4

theorem third_bytes (hd : c.peer.segments.flatten = r.encode) (n : Nat) :
    (((c.peer.advance 1024).advance 4).received n).bytes =
      ((r.encode.drop (firstLen c)).drop (secondLen c)).take
        (((c.peer.advance 1024).advance 4).received n).bytes.length := by
  rw [← hd, firstLen, ← c.peer.advance_flatten 1024, secondLen,
    ← (c.peer.advance 1024).advance_flatten 4]
  exact ((c.peer.advance 1024).advance 4).received_eq_take n

/-- A path without NUL bytes is right only if all of it was received. -/
theorem third_length (hnul : (0 : UInt8) ∉ r.path)
    (hpath : r.path = (pathBlock r.path.length c).bytes) :
    (((c.peer.advance 1024).advance 4).received r.path.length).bytes.length = r.path.length := by
  have hle := ((c.peer.advance 1024).advance 4).received_bytes_length_le r.path.length
  by_contra hne
  have hshort : (((c.peer.advance 1024).advance 4).received r.path.length).bytes.length <
      r.path.length := by omega
  have hzero := zero_mem_store_zero hshort
  rw [hpath] at hnul
  exact hnul hzero

/-- A right size and a right path come from aligned receives. -/
theorem aligned_of_fields (hd : c.peer.segments.flatten = r.encode) (hnul : (0 : UInt8) ∉ r.path)
    (hsize : sizeField c = r.size) (hpath : r.path = (pathBlock r.path.length c).bytes) :
    Aligned c.peer r := by
  have hthird := third_length hnul hpath
  have hbytes := third_bytes hd r.path.length
  have hencode := r.encode_length
  have hpos := r.pos
  -- all of the path is still in the stream after the first two calls
  have hroom : firstLen c + secondLen c ≤ 8 := by
    have hlen := congrArg List.length hbytes
    rw [hthird, List.length_take, List.length_drop, List.length_drop, hencode] at hlen
    omega
  have hfirst : 0 < firstLen c := by
    refine Peer.received_pos (by decide) ?_
    rw [hd]
    intro h0
    rw [h0, List.length_nil] at hencode
    omega
  have hsecond : secondLen c ≤ 4 := (c.peer.advance 1024).received_bytes_length_le 4
  have hfield : (Obj.zero 4).store ((r.encode.drop (firstLen c)).take (secondLen c)) = r.size := by
    rw [← second_bytes hd]
    exact hsize
  have hfour : firstLen c = 4 := by
    by_contra hne
    exact size_misread r.size r.size_ne_zero r.path hfirst hne hsecond hroom hfield
  have hrest : r.encode.drop (firstLen c) = r.size.bytes ++ r.path := by
    rw [hfour, Request.encode, List.drop_left' (ServerCommand.bytes_length _)]
  refine ⟨hfour, ?_, hthird⟩
  by_contra hne
  have hlt : secondLen c < 4 := by
    have : secondLen c ≠ 4 := hne
    omega
  -- the bytes of the size that were not read are zeros, and the path is read from them on
  have hz := r.size.size_eq
  rw [hrest, List.take_append_of_le_length (by omega)] at hfield
  obtain ⟨zs, hzs⟩ := size_tail_zero r.size hlt hfield
  obtain ⟨m, hm⟩ : ∃ m, r.path.length = m + 1 := ⟨r.path.length - 1, by omega⟩
  rw [hrest, List.drop_append_of_le_length (by omega), hzs, hthird, hm, List.cons_append,
    List.take_succ_cons] at hbytes
  have hzero := zero_mem_store_cons hpos (Obj.zero r.path.length) ((zs ++ r.path).take m)
  rw [← hbytes, ← hm] at hzero
  rw [hpath] at hnul
  exact hnul hzero

/-- Aligned receives put every byte where it belongs. -/
theorem fields_of_aligned (hd : c.peer.segments.flatten = r.encode) (ha : Aligned c.peer r) :
    (c.peer.received 1024).bytes = ServerCommand.printFile.bytes ∧ sizeField c = r.size ∧
      (pathBlock r.path.length c).bytes = r.path := by
  have hfirst : firstLen c = 4 := ha.command
  have hsecond : secondLen c = 4 := ha.size
  have hcmd : (c.peer.received 1024).bytes = ServerCommand.printFile.bytes := by
    rw [first_bytes hd, hfirst, Request.encode, List.take_left' (ServerCommand.bytes_length _)]
  have hrest : r.encode.drop (firstLen c) = r.size.bytes ++ r.path := by
    rw [hfirst, Request.encode, List.drop_left' (ServerCommand.bytes_length _)]
  refine ⟨hcmd, ?_, ?_⟩
  · apply Obj.ext
    unfold sizeField
    rw [second_bytes hd, hrest, hsecond, List.take_left' r.size.size_eq,
      Obj.store_bytes_of_ge _ (by rw [r.size.size_eq]),
      List.take_of_length_le (by rw [r.size.size_eq])]
  · unfold pathBlock
    rw [third_bytes hd, hrest, hsecond, ha.path, List.drop_left' r.size.size_eq,
      List.take_length, Obj.store_bytes_of_ge _ (Nat.le_refl _), List.take_length]

/-- With the terminator set aside, decoding is right exactly for aligned receives. -/
theorem decodesTo_iff_aligned (hd : c.peer.segments.flatten = r.encode)
    (hnul : (0 : UInt8) ∉ r.path) :
    DecodesTo cupsGetOption lay s c r [] ↔
      Aligned c.peer r ∧ c.host.callocOk r.path.length = true := by
  rw [decodesTo_iff, List.append_nil]
  refine ⟨fun ⟨_, _, hsize, hok, hpre⟩ => ?_, fun ⟨ha, hok⟩ => ?_⟩
  · have hpath := hpre.eq_of_length (pathBlock r.path.length c).size_eq.symm
    exact ⟨aligned_of_fields hd hnul hsize hpath, hok⟩
  · obtain ⟨hcmd, hsize, hpath⟩ := fields_of_aligned hd ha
    have hlen : (commandRecv c).bytes.length = 4 := ha.command
    refine ⟨?_, ?_, hsize, hok, by rw [hpath]⟩
    · refine dispatch_eq_some_iff.mpr ?_
      rw [Obj.store_bytes_of_ge _ (by omega), List.take_of_length_le (by omega)]
      exact hcmd
    · unfold received
      rw [List.drop_of_length_le (by omega), Layout.overrun_nil]

end

/-- No delivery of a request is decoded with its terminator. Without it, a path free of NUL bytes
    is decoded exactly when the segments make the three calls return 4, 4 and all its bytes. -/
theorem decoding_iff (cupsGetOption : CupsGetOption) (lay : Layout) (s : LoopState) (c : Conn)
    (r : Request) (hd : c.peer.segments.flatten = r.encode) :
    ¬ DecodesTo cupsGetOption lay s c r [0] ∧
      ((0 : UInt8) ∉ r.path → (DecodesTo cupsGetOption lay s c r [] ↔
        Aligned c.peer r ∧ c.host.callocOk r.path.length = true)) :=
  ⟨not_decodesTo_nul, decodesTo_iff_aligned hd⟩

/-- A request to print the file `a`, in one segment. -/
def oneFile : Request := ⟨[97], by decide, by decide⟩

def oneFileConn : Conn := ⟨Peer.sending 4 [oneFile.encode] (by decide), Host.blank⟩

theorem decoding_iff_oneFile :
    ¬ DecodesTo optionNamed Layout.apart idleState oneFileConn oneFile [0] ∧
      ((0 : UInt8) ∉ oneFile.path →
        (DecodesTo optionNamed Layout.apart idleState oneFileConn oneFile [] ↔
          Aligned oneFileConn.peer oneFile ∧
            oneFileConn.host.callocOk oneFile.path.length = true)) :=
  decoding_iff optionNamed Layout.apart idleState oneFileConn oneFile (by decide)

/-- In one segment the request is read as a command with five bytes behind it. -/
theorem decoding_oneFile_false :
    ¬ ∀ (cupsGetOption : CupsGetOption) (lay : Layout) (s : LoopState) (c : Conn) (r : Request),
      c.peer.segments.flatten = r.encode → DecodesTo cupsGetOption lay s c r [0] := by
  intro h
  exact not_decodesTo_nul (h optionNamed Layout.apart idleState oneFileConn oneFile (by decide))

end OlegPrinter
