import TriTip.Lib.Chunks
import TriTip.Net.MessageHeader

/-!
# Receiving messages

`CNode::ReceiveMsgBytes` and the two readers of `CNetMessage` (`net.cpp`): the bytes of a peer are
taken in as they come, twenty-four of them into the header buffer and then as many as the header
says into the payload. How the stream is cut into calls makes no difference to what is in
`vRecvMsg` (`ReceiveMsgBytes_chunks`).
-/

namespace TriTip

/-- `memcpy` of `src` to place `pos` of a buffer. -/
def writeAt (buf : List UInt8) (pos : Nat) (src : List UInt8) : List UInt8 :=
  buf.take pos ++ src ++ buf.drop (pos + src.length)

theorem length_writeAt {buf src : List UInt8} {pos : Nat} (h : pos + src.length ≤ buf.length) :
    (writeAt buf pos src).length = buf.length := by
  simp only [writeAt, List.length_append, List.length_take, List.length_drop]
  omega

/-- Two writes one after the other are one. -/
theorem writeAt_writeAt (buf a : List UInt8) (pos : Nat) (h : pos + a.length ≤ buf.length)
    (b : List UInt8) :
    writeAt (writeAt buf pos a) (pos + a.length) b = writeAt buf pos (a ++ b) := by
  have hlen : (buf.take pos ++ a).length = pos + a.length := by
    rw [List.length_append, List.length_take, Nat.min_eq_left (by omega)]
  unfold writeAt
  rw [List.take_left' hlen, List.drop_append, List.drop_of_length_le (by omega), hlen,
    List.drop_drop, List.length_append, List.nil_append]
  simp only [List.append_assoc]
  congr 4
  omega

/-- `CDataStream::resize`, which fills with zeros. -/
def resize (vch : List UInt8) (n : Nat) : List UInt8 :=
  vch.take n ++ List.replicate (n - vch.length) 0

theorem length_resize (vch : List UInt8) (n : Nat) : (resize vch n).length = n := by
  simp only [resize, List.length_append, List.length_take, List.length_replicate]
  omega

structure CNetMessage where
  in_data : Bool
  hdrbuf : List UInt8
  hdr : CMessageHeader
  nHdrPos : Nat
  vRecv : List UInt8
  nDataPos : Nat
  nVersion : Int32
  deriving DecidableEq

namespace CNetMessage

/-- `CNetMessage(SER_NETWORK, nVersion)`: a header buffer of twenty-four bytes and nothing read. -/
def new (netMessageStart : Vector UInt8 4) (nVersion : Int32) : CNetMessage where
  in_data := false
  hdrbuf := List.replicate 24 0
  hdr := .default netMessageStart
  nHdrPos := 0
  vRecv := []
  nDataPos := 0
  nVersion := nVersion

def complete (msg : CNetMessage) : Bool :=
  msg.in_data && msg.nDataPos == msg.hdr.nMessageSize.toNat

/-- The number of bytes handled, or `none` for a header that is refused. -/
def readHeader (msg : CNetMessage) (pch : List UInt8) : Option Nat × CNetMessage :=
  let nRemaining := 24 - msg.nHdrPos
  let nCopy := min nRemaining pch.length
  let msg := { msg with
    hdrbuf := writeAt msg.hdrbuf msg.nHdrPos (pch.take nCopy), nHdrPos := msg.nHdrPos + nCopy }
  -- if header incomplete, exit
  if msg.nHdrPos < 24 then (some nCopy, msg)
  else
    match CMessageHeader.decode msg.hdrbuf with
    | none => (none, msg)
    | some (hdr, rest) =>
      let msg := { msg with hdr := hdr, hdrbuf := rest }
      -- reject messages larger than MAX_SIZE
      if MAX_SIZE < hdr.nMessageSize then (none, msg)
      -- switch state to reading message data
      else (some nCopy,
        { msg with in_data := true, vRecv := resize msg.vRecv hdr.nMessageSize.toNat })

def readData (msg : CNetMessage) (pch : List UInt8) : Option Nat × CNetMessage :=
  let nRemaining := msg.hdr.nMessageSize.toNat - msg.nDataPos
  let nCopy := min nRemaining pch.length
  (some nCopy, { msg with
    vRecv := writeAt msg.vRecv msg.nDataPos (pch.take nCopy), nDataPos := msg.nDataPos + nCopy })

/-- The reader for what is missing. -/
def absorb (msg : CNetMessage) (pch : List UInt8) : Option Nat × CNetMessage :=
  if !msg.in_data then msg.readHeader pch else msg.readData pch

/-- What the two readers keep of the message they work on. -/
structure WellFormed (msg : CNetMessage) : Prop where
  header : msg.in_data = false → msg.nHdrPos < 24 ∧ msg.hdrbuf.length = 24
  data : msg.in_data = true →
    msg.vRecv.length = msg.hdr.nMessageSize.toNat ∧ msg.nDataPos ≤ msg.hdr.nMessageSize.toNat
  start : msg.in_data = false → msg.nDataPos = 0

theorem wellFormed_new (netMessageStart : Vector UInt8 4) (nVersion : Int32) :
    (new netMessageStart nVersion).WellFormed where
  header := fun _ => ⟨Nat.zero_lt_succ 23, List.length_replicate⟩
  data := fun h => absurd h (by simp [new])
  start := fun _ => rfl

variable {msg msg' : CNetMessage} {a pch : List UInt8} {handled : Nat}

/-- A call handles something, no more than it is given. -/
theorem absorb_progress (h : msg.WellFormed) (hinc : msg.complete = false) (hne : pch ≠ [])
    (ha : msg.absorb pch = (some handled, msg')) :
    0 < handled ∧ handled ≤ pch.length ∧ msg'.WellFormed := by
  have hpos : 0 < pch.length := List.length_pos_of_ne_nil hne
  unfold absorb at ha
  cases hd : msg.in_data with
  | false =>
    obtain ⟨hlt, hbuf⟩ := h.header hd
    rw [hd, Bool.not_false, if_pos rfl] at ha
    have hlen : (writeAt msg.hdrbuf msg.nHdrPos
        (pch.take (min (24 - msg.nHdrPos) pch.length))).length = 24 := by
      rw [length_writeAt, hbuf]
      rw [List.length_take]
      omega
    unfold readHeader at ha
    dsimp only at ha
    split at ha
    next hshort =>
      obtain ⟨rfl, rfl⟩ := Prod.mk.inj ha |>.imp Option.some.inj id
      refine ⟨by omega, by omega, ?_⟩
      exact ⟨fun _ => ⟨hshort, hlen⟩, fun hin => absurd (hd.symm.trans hin) (by decide),
        fun _ => h.start hd⟩
    next hfull =>
      split at ha
      next => cases ha
      next hdr rest hdec =>
        split at ha
        next => cases ha
        next =>
          obtain ⟨rfl, rfl⟩ := Prod.mk.inj ha |>.imp Option.some.inj id
          refine ⟨by omega, by omega, ?_⟩
          refine ⟨fun hin => (Bool.noConfusion hin), fun _ => ⟨length_resize _ _, ?_⟩,
            fun hin => (Bool.noConfusion hin)⟩
          rw [h.start hd]
          exact Nat.zero_le _
  | true =>
    obtain ⟨hvRecv, hle⟩ := h.data hd
    rw [hd, Bool.not_true, if_neg (by decide)] at ha
    have hlt : msg.nDataPos ≠ msg.hdr.nMessageSize.toNat := by
      intro heq
      simp [complete, hd, heq] at hinc
    unfold readData at ha
    dsimp only at ha
    obtain ⟨rfl, rfl⟩ := Prod.mk.inj ha |>.imp Option.some.inj id
    refine ⟨by omega, by omega, ?_⟩
    refine ⟨fun hin => absurd (hd.symm.trans hin) (by decide), fun _ => ⟨?_, ?_⟩,
      fun hin => absurd (hd.symm.trans hin) (by decide)⟩
    · dsimp only
      rw [length_writeAt, hvRecv]
      rw [List.length_take, hvRecv]
      omega
    · dsimp only
      omega

/-- A reader that stops at the end of the piece takes up from there. -/
theorem absorb_resume (h : msg.WellFormed) (b : List UInt8) :
    msg.absorb (a ++ b) = msg.absorb a ∨
      ∃ msg', msg.absorb a = (some a.length, msg') ∧ msg'.complete = false ∧
        msg.absorb (a ++ b) = ((msg'.absorb b).1.map (a.length + ·), (msg'.absorb b).2) := by
  unfold absorb
  cases hd : msg.in_data with
  | false =>
    obtain ⟨hlt, hbuf⟩ := h.header hd
    rw [Bool.not_false, if_pos rfl, if_pos rfl]
    by_cases hend : 24 - msg.nHdrPos ≤ a.length
    · -- the first piece has the rest of the header
      left
      have hcopy : min (24 - msg.nHdrPos) (a.length + b.length) = 24 - msg.nHdrPos := by omega
      unfold readHeader
      dsimp only
      rw [List.length_append, hcopy, Nat.min_eq_left hend, List.take_append_of_le_length hend]
    · right
      have hshort : msg.nHdrPos + a.length < 24 := by omega
      have hcopy : min (24 - msg.nHdrPos) a.length = a.length := by omega
      refine ⟨{ msg with
        hdrbuf := writeAt msg.hdrbuf msg.nHdrPos a, nHdrPos := msg.nHdrPos + a.length }, ?_, ?_, ?_⟩
      · unfold readHeader
        dsimp only
        rw [hcopy, List.take_length, if_pos hshort]
      · simp [complete, hd]
      · dsimp only
        rw [if_pos (by rw [hd]; rfl)]
        have hrest : min (24 - msg.nHdrPos) (a ++ b).length =
            a.length + min (24 - (msg.nHdrPos + a.length)) b.length := by
          rw [List.length_append]
          omega
        have hwrite := writeAt_writeAt msg.hdrbuf a msg.nHdrPos (by omega)
          (b.take (min (24 - (msg.nHdrPos + a.length)) b.length))
        unfold readHeader
        dsimp only
        rw [hrest, List.take_length_add_append, ← hwrite, ← Nat.add_assoc]
        split
        next => rfl
        next =>
          split
          next => rfl
          next =>
            split
            next => rfl
            next => rfl
  | true =>
    obtain ⟨hvRecv, hle⟩ := h.data hd
    rw [Bool.not_true, if_neg (by decide), if_neg (by decide)]
    by_cases hend : msg.hdr.nMessageSize.toNat - msg.nDataPos ≤ a.length
    · left
      have hcopy : min (msg.hdr.nMessageSize.toNat - msg.nDataPos) (a.length + b.length) =
          msg.hdr.nMessageSize.toNat - msg.nDataPos := by omega
      unfold readData
      dsimp only
      rw [List.length_append, hcopy, Nat.min_eq_left hend, List.take_append_of_le_length hend]
    · right
      have hcopy : min (msg.hdr.nMessageSize.toNat - msg.nDataPos) a.length = a.length := by omega
      refine ⟨{ msg with
        vRecv := writeAt msg.vRecv msg.nDataPos a, nDataPos := msg.nDataPos + a.length },
        ?_, ?_, ?_⟩
      · unfold readData
        dsimp only
        rw [hcopy, List.take_length]
      · have : msg.nDataPos + a.length ≠ msg.hdr.nMessageSize.toNat := by omega
        simp [complete, this]
      · dsimp only
        rw [if_neg (by rw [hd]; decide)]
        have hrest : min (msg.hdr.nMessageSize.toNat - msg.nDataPos) (a ++ b).length =
            a.length + min (msg.hdr.nMessageSize.toNat - (msg.nDataPos + a.length)) b.length := by
          rw [List.length_append]
          omega
        have hwrite := writeAt_writeAt msg.vRecv a msg.nDataPos (by omega)
          (b.take (min (msg.hdr.nMessageSize.toNat - (msg.nDataPos + a.length)) b.length))
        unfold readData
        dsimp only
        rw [hrest, List.take_length_add_append, ← hwrite, ← Nat.add_assoc]
        rfl

end CNetMessage

/-! ## The receive queue -/

section Queue

variable (netMessageStart : Vector UInt8 4) (nRecvVersion : Int32)

/-- The current incomplete message, or a new one, behind the messages before it. -/
def currentMessage (vRecvMsg : List CNetMessage) : List CNetMessage × CNetMessage :=
  match vRecvMsg.getLast? with
  | none => (vRecvMsg, .new netMessageStart nRecvVersion)
  | some msg =>
    if msg.complete then (vRecvMsg, .new netMessageStart nRecvVersion)
    else (vRecvMsg.dropLast, msg)

/-- One turn of the loop of `ReceiveMsgBytes`. -/
def absorbBytes (vRecvMsg : List CNetMessage) (pch : List UInt8) :
    Option Nat × List CNetMessage :=
  let (before, msg) := currentMessage netMessageStart nRecvVersion vRecvMsg
  let (handled, msg) := msg.absorb pch
  (handled, before ++ [msg])

/-- `CNode::ReceiveMsgBytes`. -/
def ReceiveMsgBytes (vRecvMsg : List CNetMessage) (pch : List UInt8) : Bool × List CNetMessage :=
  Chunks.feed (absorbBytes netMessageStart nRecvVersion) vRecvMsg pch

/-- Calls one after another, up to the first that returns false. -/
def ReceiveMsgBytes.calls (vRecvMsg : List CNetMessage) (chunks : List (List UInt8)) :
    Bool × List CNetMessage :=
  Chunks.feedAll (absorbBytes netMessageStart nRecvVersion) vRecvMsg chunks

/-- The last message of the queue is one that the readers have worked on. -/
def Receiving (vRecvMsg : List CNetMessage) : Prop :=
  ∀ msg ∈ vRecvMsg.getLast?, msg.WellFormed

theorem receiving_nil : Receiving [] := by
  intro msg h
  cases h

theorem receiving_concat {before : List CNetMessage} {msg : CNetMessage} (h : msg.WellFormed) :
    Receiving (before ++ [msg]) := by
  intro msg' hmsg'
  rw [List.getLast?_concat] at hmsg'
  cases hmsg'
  exact h

theorem currentMessage_spec {vRecvMsg : List CNetMessage} (h : Receiving vRecvMsg) :
    (currentMessage netMessageStart nRecvVersion vRecvMsg).2.WellFormed ∧
      (currentMessage netMessageStart nRecvVersion vRecvMsg).2.complete = false := by
  unfold currentMessage
  split
  next => exact ⟨CNetMessage.wellFormed_new _ _, rfl⟩
  next msg hlast =>
    split
    next => exact ⟨CNetMessage.wellFormed_new _ _, rfl⟩
    next hcomplete => exact ⟨h msg hlast, by simpa using hcomplete⟩

/-- An incomplete message at the end stays the current one. -/
theorem currentMessage_concat (before : List CNetMessage) {msg : CNetMessage}
    (h : msg.complete = false) :
    currentMessage netMessageStart nRecvVersion (before ++ [msg]) = (before, msg) := by
  unfold currentMessage
  rw [List.getLast?_concat]
  dsimp only
  rw [h, if_neg (by decide), List.dropLast_concat]

variable {netMessageStart nRecvVersion}

/-- **Both readers take up a stream where a cut left it.** -/
theorem absorbBytes_incremental :
    Chunks.Incremental Receiving (absorbBytes netMessageStart nRecvVersion) where
  progress := by
    intro vRecvMsg vRecvMsg' bs n h hne ha
    obtain ⟨hwell, hinc⟩ := currentMessage_spec netMessageStart nRecvVersion h
    unfold absorbBytes at ha
    obtain ⟨hn, rfl⟩ := Prod.mk.inj ha
    obtain ⟨hpos, hle, hwell'⟩ := CNetMessage.absorb_progress hwell hinc hne (Prod.ext hn rfl)
    exact ⟨hpos, hle, receiving_concat hwell'⟩
  resume := by
    intro vRecvMsg a b h hne
    obtain ⟨hwell, hinc⟩ := currentMessage_spec netMessageStart nRecvVersion h
    rcases CNetMessage.absorb_resume (a := a) hwell b with hsame | ⟨msg', ha, hinc', hab⟩
    · left
      unfold absorbBytes
      dsimp only
      rw [hsame]
    · right
      refine ⟨(currentMessage netMessageStart nRecvVersion vRecvMsg).1 ++ [msg'], ?_, fun _ => ?_⟩
      · unfold absorbBytes
        dsimp only
        rw [ha]
      · unfold absorbBytes
        dsimp only
        rw [currentMessage_concat _ _ _ hinc', hab]

/-- A stream received in two calls. -/
theorem ReceiveMsgBytes_append {vRecvMsg vRecvMsg' : List CNetMessage} (h : Receiving vRecvMsg)
    {a : List UInt8}
    (ha : ReceiveMsgBytes netMessageStart nRecvVersion vRecvMsg a = (true, vRecvMsg'))
    (b : List UInt8) :
    ReceiveMsgBytes netMessageStart nRecvVersion vRecvMsg (a ++ b) =
      ReceiveMsgBytes netMessageStart nRecvVersion vRecvMsg' b := by
  unfold ReceiveMsgBytes at ha ⊢
  rw [Chunks.feed_append absorbBytes_incremental h, ha]

/-- A stream that fails in its first part fails. -/
theorem ReceiveMsgBytes_append_ok {vRecvMsg : List CNetMessage} (h : Receiving vRecvMsg)
    {a b : List UInt8}
    (hab : (ReceiveMsgBytes netMessageStart nRecvVersion vRecvMsg (a ++ b)).1 = true) :
    (ReceiveMsgBytes netMessageStart nRecvVersion vRecvMsg a).1 = true := by
  unfold ReceiveMsgBytes at hab ⊢
  rw [Chunks.feed_append absorbBytes_incremental h] at hab
  split at hab
  next ha => rw [ha]
  next => cases hab

end Queue

/-- **How a stream is cut into calls makes no difference**: the calls succeed or fail together and
leave the same messages. -/
theorem ReceiveMsgBytes_chunks (netMessageStart : Vector UInt8 4) (nRecvVersion : Int32)
    (chunks : List (List UInt8)) :
    ReceiveMsgBytes.calls netMessageStart nRecvVersion [] chunks =
      ReceiveMsgBytes netMessageStart nRecvVersion [] chunks.flatten :=
  Chunks.feedAll_eq absorbBytes_incremental receiving_nil chunks

end TriTip
