import TriTip.Lib.Run

/-!
# Sending

`SocketSendData` (`net.cpp`): the buffers queued for a peer are offered to the socket one after
another, which takes all of one, a part, nothing or fails. Whatever it does, what it has taken is
the beginning of what was queued (`run_sends`).
-/

namespace TriTip

/-- A buffer with something in it. -/
abbrev CSerializeData := { data : List UInt8 // data ≠ [] }

inductive SocketError where
  | WSAEWOULDBLOCK
  | WSAEMSGSIZE
  | WSAEINTR
  | WSAEINPROGRESS
  | other (nErr : Int)
  deriving DecidableEq

/-- What `send` does when it is offered a number of bytes: it takes as many as it says if that is
positive, and is in error if it is negative. -/
structure SocketAnswer where
  nBytes : Nat → Int
  nErr : SocketError
  nBytes_le : ∀ len : Nat, nBytes len ≤ len

/-- The sending side of `CNode`, with the bytes that the socket has accepted. -/
structure SendSide where
  vSendMsg : List CSerializeData
  nSendOffset : Nat
  nSendSize : Nat
  nSendBytes : Nat
  nLastSend : Int64
  fDisconnect : Bool
  accepted : List UInt8

/-- The asserts of `SocketSendData`. -/
inductive SendFault where
  | offsetBeyondData
  | offsetAtEnd
  | sizeAtEnd
  deriving DecidableEq

namespace SendSide

/-- A new node: nothing queued. -/
def new : SendSide where
  vSendMsg := []
  nSendOffset := 0
  nSendSize := 0
  nSendBytes := 0
  nLastSend := 0
  fDisconnect := false
  accepted := []

/-- The end of a message: its buffer goes to the end of the queue. -/
def append (node : SendSide) (data : CSerializeData) : SendSide :=
  { node with
    vSendMsg := node.vSendMsg ++ [data], nSendSize := node.nSendSize + data.val.length }

/-- The loop from `it` on, which comes to the buffers in the list; `answers i` is what the socket
says to the `i`th call. It gives what is left from where `it` stops. -/
def SocketSendData.loop (nTime : Int64) (answers : Nat → SocketAnswer) :
    Nat → SendSide → List CSerializeData → Except SendFault (SendSide × List CSerializeData)
  | _, pnode, [] => .ok (pnode, [])
  | i, pnode, data :: rest =>
    if ¬pnode.nSendOffset < data.val.length then .error .offsetBeyondData
    else
      let nBytes := (answers i).nBytes (data.val.length - pnode.nSendOffset)
      if 0 < nBytes then
        let pnode := { pnode with
          nLastSend := nTime
          nSendBytes := pnode.nSendBytes + nBytes.toNat
          nSendOffset := pnode.nSendOffset + nBytes.toNat
          accepted := pnode.accepted ++ (data.val.drop pnode.nSendOffset).take nBytes.toNat }
        if pnode.nSendOffset = data.val.length then
          loop nTime answers (i + 1)
            { pnode with nSendOffset := 0, nSendSize := pnode.nSendSize - data.val.length } rest
        -- could not send full message; stop sending more
        else .ok (pnode, data :: rest)
      -- couldn't send anything at all
      else if nBytes < 0 ∧ (answers i).nErr ≠ .WSAEWOULDBLOCK ∧ (answers i).nErr ≠ .WSAEMSGSIZE ∧
          (answers i).nErr ≠ .WSAEINTR ∧ (answers i).nErr ≠ .WSAEINPROGRESS then
        .ok ({ pnode with fDisconnect := true }, data :: rest)
      else .ok (pnode, data :: rest)

def SocketSendData (nTime : Int64) (answers : Nat → SocketAnswer) (pnode : SendSide) :
    Except SendFault SendSide := do
  let (pnode, rest) ← SocketSendData.loop nTime answers 0 pnode pnode.vSendMsg
  if rest.isEmpty && pnode.nSendOffset != 0 then throw .offsetAtEnd
  if rest.isEmpty && pnode.nSendSize != 0 then throw .sizeAtEnd
  return { pnode with vSendMsg := rest }

inductive Op where
  | append (data : CSerializeData)
  | SocketSendData (nTime : Int64) (answers : Nat → SocketAnswer)

def step (node : SendSide) : Op → Except SendFault SendSide
  | .append data => .ok (node.append data)
  | .SocketSendData nTime answers => node.SocketSendData nTime answers

/-- What an operation queues. -/
def Op.queued : Op → List UInt8
  | .append data => data.val
  | .SocketSendData _ _ => []

/-- The bytes of the buffers in a queue. -/
def bytes (queue : List CSerializeData) : List UInt8 := queue.flatMap Subtype.val

/-- Between two turns of the loop, and at its ends: with `queue` still to come, the socket has
accepted what was queued up to the offset in its first buffer. -/
structure Sending (queued : List UInt8) (node : SendSide) (queue : List CSerializeData) : Prop where
  accepted : node.accepted ++ (bytes queue).drop node.nSendOffset = queued
  size : node.nSendSize = (bytes queue).length
  offset_lt : ∀ data ∈ queue.head?, node.nSendOffset < data.val.length
  offset_nil : queue = [] → node.nSendOffset = 0

variable {queued : List UInt8} {node : SendSide}

theorem bytes_cons (data : CSerializeData) (queue : List CSerializeData) :
    bytes (data :: queue) = data.val ++ bytes queue := List.flatMap_cons

theorem sending_new : Sending [] new [] where
  accepted := rfl
  size := rfl
  offset_lt := fun _ h => by cases h
  offset_nil := fun _ => rfl

theorem Sending.append (h : Sending queued node node.vSendMsg) (data : CSerializeData) :
    Sending (queued ++ data.val) (node.append data) (node.append data).vSendMsg where
  accepted := by
    have hle : node.nSendOffset ≤ (bytes node.vSendMsg).length := by
      cases hq : node.vSendMsg with
      | nil => rw [h.offset_nil hq]; exact Nat.zero_le _
      | cons first rest =>
        have hlt := h.offset_lt first (by rw [hq]; rfl)
        rw [bytes_cons, List.length_append]
        omega
    have hacc := h.accepted
    simp only [bytes] at hle hacc
    simp only [SendSide.append, bytes, List.flatMap_append, List.flatMap_singleton]
    rw [List.drop_append_of_le_length hle, ← List.append_assoc, hacc]
  size := by
    have hsize := h.size
    simp only [bytes] at hsize
    simp only [SendSide.append, bytes, List.flatMap_append, List.flatMap_singleton,
      List.length_append, hsize]
  offset_lt := by
    intro first hfirst
    simp only [SendSide.append] at hfirst ⊢
    cases hq : node.vSendMsg with
    | nil =>
      rw [hq] at hfirst
      cases hfirst
      rw [h.offset_nil hq]
      exact List.length_pos_of_ne_nil data.2
    | cons head rest =>
      rw [hq] at hfirst
      cases hfirst
      exact h.offset_lt first (by rw [hq]; rfl)
  offset_nil := fun hnil => absurd hnil (by simp [SendSide.append])

/-- **A turn of the loop** takes a buffer, a part of it or nothing. -/
theorem loop_sending (nTime : Int64) (answers : Nat → SocketAnswer) (i : Nat)
    {queue : List CSerializeData} (h : Sending queued node queue) :
    ∃ node' queue', SocketSendData.loop nTime answers i node queue = .ok (node', queue') ∧
      Sending queued node' queue' := by
  induction queue generalizing i node with
  | nil => exact ⟨node, [], rfl, h⟩
  | cons data rest ih =>
    have hlt := h.offset_lt data rfl
    have hanswer := (answers i).nBytes_le (data.val.length - node.nSendOffset)
    have hacc := h.accepted
    rw [bytes_cons, List.drop_append_of_le_length (by omega)] at hacc
    rw [SocketSendData.loop, if_neg (not_not.2 hlt)]
    dsimp only
    split
    next hpos =>
      set n := ((answers i).nBytes (data.val.length - node.nSendOffset)).toNat with hn
      have hle : n ≤ data.val.length - node.nSendOffset := by omega
      split
      next hall =>
        -- the rest of the buffer
        refine ih (i + 1) ⟨?_, ?_, ?_, fun _ => rfl⟩
        · dsimp only
          rw [List.drop_zero, List.take_of_length_le (by rw [List.length_drop]; omega),
            List.append_assoc, hacc]
        · dsimp only
          rw [h.size, bytes_cons, List.length_append]
          omega
        · intro next hnext
          exact List.length_pos_of_ne_nil next.2
      next hpart =>
        refine ⟨_, _, rfl, ?_, h.size, ?_, fun hnil => by cases hnil⟩
        · dsimp only
          rw [bytes_cons, List.drop_append_of_le_length (by omega), List.append_assoc,
            ← List.append_assoc (List.take _ _), ← List.drop_drop, List.take_append_drop, hacc]
        · intro first hfirst
          cases hfirst
          dsimp only
          omega
    next =>
      split
      next => exact ⟨_, _, rfl, h.accepted, h.size, h.offset_lt, h.offset_nil⟩
      next => exact ⟨_, _, rfl, h⟩

/-- **No assert fires**, and the queue is left as the loop needs it. -/
theorem SocketSendData_sending (nTime : Int64) (answers : Nat → SocketAnswer)
    (h : Sending queued node node.vSendMsg) :
    ∃ node', node.SocketSendData nTime answers = .ok node' ∧
      Sending queued node' node'.vSendMsg := by
  obtain ⟨node', queue', hloop, h'⟩ := loop_sending nTime answers 0 h
  have hend : ∀ n, (queue' = [] → n = 0) → (queue'.isEmpty && n != 0) = false := by
    intro n hn
    cases queue' with
    | nil => rw [hn rfl]; rfl
    | cons _ _ => rfl
  have hsize : queue' = [] → node'.nSendSize = 0 := by
    rintro rfl
    exact h'.size
  refine ⟨{ node' with vSendMsg := queue' }, ?_, h'.accepted, h'.size, h'.offset_lt,
    h'.offset_nil⟩
  unfold SocketSendData
  rw [hloop]
  simp only [bind, Except.bind, hend _ h'.offset_nil, hend _ hsize]
  rfl

theorem step_sending (op : Op) (h : Sending queued node node.vSendMsg) :
    ∃ node', node.step op = .ok node' ∧ Sending (queued ++ op.queued) node' node'.vSendMsg := by
  cases op with
  | append data => exact ⟨_, rfl, h.append data⟩
  | SocketSendData nTime answers =>
    rw [Op.queued, List.append_nil]
    exact SocketSendData_sending nTime answers h

theorem run_sending (ops : List Op) (h : Sending queued node node.vSendMsg) :
    ∃ node', Run.run step node ops = .ok node' ∧
      Sending (queued ++ ops.flatMap Op.queued) node' node'.vSendMsg := by
  induction ops generalizing node queued with
  | nil => exact ⟨node, rfl, by rwa [List.flatMap_nil, List.append_nil]⟩
  | cons op ops ih =>
    obtain ⟨next, hstep, hnext⟩ := step_sending op h
    obtain ⟨last, hrun, hlast⟩ := ih hnext
    refine ⟨last, by rw [Run.run_cons_of_ok hstep, hrun], ?_⟩
    rwa [List.flatMap_cons, ← List.append_assoc]

end SendSide

/-- **Nothing queued is lost, repeated or reordered**, however the socket takes it: no assert
fires, what it has accepted and what is left in the queue behind the offset are what was queued,
`nSendSize` is the size of the queue, and the offset lies in its first buffer. -/
theorem run_sends (ops : List SendSide.Op) :
    ∃ node, Run.run SendSide.step SendSide.new ops = .ok node ∧
      node.accepted <+: ops.flatMap SendSide.Op.queued ∧
      node.accepted ++ (node.vSendMsg.flatMap Subtype.val).drop node.nSendOffset =
        ops.flatMap SendSide.Op.queued ∧
      node.nSendSize = (node.vSendMsg.map fun data => data.val.length).sum ∧
      (∀ data ∈ node.vSendMsg.head?, node.nSendOffset < data.val.length) ∧
      (node.vSendMsg = [] → node.nSendOffset = 0) := by
  obtain ⟨node, hrun, h⟩ := SendSide.run_sending ops SendSide.sending_new
  refine ⟨node, hrun, ⟨_, h.accepted⟩, h.accepted, ?_, h.offset_lt, h.offset_nil⟩
  rw [h.size, SendSide.bytes, List.length_flatMap]

end TriTip
