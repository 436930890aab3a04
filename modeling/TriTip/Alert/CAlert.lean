import TriTip.Net.MessageHeader

/-!
# Alerts

`CUnsignedAlert` and `CAlert` (`alert.h`, `alert.cpp`): a signed message, of which the other
fields are read when its signature has been checked. `GetAdjustedTime` is an argument of what
calls it.
-/

namespace TriTip

structure CUnsignedAlert where
  nVersion : Int32
  /-- when newer nodes stop relaying to newer nodes -/
  nRelayUntil : Int64
  nExpiration : Int64
  nID : Int32
  nCancel : Int32
  setCancel : Finset Int32
  /-- lowest version inclusive -/
  nMinVer : Int32
  /-- highest version inclusive -/
  nMaxVer : Int32
  /-- empty matches all -/
  setSubVer : Finset (List UInt8)
  nPriority : Int32
  strComment : List UInt8
  strStatusBar : List UInt8
  strReserved : List UInt8
  deriving DecidableEq

structure CAlert extends CUnsignedAlert where
  vchMsg : List UInt8
  vchSig : List UInt8
  deriving DecidableEq

/-- What alerts use of `serialize.h`, `key.h`, `version.h` and the arguments of the program. -/
structure AlertRules (H : Type) where
  Hash : List UInt8 → H
  /-- of a hash and a signature, with the alert key of the network -/
  Verify : H → List UInt8 → Bool
  setInt : Parser (Finset Int32)
  setString : Parser (Finset (List UInt8))
  string : Parser (List UInt8)
  PROTOCOL_VERSION : Int32
  strSubVersion : List UInt8
  /-- `GetArg("-alertnotify", "")` -/
  alertnotify : List UInt8

def CUnsignedAlert.SetNull : CUnsignedAlert where
  nVersion := 1
  nRelayUntil := 0
  nExpiration := 0
  nID := 0
  nCancel := 0
  setCancel := ∅
  nMinVer := 0
  nMaxVer := 0
  setSubVer := ∅
  nPriority := 0
  strComment := []
  strStatusBar := []
  strReserved := []

/-- An alert as it is read from a message. -/
def CAlert.received (vchMsg vchSig : List UInt8) : CAlert where
  toCUnsignedAlert := .SetNull
  vchMsg := vchMsg
  vchSig := vchSig

section

variable {H : Type} (R : AlertRules H)

def CUnsignedAlert.Unserialize : Parser CUnsignedAlert := do
  let nVersion ← Codec.int32.read
  let nRelayUntil ← Codec.int64.read
  let nExpiration ← Codec.int64.read
  let nID ← Codec.int32.read
  let nCancel ← Codec.int32.read
  let setCancel ← R.setInt
  let nMinVer ← Codec.int32.read
  let nMaxVer ← Codec.int32.read
  let setSubVer ← R.setString
  let nPriority ← Codec.int32.read
  let strComment ← R.string
  let strStatusBar ← R.string
  let strReserved ← R.string
  pure { nVersion, nRelayUntil, nExpiration, nID, nCancel, setCancel, nMinVer, nMaxVer, setSubVer,
         nPriority, strComment, strStatusBar, strReserved }

namespace CAlert

def GetHash (alert : CAlert) : H := R.Hash alert.vchMsg

def IsInEffect (GetAdjustedTime : Int64) (alert : CAlert) : Bool :=
  GetAdjustedTime < alert.nExpiration

def Cancels (GetAdjustedTime : Int64) (self alert : CAlert) : Bool :=
  if !self.IsInEffect GetAdjustedTime then
    -- this was a no-op before 31403
    false
  else alert.nID ≤ self.nCancel || alert.nID ∈ self.setCancel

def AppliesTo (GetAdjustedTime : Int64) (alert : CAlert) (nVersion : Int32)
    (strSubVerIn : List UInt8) : Bool :=
  alert.IsInEffect GetAdjustedTime &&
    alert.nMinVer ≤ nVersion && nVersion ≤ alert.nMaxVer &&
    (alert.setSubVer = ∅ || strSubVerIn ∈ alert.setSubVer)

def AppliesToMe (GetAdjustedTime : Int64) (alert : CAlert) : Bool :=
  alert.AppliesTo GetAdjustedTime R.PROTOCOL_VERSION R.strSubVersion

/-- `CheckSignature`, with the alert as it leaves it; `none` if reading the fields throws. -/
def CheckSignature (alert : CAlert) : Option (Bool × CAlert) :=
  if !R.Verify (R.Hash alert.vchMsg) alert.vchSig then some (false, alert)
  else do
    let (fields, _) ← CUnsignedAlert.Unserialize R alert.vchMsg
    return (true, { alert with toCUnsignedAlert := fields })

/-! ## Relations that do not depend on the clock -/

variable {R} {GetAdjustedTime : Int64} {self alert : CAlert}

/-- What `Cancels` tests of an alert that is in effect. -/
def Overrides (self alert : CAlert) : Prop :=
  alert.nID ≤ self.nCancel ∨ alert.nID ∈ self.setCancel

theorem cancels_iff : self.Cancels GetAdjustedTime alert = true ↔
    self.IsInEffect GetAdjustedTime = true ∧ self.Overrides alert := by
  unfold Cancels Overrides
  cases self.IsInEffect GetAdjustedTime <;> simp

theorem not_overrides_iff : ¬self.Overrides alert ↔
    self.nCancel < alert.nID ∧ alert.nID ∉ self.setCancel := by
  unfold Overrides
  rw [not_or, Int32.not_le]

/-- The message of an alert says what its fields are. -/
theorem fields_of_checkSignature {checked : CAlert}
    (h : alert.CheckSignature R = some (true, checked)) :
    R.Verify (R.Hash alert.vchMsg) alert.vchSig = true ∧ ∃ rest,
      CUnsignedAlert.Unserialize R alert.vchMsg = some (checked.toCUnsignedAlert, rest) ∧
      checked.vchMsg = alert.vchMsg ∧ checked.vchSig = alert.vchSig := by
  unfold CheckSignature at h
  split at h
  · cases h
  · next hverify =>
    obtain ⟨⟨fields, rest⟩, hfields, h⟩ := Option.bind_eq_some_iff.1 h
    cases h
    refine ⟨by simpa using hverify, rest, hfields, rfl, rfl⟩

end CAlert

end

end TriTip
