import TriTip.Alert.CAlert
import TriTip.Lib.OrdMap
import TriTip.Lib.Run

/-!
# Processing alerts

`CAlert::ProcessAlert` (`alert.cpp`). An alert that passes its tests first takes what it cancels,
and what has expired, out of `mapAlerts`, and is added if none of the rest cancels it. As all of
the rest is then in effect, no stored alert overrides another, whatever the clock does later
(`mapAlerts_notCancelled`).
-/

namespace TriTip

inductive ChangeType where
  | CT_NEW
  | CT_DELETED
  deriving DecidableEq

/-- `mapAlerts`, the calls of `NotifyAlertChanged` and the commands run for `-alertnotify`. -/
structure Alerts (H : Type) [Ord H] where
  mapAlerts : Std.ExtTreeMap H CAlert compare
  notified : List (H × ChangeType)
  commands : List (List UInt8)

def maxInt : Int32 := 2147483647

/-- What is asked of an alert whose `nID` is the reserved one. -/
def CAlert.FinalOk (alert : CAlert) : Bool :=
  alert.nExpiration = maxInt.toInt64 &&
    alert.nCancel = maxInt - 1 &&
    alert.nMinVer = 0 &&
    alert.nMaxVer = maxInt &&
    alert.setSubVer = ∅ &&
    alert.nPriority = maxInt &&
    alert.strStatusBar = chars "URGENT: Alert key compromised, upgrade required"

def safeChars : List UInt8 :=
  chars "abcdefghijklmnopqrstuvwxyzABCDEFGHIJKLMNOPQRSTUVWXYZ01234567890 .,;_/:?@"

/-- The alert text for the shell: nothing but safe characters, between single quotes. -/
def safeStatus (strStatusBar : List UInt8) : List UInt8 :=
  let singleQuote := chars "'"
  singleQuote ++ (strStatusBar.filter fun ch => ch ∈ safeChars) ++ singleQuote

/-- `replace_all` of `%s`. -/
def replaceAll (text : List UInt8) : List UInt8 → List UInt8
  | 0x25 :: 0x73 :: strCmd => text ++ replaceAll text strCmd
  | ch :: strCmd => ch :: replaceAll text strCmd
  | [] => []

section

variable {H : Type} [Ord H] [Std.TransOrd H] (R : AlertRules H)

/-- The tests before the map is looked at: `none` if one throws, `some none` if one fails, else the
alert with its fields. -/
def CAlert.Tested (GetAdjustedTime : Int64) (alert : CAlert) : Option (Option CAlert) := do
  let (ok, alert) ← alert.CheckSignature R
  if !ok then return none
  if !alert.IsInEffect GetAdjustedTime then return none
  -- alert.nID=max is reserved for if the alert key is compromised
  if alert.nID = maxInt && !alert.FinalOk then return none
  return some alert

namespace Alerts

def start : Alerts H := ⟨∅, [], []⟩

def erase (s : Alerts H) (hash : H) : Alerts H :=
  { s with
    mapAlerts := s.mapAlerts.erase hash
    notified := s.notified ++ [(hash, .CT_DELETED)] }

/-- One turn of the loop over previous alerts. -/
def cancelOne (GetAdjustedTime : Int64) (self : CAlert) (s : Alerts H) (entry : H × CAlert) :
    Alerts H :=
  if self.Cancels GetAdjustedTime entry.2 then s.erase entry.1
  else if !entry.2.IsInEffect GetAdjustedTime then s.erase entry.1
  else s

/-- Cancel previous alerts. -/
def cancelPrevious (s : Alerts H) (GetAdjustedTime : Int64) (self : CAlert) : Alerts H :=
  s.mapAlerts.toList.foldl (cancelOne GetAdjustedTime self) s

/-- Add to mapAlerts, and notify UI and -alertnotify if it applies to me. -/
def add (s : Alerts H) (GetAdjustedTime : Int64) (self : CAlert) : Alerts H :=
  let s := { s with mapAlerts := s.mapAlerts.insertIfNew (self.GetHash R) self }
  if self.AppliesToMe R GetAdjustedTime then
    let s := { s with notified := s.notified ++ [(self.GetHash R, .CT_NEW)] }
    let strCmd := R.alertnotify
    if !strCmd.isEmpty then
      { s with commands := s.commands ++ [replaceAll (safeStatus self.strStatusBar) strCmd] }
    else s
  else s

/-- `ProcessAlert`; `none` if it throws. -/
def ProcessAlert (s : Alerts H) (GetAdjustedTime : Int64) (alert : CAlert) :
    Option (Bool × Alerts H) := do
  match ← alert.Tested R GetAdjustedTime with
  | none => return (false, s)
  | some self =>
    let s := s.cancelPrevious GetAdjustedTime self
    if s.mapAlerts.toList.any fun item => item.2.Cancels GetAdjustedTime self then
      return (false, s)
    return (true, s.add R GetAdjustedTime self)

/-- A call at a time; an exception leaves the map. -/
def process (s : Alerts H) (call : Int64 × CAlert) : Alerts H :=
  match s.ProcessAlert R call.1 call.2 with
  | some (_, s') => s'
  | none => s

/-! ## What a call does -/

variable {R} [Std.LawfulEqOrd H] {s : Alerts H} {GetAdjustedTime : Int64} {alert self g : CAlert}
  {k : H}

omit [Std.LawfulEqOrd H] in
theorem mapAlerts_foldl_cancelOne (l : List (H × CAlert)) (s : Alerts H) :
    (l.foldl (cancelOne GetAdjustedTime self) s).mapAlerts =
      l.foldl (fun m entry =>
        if self.Cancels GetAdjustedTime entry.2 || !entry.2.IsInEffect GetAdjustedTime then
          m.erase entry.1 else m) s.mapAlerts := by
  induction l generalizing s with
  | nil => rfl
  | cons entry l ih =>
    rw [List.foldl_cons, List.foldl_cons, ih]
    congr 1
    unfold cancelOne
    cases self.Cancels GetAdjustedTime entry.2
    · cases entry.2.IsInEffect GetAdjustedTime <;> rfl
    · rfl

/-- What is left when previous alerts have been cancelled. -/
theorem getElem?_cancelPrevious :
    (s.cancelPrevious GetAdjustedTime self).mapAlerts[k]? = some g ↔
      s.mapAlerts[k]? = some g ∧ self.Cancels GetAdjustedTime g = false ∧
        g.IsInEffect GetAdjustedTime = true := by
  unfold cancelPrevious
  rw [mapAlerts_foldl_cancelOne, OrdMap.getElem?_eraseEach
    (fun g => self.Cancels GetAdjustedTime g || !g.IsInEffect GetAdjustedTime)]
  simp

omit [Std.LawfulEqOrd H] in
@[simp] theorem mapAlerts_add : (s.add R GetAdjustedTime self).mapAlerts =
    s.mapAlerts.insertIfNew (self.GetHash R) self := by
  unfold add
  dsimp only
  split
  · split <;> rfl
  · rfl

/-- The alert is cancelled by one of those that are left. -/
def Cancelled (s : Alerts H) (GetAdjustedTime : Int64) (self : CAlert) : Prop :=
  ∃ (k : H) (g : CAlert), (s.cancelPrevious GetAdjustedTime self).mapAlerts[k]? = some g ∧
    g.Cancels GetAdjustedTime self = true

omit [Std.LawfulEqOrd H] in
theorem processAlert_of_throws (h : alert.Tested R GetAdjustedTime = none) :
    s.ProcessAlert R GetAdjustedTime alert = none := by
  unfold ProcessAlert
  rw [h]
  rfl

omit [Std.LawfulEqOrd H] in
theorem processAlert_of_fails (h : alert.Tested R GetAdjustedTime = some none) :
    s.ProcessAlert R GetAdjustedTime alert = some (false, s) := by
  unfold ProcessAlert
  rw [h]
  rfl

theorem any_cancels_iff : ((s.cancelPrevious GetAdjustedTime self).mapAlerts.toList.any
    fun item => item.2.Cancels GetAdjustedTime self) = true ↔
      s.Cancelled GetAdjustedTime self := by
  rw [List.any_eq_true]
  constructor
  · rintro ⟨⟨k, g⟩, hmem, hg⟩
    exact ⟨k, g, Std.ExtTreeMap.mem_toList_iff_getElem?_eq_some.1 hmem, hg⟩
  · rintro ⟨k, g, hk, hg⟩
    exact ⟨(k, g), Std.ExtTreeMap.mem_toList_iff_getElem?_eq_some.2 hk, hg⟩

theorem processAlert_of_cancelled (h : alert.Tested R GetAdjustedTime = some (some self))
    (hcancelled : s.Cancelled GetAdjustedTime self) :
    s.ProcessAlert R GetAdjustedTime alert =
      some (false, s.cancelPrevious GetAdjustedTime self) := by
  unfold ProcessAlert
  rw [h]
  dsimp only [bind, Option.bind]
  rw [if_pos (any_cancels_iff.2 hcancelled)]
  rfl

theorem processAlert_of_not_cancelled (h : alert.Tested R GetAdjustedTime = some (some self))
    (hcancelled : ¬s.Cancelled GetAdjustedTime self) :
    s.ProcessAlert R GetAdjustedTime alert =
      some (true, (s.cancelPrevious GetAdjustedTime self).add R GetAdjustedTime self) := by
  unfold ProcessAlert
  rw [h]
  dsimp only [bind, Option.bind]
  rw [if_neg (mt any_cancels_iff.1 hcancelled)]
  rfl

omit [Ord H] [Std.TransOrd H] [Std.LawfulEqOrd H] in
/-- What is known of an alert that passes the tests. -/
theorem of_tested (h : alert.Tested R GetAdjustedTime = some (some self)) :
    alert.CheckSignature R = some (true, self) ∧ self.IsInEffect GetAdjustedTime = true ∧
      (self.nID = maxInt → self.FinalOk = true) := by
  obtain ⟨⟨ok, checked⟩, hchecked, h⟩ := Option.bind_eq_some_iff.1 h
  dsimp only at h
  split at h
  · cases h
  split at h
  · cases h
  split at h
  · cases h
  · next hok heffect hfinal =>
    cases h
    obtain rfl : ok = true := by simpa using hok
    refine ⟨hchecked, by simpa using heffect, fun hid => ?_⟩
    simpa [hid] using hfinal

/-! ## The stored alerts -/

/-- The invariant of `mapAlerts`. -/
structure Sound (R : AlertRules H) (mapAlerts : Std.ExtTreeMap H CAlert compare) : Prop where
  hash : ∀ {k : H} {a : CAlert}, mapAlerts[k]? = some a → k = a.GetHash R
  apart : ∀ {k l : H} {a b : CAlert}, mapAlerts[k]? = some a → mapAlerts[l]? = some b → k ≠ l →
    ¬a.Overrides b
  finalOk : ∀ {k : H} {a : CAlert}, mapAlerts[k]? = some a → a.nID = maxInt → a.FinalOk = true
  fields : ∀ {k : H} {a : CAlert}, mapAlerts[k]? = some a → ∃ rest,
    CUnsignedAlert.Unserialize R a.vchMsg = some (a.toCUnsignedAlert, rest)

omit [Std.LawfulEqOrd H] in
theorem sound_start : Sound R (start : Alerts H).mapAlerts := by
  have hempty : ∀ {k : H} {a : CAlert}, (start : Alerts H).mapAlerts[k]? ≠ some a := by
    intro k a h
    rw [start, Std.ExtTreeMap.getElem?_empty] at h
    cases h
  exact ⟨fun h => absurd h hempty, fun h => absurd h hempty, fun h => absurd h hempty,
    fun h => absurd h hempty⟩

/-- What is taken out does no harm. -/
theorem Sound.cancelPrevious (h : Sound R s.mapAlerts) :
    Sound R (s.cancelPrevious GetAdjustedTime self).mapAlerts where
  hash hk := h.hash (getElem?_cancelPrevious.1 hk).1
  apart hk hl := h.apart (getElem?_cancelPrevious.1 hk).1 (getElem?_cancelPrevious.1 hl).1
  finalOk hk := h.finalOk (getElem?_cancelPrevious.1 hk).1
  fields hk := h.fields (getElem?_cancelPrevious.1 hk).1

/-- An entry of the map after an insertion that leaves what is there. -/
theorem getElem?_insertIfNew_cases {m : Std.ExtTreeMap H CAlert compare} {l : H}
    (h : (m.insertIfNew l self)[k]? = some g) : m[k]? = some g ∨ k = l ∧ g = self := by
  rw [Std.ExtTreeMap.getElem?_insertIfNew] at h
  split at h
  · next hnew =>
    exact .inr ⟨(Std.LawfulEqCmp.compare_eq_iff_eq.1 hnew.1).symm, (Option.some.inj h).symm⟩
  · exact .inl h

/-- An alert that none of the rest cancels can be added: the rest is in effect, so that it does
not override the alert at any time, and the alert is in effect, so that it does not override the
rest. -/
theorem Sound.add (h : Sound R s.mapAlerts)
    (htested : alert.Tested R GetAdjustedTime = some (some self))
    (hcancelled : ¬s.Cancelled GetAdjustedTime self) :
    Sound R ((s.cancelPrevious GetAdjustedTime self).add R GetAdjustedTime self).mapAlerts := by
  obtain ⟨hchecked, heffect, hfinal⟩ := of_tested htested
  obtain ⟨-, rest, hfields, hmsg, -⟩ := CAlert.fields_of_checkSignature hchecked
  have hrest : Sound R (s.cancelPrevious GetAdjustedTime self).mapAlerts := h.cancelPrevious
  rw [mapAlerts_add]
  constructor
  · intro k a hk
    rcases getElem?_insertIfNew_cases hk with hk | ⟨rfl, rfl⟩
    · exact hrest.hash hk
    · rfl
  · intro k l a b hk hl hne
    rcases getElem?_insertIfNew_cases hk with hk | ⟨rfl, rfl⟩
    · rcases getElem?_insertIfNew_cases hl with hl | ⟨rfl, rfl⟩
      · exact hrest.apart hk hl hne
      · intro hover
        exact hcancelled ⟨k, a, hk,
          CAlert.cancels_iff.2 ⟨(getElem?_cancelPrevious.1 hk).2.2, hover⟩⟩
    · rcases getElem?_insertIfNew_cases hl with hl | ⟨rfl, rfl⟩
      · intro hover
        have hcancels : a.Cancels GetAdjustedTime b = true :=
          CAlert.cancels_iff.2 ⟨heffect, hover⟩
        rw [(getElem?_cancelPrevious.1 hl).2.1] at hcancels
        cases hcancels
      · exact absurd rfl hne
  · intro k a hk hid
    rcases getElem?_insertIfNew_cases hk with hk | ⟨rfl, rfl⟩
    · exact hrest.finalOk hk hid
    · exact hfinal hid
  · intro k a hk
    rcases getElem?_insertIfNew_cases hk with hk | ⟨rfl, rfl⟩
    · exact hrest.fields hk
    · exact ⟨rest, by rw [hmsg, hfields]⟩

/-- A call keeps the invariant. -/
theorem Sound.process (h : Sound R s.mapAlerts) (call : Int64 × CAlert) :
    Sound R (s.process R call).mapAlerts := by
  unfold Alerts.process
  rcases htested : call.2.Tested R call.1 with _ | _ | self
  · rw [processAlert_of_throws htested]
    exact h
  · rw [processAlert_of_fails htested]
    exact h
  · by_cases hcancelled : s.Cancelled call.1 self
    · rw [processAlert_of_cancelled htested hcancelled]
      exact h.cancelPrevious
    · rw [processAlert_of_not_cancelled htested hcancelled]
      exact h.add htested hcancelled

theorem Sound.foldl_process (h : Sound R s.mapAlerts) (calls : List (Int64 × CAlert)) :
    Sound R (calls.foldl (Alerts.process R) s).mapAlerts :=
  Run.foldl_of_invariant (fun s : Alerts H => Sound R s.mapAlerts) (fun _ => True)
    (fun _ call h _ => h.process call) calls s h fun _ _ => trivial

end Alerts

end

/-- **No stored alert overrides another, and all are stored under their hashes**, whatever alerts
have been processed at whatever times. -/
theorem mapAlerts_notCancelled {H : Type} [Ord H] [Std.TransOrd H] [Std.LawfulEqOrd H]
    (R : AlertRules H) (calls : List (Int64 × CAlert)) :
    (∀ (k : H) (a : CAlert),
      (calls.foldl (Alerts.process R) Alerts.start).mapAlerts[k]? = some a → k = a.GetHash R) ∧
    ∀ (k l : H) (a b : CAlert),
      (calls.foldl (Alerts.process R) Alerts.start).mapAlerts[k]? = some a →
      (calls.foldl (Alerts.process R) Alerts.start).mapAlerts[l]? = some b → k ≠ l →
        a.nCancel < b.nID ∧ b.nID ∉ a.setCancel := by
  have hsound := Alerts.sound_start.foldl_process (R := R) (H := H) calls
  refine ⟨fun k a hk => hsound.hash hk, fun k l a b hk hl hne => ?_⟩
  exact CAlert.not_overrides_iff.1 (hsound.apart hk hl hne)

/-! ## Two alerts -/

/-- A list with its length in one byte. -/
def Parser.listOf {α : Type} (p : Parser α) : Parser (List α) := do
  let n ← Codec.uint8.read
  Parser.many p n.toNat

/-- Rules under which the length of a message is its hash, and every signature is valid. -/
def AlertRules.lengths : AlertRules Nat where
  Hash := List.length
  Verify := fun _ _ => true
  setInt := do return (← Parser.listOf Codec.int32.read).toFinset
  setString := do return (← Parser.listOf (Parser.listOf Codec.uint8.read)).toFinset
  string := Parser.listOf Codec.uint8.read
  PROTOCOL_VERSION := 70001
  strSubVersion := chars "/Satoshi:0.8.0/"
  alertnotify := []

/-- An alert of the largest priority for all versions, with its message in the encodings of these
rules. -/
def CAlert.ofFields (nExpiration : Int64) (nID nCancel : Int32) (setCancel : List Int32)
    (strStatusBar : List UInt8) : CAlert :=
  .received
    (Codec.int32.write 1 ++ Codec.int64.write 0 ++ Codec.int64.write nExpiration ++
      Codec.int32.write nID ++ Codec.int32.write nCancel ++
      (UInt8.ofNat setCancel.length :: setCancel.flatMap Codec.int32.write) ++
      Codec.int32.write 0 ++ Codec.int32.write maxInt ++ [0] ++ Codec.int32.write maxInt ++ [0] ++
      (UInt8.ofNat strStatusBar.length :: strStatusBar) ++ [0])
    []

/-- An alert 10 that cancels alerts 3, and an alert 5. -/
def twoAlerts : List (Int64 × CAlert) :=
  [(1000, .ofFields 2000 10 0 [3] []), (1001, .ofFields 2000 5 0 [] [])]

theorem mapAlerts_notCancelled_twoAlerts :
    (∀ (k : Nat) (a : CAlert),
      (twoAlerts.foldl (Alerts.process .lengths) Alerts.start).mapAlerts[k]? = some a →
        k = a.GetHash AlertRules.lengths) ∧
    ∀ (k l : Nat) (a b : CAlert),
      (twoAlerts.foldl (Alerts.process .lengths) Alerts.start).mapAlerts[k]? = some a →
      (twoAlerts.foldl (Alerts.process .lengths) Alerts.start).mapAlerts[l]? = some b → k ≠ l →
        a.nCancel < b.nID ∧ b.nID ∉ a.setCancel :=
  mapAlerts_notCancelled .lengths twoAlerts

end TriTip
