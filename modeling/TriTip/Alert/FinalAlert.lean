import TriTip.Alert.ProcessAlert

/-!
# The final alert

The alert whose `nID` is the largest `int` says that the alert key is compromised. It cancels all
alerts with a smaller `nID`, but nothing keeps an alert from cancelling it: one whose `nCancel` is
the largest `int`, or that has it in `setCancel`, takes it out and is added.
`finalAlert_stands_iff` says of a whole run when the final alert stands.
-/

namespace TriTip

namespace Alerts

variable {H : Type} [Ord H] [Std.TransOrd H] (R : AlertRules H)

/-- The map has an alert with the message of `f`. -/
def Warned (f : CAlert) (mapAlerts : Std.ExtTreeMap H CAlert compare) : Prop :=
  ∃ g : CAlert, mapAlerts[f.GetHash R]? = some g ∧ g.vchMsg = f.vchMsg

/-- In a call the final alert `f` stays, and any other alert is refused. -/
def Stands (f : CAlert) (s : Alerts H) (call : Int64 × CAlert) : Prop :=
  Warned R f (s.process R call).mapAlerts ∧
    (call.2.vchMsg ≠ f.vchMsg → ∀ s', s.ProcessAlert R call.1 call.2 ≠ some (true, s'))

/-- Another alert that passes the tests and cancels the final alert `f`, or is a final alert
itself that `f` does not cancel. -/
def Overcomes (f : CAlert) (call : Int64 × CAlert) : Prop :=
  call.2.vchMsg ≠ f.vchMsg ∧ ∃ self, call.2.Tested R call.1 = some (some self) ∧
    (self.nCancel = maxInt ∨ maxInt ∈ self.setCancel ∨ self.nID = maxInt ∧ maxInt ∉ f.setCancel)

variable {R} [Std.LawfulEqOrd H] {s : Alerts H} {f g : CAlert} {call : Int64 × CAlert}
  {self : CAlert}

/-! ## What the final alert cancels, and what cancels it -/

theorem le_maxInt (n : Int32) : n ≤ maxInt := Int32.le_maxValue n

theorem maxInt_le_iff {n : Int32} : maxInt ≤ n ↔ n = maxInt :=
  ⟨fun h => Int32.le_antisymm (le_maxInt n) h, fun h => h ▸ Int32.le_refl _⟩

theorem overrides_final_iff {a : CAlert} (hf : f.nID = maxInt) :
    a.Overrides f ↔ a.nCancel = maxInt ∨ maxInt ∈ a.setCancel := by
  unfold CAlert.Overrides
  rw [hf, maxInt_le_iff]

theorem nCancel_of_finalOk (h : f.FinalOk = true) : f.nCancel = maxInt - 1 := by
  unfold CAlert.FinalOk at h
  simp only [Bool.and_eq_true, decide_eq_true_eq] at h
  exact h.1.1.1.1.1.2

theorem nExpiration_of_finalOk (h : f.FinalOk = true) : f.nExpiration = maxInt.toInt64 := by
  unfold CAlert.FinalOk at h
  simp only [Bool.and_eq_true, decide_eq_true_eq] at h
  exact h.1.1.1.1.1.1

theorem le_pred_maxInt_iff {n : Int32} : n ≤ maxInt - 1 ↔ n ≠ maxInt := by
  have hmax : n.toInt ≤ 2147483647 := Int32.toInt_le n
  rw [Int32.le_iff_toInt_le, Ne, ← Int32.toInt_inj]
  have hpred : (maxInt - 1).toInt = 2147483646 := by decide
  have hself : maxInt.toInt = 2147483647 := by decide
  omega

theorem final_overrides_iff {a : CAlert} (hf : f.FinalOk = true) :
    f.Overrides a ↔ a.nID ≠ maxInt ∨ a.nID ∈ f.setCancel := by
  unfold CAlert.Overrides
  rw [nCancel_of_finalOk hf, le_pred_maxInt_iff]

/-! ## One call -/

omit [Std.LawfulEqOrd H] in
/-- The stored alert with the message of `f` has its fields. -/
theorem exists_of_warned (hsound : Sound R s.mapAlerts)
    (hfields : ∃ rest, CUnsignedAlert.Unserialize R f.vchMsg = some (f.toCUnsignedAlert, rest))
    (h : Warned R f s.mapAlerts) : ∃ g : CAlert, s.mapAlerts[f.GetHash R]? = some g ∧
      g.vchMsg = f.vchMsg ∧ g.toCUnsignedAlert = f.toCUnsignedAlert := by
  obtain ⟨g, hg, hmsg⟩ := h
  obtain ⟨rest, hrest⟩ := hfields
  obtain ⟨rest', hrest'⟩ := hsound.fields hg
  rw [hmsg, hrest] at hrest'
  exact ⟨g, hg, hmsg, (Prod.mk.inj (Option.some.inj hrest')).1.symm⟩

theorem overrides_congr {a b b' : CAlert} (h : b.toCUnsignedAlert = b'.toCUnsignedAlert) :
    a.Overrides b ↔ a.Overrides b' := by
  unfold CAlert.Overrides
  rw [h]

theorem overrides_congr_left {a a' b : CAlert} (h : a.toCUnsignedAlert = a'.toCUnsignedAlert) :
    a.Overrides b ↔ a'.Overrides b := by
  unfold CAlert.Overrides
  rw [h]

/-- What is not overridden and in effect outlives the cancelling of previous alerts. -/
theorem getElem?_of_not_overrides {now : Int64} {k : H} (hg : s.mapAlerts[k]? = some g)
    (heffect : g.IsInEffect now = true) (hover : ¬self.Overrides g) :
    (s.cancelPrevious now self).mapAlerts[k]? = some g := by
  refine getElem?_cancelPrevious.2 ⟨hg, ?_, heffect⟩
  rw [Bool.eq_false_iff]
  exact fun hcancels => hover (CAlert.cancels_iff.1 hcancels).2

/-- What is overridden does not. -/
theorem getElem?_of_overrides {now : Int64} {k : H} (hg : s.mapAlerts[k]? = some g)
    (heffect : self.IsInEffect now = true) (hover : self.Overrides g) :
    (s.cancelPrevious now self).mapAlerts[k]? = none := by
  rcases hk : (s.cancelPrevious now self).mapAlerts[k]? with _ | x
  · rfl
  · obtain ⟨hx, hnot, -⟩ := getElem?_cancelPrevious.1 hk
    rw [hg] at hx
    have hcancels : self.Cancels now x = true :=
      CAlert.cancels_iff.2 ⟨heffect, Option.some.inj hx ▸ hover⟩
    rw [hnot] at hcancels
    cases hcancels

/-- What is in the map stays there when an alert is added. -/
theorem getElem?_add_of_some {now : Int64} {k : H} (hg : s.mapAlerts[k]? = some g) :
    (s.add R now self).mapAlerts[k]? = some g := by
  rw [mapAlerts_add, Std.ExtTreeMap.getElem?_insertIfNew, if_neg]
  · exact hg
  · rintro ⟨heq, hnew⟩
    rw [Std.LawfulEqCmp.compare_eq_iff_eq] at heq
    subst heq
    exact hnew (Std.ExtTreeMap.mem_iff_isSome_getElem?.2 (by rw [hg]; rfl))

/-- Where the map has nothing, an alert is added under its hash only. -/
theorem getElem?_add_of_none {now : Int64} {k : H} {x : CAlert} (hk : s.mapAlerts[k]? = none) :
    (s.add R now self).mapAlerts[k]? = some x ↔ self.GetHash R = k ∧ self = x := by
  rw [mapAlerts_add, Std.ExtTreeMap.getElem?_insertIfNew, hk]
  constructor
  · intro h
    split at h
    · next hkey => exact ⟨Std.LawfulEqCmp.compare_eq_iff_eq.1 hkey.1, Option.some.inj h⟩
    · cases h
  · rintro ⟨rfl, rfl⟩
    rw [if_pos]
    refine ⟨Std.ReflCmp.compare_self, fun hmem => ?_⟩
    rw [Std.ExtTreeMap.mem_iff_isSome_getElem?, hk] at hmem
    cases hmem

/-- Of the alerts stored beside a final alert none cancels an alert that the final alert does not
cancel. -/
theorem not_cancelled_of_final {now : Int64} (hsound : Sound R s.mapAlerts)
    (hg : s.mapAlerts[f.GetHash R]? = some g) (hgf : g.nID = maxInt) (hself : self.nID = maxInt)
    (hleft : ∀ x, (s.cancelPrevious now self).mapAlerts[f.GetHash R]? = some x →
      ¬x.Overrides self) : ¬s.Cancelled now self := by
  rintro ⟨k, x, hk, hcancels⟩
  have hover := (CAlert.cancels_iff.1 hcancels).2
  by_cases hkey : k = f.GetHash R
  · subst hkey
    exact hleft x hk hover
  · have hx := (getElem?_cancelPrevious.1 hk).1
    refine hsound.apart hx hg hkey ?_
    unfold CAlert.Overrides at hover ⊢
    rwa [hgf, ← hself]

theorem process_of_cancelled (htested : call.2.Tested R call.1 = some (some self))
    (h : s.Cancelled call.1 self) : s.process R call = s.cancelPrevious call.1 self := by
  unfold process
  rw [processAlert_of_cancelled htested h]

theorem process_of_not_cancelled (htested : call.2.Tested R call.1 = some (some self))
    (h : ¬s.Cancelled call.1 self) :
    s.process R call = (s.cancelPrevious call.1 self).add R call.1 self := by
  unfold process
  rw [processAlert_of_not_cancelled htested h]

omit [Std.LawfulEqOrd H] in
/-- An alert that does not pass the tests changes nothing. -/
theorem stands_of_not_tested (hwarned : Warned R f s.mapAlerts)
    (htested : ∀ self, call.2.Tested R call.1 ≠ some (some self)) : Stands R f s call := by
  unfold Stands process
  rcases h : call.2.Tested R call.1 with _ | _ | self
  · rw [processAlert_of_throws h]
    exact ⟨hwarned, fun _ => nofun⟩
  · rw [processAlert_of_fails h]
    exact ⟨hwarned, fun _ => nofun⟩
  · exact absurd h (htested self)

/-- What the cancelling leaves, the call leaves. -/
theorem warned_of_left (htested : call.2.Tested R call.1 = some (some self))
    (hg : (s.cancelPrevious call.1 self).mapAlerts[f.GetHash R]? = some g)
    (hmsg : g.vchMsg = f.vchMsg) : Warned R f (s.process R call).mapAlerts := by
  by_cases hcancelled : s.Cancelled call.1 self
  · rw [process_of_cancelled htested hcancelled]
    exact ⟨g, hg, hmsg⟩
  · rw [process_of_not_cancelled htested hcancelled]
    exact ⟨g, getElem?_add_of_some hg, hmsg⟩

/-- The final alert itself, when it comes again. -/
theorem warned_of_same (hsound : Sound R s.mapAlerts) (hg : s.mapAlerts[f.GetHash R]? = some g)
    (hgmsg : g.vchMsg = f.vchMsg) (hgf : g.toCUnsignedAlert = f.toCUnsignedAlert)
    (hid : f.nID = maxInt) (hgeffect : g.IsInEffect call.1 = true)
    (htested : call.2.Tested R call.1 = some (some self)) (hselfmsg : self.vchMsg = f.vchMsg)
    (hselff : self.toCUnsignedAlert = f.toCUnsignedAlert) :
    Warned R f (s.process R call).mapAlerts := by
  have hgid : g.nID = maxInt := (congrArg CUnsignedAlert.nID hgf).trans hid
  have hselfid : self.nID = maxInt := (congrArg CUnsignedAlert.nID hselff).trans hid
  by_cases hover : self.Overrides g
  · -- it cancels itself and is added again
    have hlost := getElem?_of_overrides hg (of_tested htested).2.1 hover
    have hnot : ¬s.Cancelled call.1 self :=
      not_cancelled_of_final hsound hg hgid hselfid fun x hx => by rw [hlost] at hx; cases hx
    rw [process_of_not_cancelled htested hnot]
    refine ⟨self, (getElem?_add_of_none hlost).2 ⟨?_, rfl⟩, hselfmsg⟩
    unfold CAlert.GetHash
    rw [hselfmsg]
  · exact warned_of_left htested (getElem?_of_not_overrides hg hgeffect hover) hgmsg

/-- Another alert. -/
theorem stands_iff_of_other (hsound : Sound R s.mapAlerts)
    (hg : s.mapAlerts[f.GetHash R]? = some g) (hgmsg : g.vchMsg = f.vchMsg)
    (hgf : g.toCUnsignedAlert = f.toCUnsignedAlert) (hid : f.nID = maxInt) (hok : f.FinalOk = true)
    (hgeffect : g.IsInEffect call.1 = true)
    (htested : call.2.Tested R call.1 = some (some self)) :
    (Warned R f (s.process R call).mapAlerts ∧
      ∀ s', s.ProcessAlert R call.1 call.2 ≠ some (true, s')) ↔
    ¬self.Overrides f ∧ f.Overrides self := by
  have hgid : g.nID = maxInt := (congrArg CUnsignedAlert.nID hgf).trans hid
  constructor
  · rintro ⟨⟨x, hx, hxmsg⟩, hrefused⟩
    have hcancelled : s.Cancelled call.1 self := by
      by_contra h
      exact hrefused _ (processAlert_of_not_cancelled htested h)
    rw [process_of_cancelled htested hcancelled] at hx
    have hnot : ¬self.Overrides f := by
      rw [← overrides_congr hgf]
      intro hover
      rw [getElem?_of_overrides hg (of_tested htested).2.1 hover] at hx
      cases hx
    refine ⟨hnot, ?_⟩
    rw [final_overrides_iff hok, or_iff_not_imp_left, not_not]
    intro hselfid
    -- else nothing would have cancelled it
    by_contra hnotin
    refine not_cancelled_of_final hsound hg hgid hselfid (fun y hy => ?_) hcancelled
    obtain ⟨hy, -⟩ := getElem?_cancelPrevious.1 hy
    rw [hg] at hy
    rw [← Option.some.inj hy, overrides_congr_left hgf, final_overrides_iff hok, not_or, not_not]
    exact ⟨hselfid, hnotin⟩
  · rintro ⟨hnot, hover⟩
    rw [← overrides_congr hgf] at hnot
    rw [← overrides_congr_left hgf] at hover
    have hleft := getElem?_of_not_overrides hg hgeffect hnot
    have hcancelled : s.Cancelled call.1 self :=
      ⟨_, g, hleft, CAlert.cancels_iff.2 ⟨hgeffect, hover⟩⟩
    refine ⟨warned_of_left htested hleft hgmsg, fun s' h => ?_⟩
    rw [processAlert_of_cancelled htested hcancelled] at h
    cases h

/-- **One call leaves the final alert standing** exactly if its alert does not overcome it. -/
theorem stands_iff (hsound : Sound R s.mapAlerts) (hid : f.nID = maxInt) (hok : f.FinalOk = true)
    (hfields : ∃ rest, CUnsignedAlert.Unserialize R f.vchMsg = some (f.toCUnsignedAlert, rest))
    (hwarned : Warned R f s.mapAlerts) (hclock : call.1 < maxInt.toInt64) :
    Stands R f s call ↔ ¬Overcomes R f call := by
  obtain ⟨g, hg, hgmsg, hgf⟩ := exists_of_warned hsound hfields hwarned
  have hgeffect : g.IsInEffect call.1 = true := by
    unfold CAlert.IsInEffect
    rw [hgf, nExpiration_of_finalOk hok]
    exact decide_eq_true hclock
  by_cases hnone : ∀ self, call.2.Tested R call.1 ≠ some (some self)
  · refine iff_of_true (stands_of_not_tested hwarned hnone) ?_
    rintro ⟨-, self, htested, -⟩
    exact hnone self htested
  push Not at hnone
  obtain ⟨self, htested⟩ := hnone
  obtain ⟨-, rest, hselffields, hselfmsg, -⟩ :=
    CAlert.fields_of_checkSignature (of_tested htested).1
  by_cases hmsg : call.2.vchMsg = f.vchMsg
  · refine iff_of_true ⟨?_, fun hother => absurd hmsg hother⟩ fun h => h.1 hmsg
    obtain ⟨rest', hrest'⟩ := hfields
    rw [hmsg, hrest'] at hselffields
    exact warned_of_same hsound hg hgmsg hgf hid hgeffect htested (hselfmsg.trans hmsg)
      (Prod.mk.inj (Option.some.inj hselffields)).1.symm
  · have hiff := stands_iff_of_other hsound hg hgmsg hgf hid hok hgeffect htested
    have hstands : Stands R f s call ↔ ¬self.Overrides f ∧ f.Overrides self := by
      rw [← hiff]
      exact ⟨fun h => ⟨h.1, h.2 hmsg⟩, fun h => ⟨h.1, fun _ => h.2⟩⟩
    rw [hstands, overrides_final_iff hid, final_overrides_iff hok]
    unfold Overcomes
    rw [htested]
    constructor
    · rintro ⟨hnot, hover⟩ ⟨-, self', hself', hcond⟩
      obtain rfl := Option.some.inj (Option.some.inj hself')
      rcases hcond with h | h | ⟨hselfid, hnotin⟩
      · exact hnot (.inl h)
      · exact hnot (.inr h)
      · rcases hover with h | h
        · exact h hselfid
        · exact hnotin (hselfid ▸ h)
    · intro h
      refine ⟨fun hnot => h ⟨hmsg, self, rfl, hnot.elim .inl fun hin => .inr (.inl hin)⟩, ?_⟩
      rw [or_iff_not_imp_left, not_not]
      intro hselfid
      by_contra hnotin
      exact h ⟨hmsg, self, rfl, .inr (.inr ⟨hselfid, hselfid ▸ hnotin⟩)⟩

/-! ## Runs -/

omit [Std.LawfulEqOrd H] in
/-- The final alert is there as long as it stands. -/
theorem warned_of_prefix {after calls : List (Int64 × CAlert)} (hwarned : Warned R f s.mapAlerts)
    (hstands : ∀ init last, init ++ [last] <+: after →
      Warned R f (init.foldl (process R) s).mapAlerts → Stands R f (init.foldl (process R) s) last)
    (hcalls : calls <+: after) : Warned R f (calls.foldl (process R) s).mapAlerts := by
  apply Run.foldl_of_prefix (fun _ t => Warned R f (mapAlerts t)) hwarned _ hcalls
  intro init last hprefix hbefore
  exact (hstands init last hprefix hbefore).1

end Alerts

/-- **When the final alert stands in a run**: as long as the adjusted time has not reached the
largest `int`, in every call the final alert stays in `mapAlerts` and any other alert is refused,
exactly if no alert of the run passes the tests and has the largest `int` as its `nCancel` or in
its `setCancel`, or as its `nID` when the final alert has it not in its `setCancel`. -/
theorem finalAlert_stands_iff {H : Type} [Ord H] [Std.TransOrd H] [Std.LawfulEqOrd H]
    (R : AlertRules H) (before after : List (Int64 × CAlert)) (k : H) (f : CAlert)
    (hf : (before.foldl (Alerts.process R) Alerts.start).mapAlerts[k]? = some f)
    (hid : f.nID = maxInt) (hclock : ∀ call ∈ after, call.1 < maxInt.toInt64) :
    (∀ calls call, calls ++ [call] <+: after →
      Alerts.Stands R f ((before ++ calls).foldl (Alerts.process R) Alerts.start) call) ↔
    ∀ call ∈ after, ¬Alerts.Overcomes R f call := by
  simp only [List.foldl_append]
  set s := before.foldl (Alerts.process R) Alerts.start with hs
  have hsound : ∀ calls : List (Int64 × CAlert),
      Alerts.Sound R (calls.foldl (Alerts.process R) s).mapAlerts := by
    intro calls
    rw [hs]
    exact (Alerts.sound_start.foldl_process before).foldl_process calls
  have hok : f.FinalOk = true := (hsound []).finalOk hf hid
  have hfields := (hsound []).fields hf
  have hwarned : Alerts.Warned R f s.mapAlerts := ⟨f, (hsound []).hash hf ▸ hf, rfl⟩
  constructor
  · intro hstands call hcall
    obtain ⟨calls, rest, rfl⟩ := List.append_of_mem hcall
    have hprefix : calls ++ [call] <+: calls ++ call :: rest := by simp
    refine (Alerts.stands_iff (hsound calls) hid hok hfields ?_ (hclock call hcall)).1
      (hstands calls call hprefix)
    exact Alerts.warned_of_prefix hwarned (fun init last h _ => hstands init last h)
      (List.prefix_append _ _)
  · intro hnone
    have hstands : ∀ calls call, calls ++ [call] <+: after →
        Alerts.Warned R f (calls.foldl (Alerts.process R) s).mapAlerts →
          Alerts.Stands R f (calls.foldl (Alerts.process R) s) call := by
      intro calls call hprefix hbefore
      have hcall : call ∈ after := hprefix.subset (by simp)
      exact (Alerts.stands_iff (hsound calls) hid hok hfields hbefore (hclock call hcall)).2
        (hnone call hcall)
    -- the final alert is there after the calls before
    intro calls call hprefix
    apply hstands calls call hprefix
    exact Alerts.warned_of_prefix hwarned hstands ((List.prefix_append _ _).trans hprefix)

/-- The final alert, at a time before it is cancelled. -/
def keyCompromised : Int64 × CAlert :=
  (1000, .ofFields maxInt.toInt64 maxInt (maxInt - 1) []
    (chars "URGENT: Alert key compromised, upgrade required"))

/-- A final alert and a late alert that it cancels. -/
theorem finalAlert_stands_twoAlerts : ∃ (k : Nat) (f : CAlert),
    ([keyCompromised].foldl (Alerts.process .lengths) Alerts.start).mapAlerts[k]? = some f ∧
    ((∀ calls call, calls ++ [call] <+: twoAlerts →
      Alerts.Stands .lengths f
        (([keyCompromised] ++ calls).foldl (Alerts.process .lengths) Alerts.start) call) ↔
    ∀ call ∈ twoAlerts, ¬Alerts.Overcomes .lengths f call) := by
  have hstored :
      (([keyCompromised].foldl (Alerts.process .lengths) Alerts.start).mapAlerts[92]?).map
      (fun f => f.nID) = some maxInt := by
    decide +kernel
  obtain ⟨f, hf, hid⟩ := Option.map_eq_some_iff.1 hstored
  exact ⟨92, f, hf, finalAlert_stands_iff .lengths [keyCompromised] twoAlerts 92 f hf hid
    (by decide)⟩

/-- A signed alert 5 whose `nCancel` is the largest `int` is accepted, and takes the final alert
out. -/
theorem finalAlert_removed :
    ([keyCompromised].foldl (Alerts.process .lengths) Alerts.start).mapAlerts[92]?.map
        (fun f => (f.nID, f.FinalOk)) = some (maxInt, true) ∧
      (([keyCompromised].foldl (Alerts.process .lengths) Alerts.start).ProcessAlert .lengths 1001
        (.ofFields 2000 5 maxInt [] [])).map (fun r => (r.1, r.2.mapAlerts[92]?)) =
          some (true, none) := by
  decide +kernel

end TriTip
