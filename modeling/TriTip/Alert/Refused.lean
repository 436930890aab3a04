import TriTip.Alert.ProcessAlert

/-!
# Refused alerts

`ProcessAlert` takes what an alert cancels out of `mapAlerts` before it looks whether the alert has
itself been cancelled. An alert that is refused for that has then deleted alerts that are in effect
(`refused_keeps_iff`).
-/

namespace TriTip

namespace Alerts

variable {H : Type} [Ord H] [Std.TransOrd H] {R : AlertRules H}

/-- At most alerts that are no longer in effect have been taken out. -/
def OnlyExpired (GetAdjustedTime : Int64) (mapAlerts mapAlerts' : Std.ExtTreeMap H CAlert compare) :
    Prop :=
  ∀ k : H, mapAlerts'[k]? = mapAlerts[k]? ∨
    ∃ a : CAlert, mapAlerts[k]? = some a ∧ a.IsInEffect GetAdjustedTime = false ∧
      mapAlerts'[k]? = none

/-- An alert that stored alerts cancel and that cancels stored alerts. -/
def CancelsAndIsCancelled (s : Alerts H) (GetAdjustedTime : Int64) (self : CAlert) : Prop :=
  (∃ (k : H) (g : CAlert), s.mapAlerts[k]? = some g ∧ g.Cancels GetAdjustedTime self = true ∧
    self.Cancels GetAdjustedTime g = false) ∧
  ∃ (l : H) (x : CAlert), s.mapAlerts[l]? = some x ∧ self.Cancels GetAdjustedTime x = true ∧
    x.IsInEffect GetAdjustedTime = true

variable [Std.LawfulEqOrd H] {s : Alerts H} {GetAdjustedTime : Int64} {self : CAlert}

theorem cancelled_iff : s.Cancelled GetAdjustedTime self ↔
    ∃ (k : H) (g : CAlert), s.mapAlerts[k]? = some g ∧ g.Cancels GetAdjustedTime self = true ∧
      self.Cancels GetAdjustedTime g = false := by
  constructor
  · rintro ⟨k, g, hk, hg⟩
    obtain ⟨hk, hnot, -⟩ := getElem?_cancelPrevious.1 hk
    exact ⟨k, g, hk, hg, hnot⟩
  · rintro ⟨k, g, hk, hg, hnot⟩
    exact ⟨k, g, getElem?_cancelPrevious.2 ⟨hk, hnot, (CAlert.cancels_iff.1 hg).1⟩, hg⟩

/-- What an alert that cancels nothing in effect takes out has expired. -/
theorem onlyExpired_cancelPrevious_iff :
    OnlyExpired GetAdjustedTime s.mapAlerts (s.cancelPrevious GetAdjustedTime self).mapAlerts ↔
      ∀ (l : H) (x : CAlert), s.mapAlerts[l]? = some x → x.IsInEffect GetAdjustedTime = true →
        self.Cancels GetAdjustedTime x = false := by
  constructor
  · intro h l x hl heffect
    rcases h l with hsame | ⟨a, ha, hexpired, -⟩
    · rw [hl] at hsame
      exact (getElem?_cancelPrevious.1 hsame).2.1
    · rw [hl] at ha
      rw [Option.some.inj ha, hexpired] at heffect
      cases heffect
  · intro h k
    rcases hk : (s.cancelPrevious GetAdjustedTime self).mapAlerts[k]? with _ | g
    · rcases hold : s.mapAlerts[k]? with _ | a
      · exact .inl rfl
      · refine .inr ⟨a, rfl, ?_, rfl⟩
        by_contra heffect
        rw [Bool.not_eq_false] at heffect
        rw [getElem?_cancelPrevious.2 ⟨hold, h k a hold heffect, heffect⟩] at hk
        cases hk
    · exact .inl (getElem?_cancelPrevious.1 hk).1.symm

end Alerts

/-- **When a refused alert deletes no alert in effect**: exactly if it does not both pass the
tests, be cancelled by a stored alert that it does not cancel, and cancel a stored alert that is
in effect. -/
theorem refused_keeps_iff {H : Type} [Ord H] [Std.TransOrd H] [Std.LawfulEqOrd H]
    (R : AlertRules H) (s : Alerts H) (GetAdjustedTime : Int64) (alert : CAlert) :
    (∀ s', s.ProcessAlert R GetAdjustedTime alert = some (false, s') →
      Alerts.OnlyExpired GetAdjustedTime s.mapAlerts s'.mapAlerts) ↔
    ¬∃ self, alert.Tested R GetAdjustedTime = some (some self) ∧
      s.CancelsAndIsCancelled GetAdjustedTime self := by
  constructor
  · rintro h ⟨self, htested, hcancelled, l, x, hl, hcancels, heffect⟩
    have hrun := Alerts.processAlert_of_cancelled htested (Alerts.cancelled_iff.2 hcancelled)
    have hkept := Alerts.onlyExpired_cancelPrevious_iff.1 (h _ hrun) l x hl heffect
    rw [hcancels] at hkept
    cases hkept
  · intro h s' hrun
    rcases htested : alert.Tested R GetAdjustedTime with _ | _ | self
    · rw [Alerts.processAlert_of_throws htested] at hrun
      cases hrun
    · rw [Alerts.processAlert_of_fails htested] at hrun
      cases hrun
      exact fun k => .inl rfl
    · by_cases hcancelled : s.Cancelled GetAdjustedTime self
      · rw [Alerts.processAlert_of_cancelled htested hcancelled] at hrun
        cases hrun
        refine Alerts.onlyExpired_cancelPrevious_iff.2 fun l x hl heffect => ?_
        by_contra hcancels
        rw [Bool.not_eq_false] at hcancels
        exact h ⟨self, htested, Alerts.cancelled_iff.1 hcancelled, l, x, hl, hcancels, heffect⟩
      · rw [Alerts.processAlert_of_not_cancelled htested hcancelled] at hrun
        cases hrun

theorem refused_keeps_iff_twoAlerts :
    (∀ s', (Alerts.start : Alerts Nat).ProcessAlert .lengths 1000 (.ofFields 2000 10 0 [3] []) =
        some (false, s') →
      Alerts.OnlyExpired 1000 (Alerts.start : Alerts Nat).mapAlerts s'.mapAlerts) ↔
    ¬∃ self, (CAlert.ofFields 2000 10 0 [3] []).Tested AlertRules.lengths 1000 = some (some self) ∧
      (Alerts.start : Alerts Nat).CancelsAndIsCancelled 1000 self :=
  refused_keeps_iff .lengths .start 1000 _

/-- Alert 10 cancels alert 3, alert 3 cancels alert 5: a late alert 3 is refused and deletes alert
5. -/
theorem refused_deletes :
    ∃ s', (twoAlerts.foldl (Alerts.process .lengths) Alerts.start).ProcessAlert .lengths 1002
        (.ofFields 2000 3 5 [] []) = some (false, s') ∧
      ¬Alerts.OnlyExpired 1002
        (twoAlerts.foldl (Alerts.process .lengths) Alerts.start).mapAlerts s'.mapAlerts := by
  have hbefore : ((twoAlerts.foldl (Alerts.process .lengths) Alerts.start).mapAlerts[45]?).map
      (CAlert.IsInEffect 1002) = some true := by
    decide +kernel
  have hafter : ((twoAlerts.foldl (Alerts.process .lengths) Alerts.start).ProcessAlert .lengths 1002
      (.ofFields 2000 3 5 [] [])).map (fun r => (r.1, r.2.mapAlerts[45]?)) =
        some (false, none) := by
    decide +kernel
  obtain ⟨⟨accepted, s'⟩, hrun, hr⟩ := Option.map_eq_some_iff.1 hafter
  obtain ⟨rfl, hgone⟩ := Prod.mk.inj hr
  obtain ⟨a, ha, heffect⟩ := Option.map_eq_some_iff.1 hbefore
  refine ⟨s', hrun, fun h => ?_⟩
  rcases h 45 with hsame | ⟨b, hb, hexpired, -⟩
  · rw [hgone, ha] at hsame
    cases hsame
  · rw [ha] at hb
    rw [Option.some.inj hb, hexpired] at heffect
    cases heffect

end TriTip
