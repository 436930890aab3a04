import Mathlib

/-!
# Lending from a pool

Numbered places have contents; a place is free, lent to a holder, or neither. Contents that are used
up are retired. As long as nothing is put into a place that is lent, and what is put there is new, a
free place never has contents that are lent or retired (`Sound.of_free`). Whatever takes, returns,
retires or loses places keeps the pool sound (`Sound.of_sub`).
-/

namespace LendingPool

/-- The free places, the place each holder has, the contents, and what is retired. -/
structure Pool (ι η κ : Type) where
  free : Finset ι
  held : η → Option ι
  content : ι → Option κ
  retired : Set κ

variable {ι η κ : Type}

/-- Free or lent. -/
def Pool.Live (p : Pool ι η κ) (i : ι) : Prop := i ∈ p.free ∨ ∃ h, p.held h = some i

/-- In a place that is free or lent, or retired. -/
def Pool.Known (p : Pool ι η κ) (k : κ) : Prop :=
  (∃ i, p.Live i ∧ p.content i = some k) ∨ k ∈ p.retired

structure Sound (p : Pool ι η κ) : Prop where
  full : ∀ i, p.Live i → (p.content i).isSome
  exclusive : ∀ h i, p.held h = some i → i ∉ p.free
  single : ∀ h h' i, p.held h = some i → p.held h' = some i → h = h'
  distinct : ∀ i j k, p.Live i → p.Live j → p.content i = some k → p.content j = some k → i = j
  unretired : ∀ i k, p.Live i → p.content i = some k → k ∉ p.retired

variable {p q : Pool ι η κ}

/-- The contents of a free place are neither lent nor retired. -/
theorem Sound.of_free (h : Sound p) {i : ι} (hi : i ∈ p.free) {k : κ} (hk : p.content i = some k) :
    (∀ x j, p.held x = some j → p.content j ≠ some k) ∧ k ∉ p.retired := by
  refine ⟨fun x j hj hkj => ?_, h.unretired i k (.inl hi) hk⟩
  obtain rfl := h.distinct i j k (.inl hi) (.inr ⟨x, hj⟩) hk hkj
  exact h.exclusive x i hj hi

/-- Places may change hands, be lost, or be used up. -/
structure Sub (q p : Pool ι η κ) : Prop where
  live : ∀ i, q.Live i → p.Live i ∧ q.content i = p.content i
  exclusive : ∀ h i, q.held h = some i → i ∉ q.free
  single : ∀ h h' i, q.held h = some i → q.held h' = some i → h = h'
  retired : ∀ k ∈ q.retired, k ∈ p.retired ∨ ∃ i, p.Live i ∧ ¬ q.Live i ∧ p.content i = some k

theorem Sound.of_sub (h : Sound p) (hsub : Sub q p) : Sound q where
  full i hi := by
    rw [(hsub.live i hi).2]
    exact h.full i (hsub.live i hi).1
  exclusive := hsub.exclusive
  single := hsub.single
  distinct i j k hi hj hki hkj := by
    rw [(hsub.live i hi).2] at hki
    rw [(hsub.live j hj).2] at hkj
    exact h.distinct i j k (hsub.live i hi).1 (hsub.live j hj).1 hki hkj
  unretired i k hi hk hret := by
    rw [(hsub.live i hi).2] at hk
    rcases hsub.retired k hret with hret | ⟨j, hj, hnot, hkj⟩
    · exact h.unretired i k (hsub.live i hi).1 hk hret
    · exact hnot (h.distinct i j k (hsub.live i hi).1 hj hk hkj ▸ hi)

theorem Sub.known (hsub : Sub q p) {k : κ} (hk : q.Known k) : p.Known k := by
  rcases hk with ⟨i, hi, hk⟩ | hret
  · exact .inl ⟨i, (hsub.live i hi).1, (hsub.live i hi).2 ▸ hk⟩
  · rcases hsub.retired k hret with hret | ⟨i, hi, -, hk⟩
    · exact .inr hret
    · exact .inl ⟨i, hi, hk⟩

/-- Something that is not known is retired at once. -/
theorem Sound.retire (h : Sound p) {k : κ} (hk : ¬ p.Known k) :
    Sound { p with retired := insert k p.retired } where
  full := h.full
  exclusive := h.exclusive
  single := h.single
  distinct := h.distinct
  unretired i k' hi hk' hret := by
    rcases Set.mem_insert_iff.1 hret with rfl | hret
    · exact hk (.inl ⟨i, hi, hk'⟩)
    · exact h.unretired i k' hi hk' hret

section

variable [DecidableEq ι]

/-- Something is put into a place, which is free then. -/
def Pool.put (p : Pool ι η κ) (i : ι) (k : κ) : Pool ι η κ :=
  { p with free := insert i p.free, content := Function.update p.content i (some k) }

theorem live_put {i j : ι} {k : κ} : (p.put i k).Live j ↔ j = i ∨ p.Live j := by
  unfold Pool.Live Pool.put
  simp only [Finset.mem_insert, or_assoc]

/-- What is put is new, and the place is not lent. -/
theorem Sound.put (h : Sound p) {i : ι} {k : κ} (hi : ∀ x, p.held x ≠ some i)
    (hk : ¬ p.Known k) : Sound (p.put i k) := by
  have hself : (p.put i k).content i = some k := Function.update_self ..
  have hother : ∀ {j}, j ≠ i → (p.put i k).content j = p.content j :=
    fun hj => Function.update_of_ne hj ..
  have hlive : ∀ {j}, (p.put i k).Live j → j ≠ i → p.Live j := by
    intro j hj hne
    exact (live_put.1 hj).resolve_left hne
  have hnew : ∀ {j}, (p.put i k).Live j → (p.put i k).content j = some k → j = i := by
    intro j hj hkj
    by_contra hne
    rw [hother hne] at hkj
    exact hk (.inl ⟨j, hlive hj hne, hkj⟩)
  constructor
  · intro j hj
    by_cases hji : j = i
    · rw [hji, hself]
      rfl
    · rw [hother hji]
      exact h.full j (hlive hj hji)
  · intro x j hj hfree
    rcases Finset.mem_insert.1 hfree with rfl | hfree
    · exact hi x hj
    · exact h.exclusive x j hj hfree
  · exact h.single
  · intro j l k' hj hl hkj hkl
    by_cases hji : j = i
    · subst hji
      obtain rfl : k = k' := Option.some.inj (hself.symm.trans hkj)
      exact (hnew hl hkl).symm
    · by_cases hli : l = i
      · subst hli
        obtain rfl : k = k' := Option.some.inj (hself.symm.trans hkl)
        exact hnew hj hkj
      · rw [hother hji] at hkj
        rw [hother hli] at hkl
        exact h.distinct j l k' (hlive hj hji) (hlive hl hli) hkj hkl
  · intro j k' hj hkj hret
    by_cases hji : j = i
    · subst hji
      obtain rfl : k = k' := Option.some.inj (hself.symm.trans hkj)
      exact hk (.inr hret)
    · rw [hother hji] at hkj
      exact h.unretired j k' (hlive hj hji) hkj hret

/-- Nothing else becomes known. -/
theorem known_put {i : ι} {k k' : κ} (h : (p.put i k).Known k') : k' = k ∨ p.Known k' := by
  rcases h with ⟨j, hj, hkj⟩ | hret
  · by_cases hji : j = i
    · subst hji
      exact .inl (Option.some.inj (hkj.symm.trans (Function.update_self ..)))
    · refine .inr (.inl ⟨j, (live_put.1 hj).resolve_left hji, ?_⟩)
      rw [← hkj]
      exact (Function.update_of_ne hji ..).symm
  · exact .inr (.inr hret)

end

end LendingPool
