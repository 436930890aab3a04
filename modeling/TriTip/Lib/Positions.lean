import Mathlib

/-!
# Vectors under exchange and removal by exchange

A vector whose elements know their positions is kept up to date by two moves: exchanging two
elements (`exchange`), and removing one by exchanging it with the last and dropping the last
(`removeAt`). Here they are read off position by position.

A shuffle (`shuffle`) is exchanges only: turn `i` brings an element from place `i` or behind it to
place `i`, and what it has drawn stays at the front (`getElem?_shuffle`).
-/

namespace Positions

variable {α : Type*}

/-- The list with the elements at `i` and `j`, which are `x` and `y`, exchanged. -/
def exchange (v : List α) (i j : Nat) (x y : α) : List α := (v.set i y).set j x

variable {v : List α} {i j : Nat} {x y : α}

@[simp] theorem length_exchange : (exchange v i j x y).length = v.length := by
  simp [exchange]

theorem exchange_perm (hi : v[i]? = some x) (hj : v[j]? = some y) :
    (exchange v i j x y).Perm v := by
  obtain ⟨hi', rfl⟩ := List.getElem?_eq_some_iff.1 hi
  obtain ⟨hj', rfl⟩ := List.getElem?_eq_some_iff.1 hj
  exact List.set_set_perm hi' hj'

theorem getElem?_exchange (hi : v[i]? = some x) (hj : v[j]? = some y) (k : Nat) :
    (exchange v i j x y)[k]? = if k = j then some x else if k = i then some y else v[k]? := by
  have hi' := (List.getElem?_eq_some_iff.1 hi).1
  have hj' := (List.getElem?_eq_some_iff.1 hj).1
  unfold exchange
  rw [List.getElem?_set, List.getElem?_set, List.length_set]
  by_cases hkj : k = j
  · subst hkj; simp [hj']
  · by_cases hki : k = i
    · subst hki; simp [hkj, Ne.symm hkj, hi']
    · simp [hkj, hki, Ne.symm hkj, Ne.symm hki]

/-- Where an element ends up when `x` at `i` and `y` at `j` are exchanged. -/
theorem getElem?_exchange_of_nodup [DecidableEq α] (hv : v.Nodup) (hi : v[i]? = some x)
    (hj : v[j]? = some y) {a : α} {k : Nat} (hk : v[k]? = some a) :
    (exchange v i j x y)[if a = y then i else if a = x then j else k]? = some a := by
  rw [getElem?_exchange hi hj]
  have hpos : ∀ {b : α} {m : Nat}, v[m]? = some b → a = b → m = k := by
    intro b m hm hab
    subst hab
    obtain ⟨hm', hme⟩ := List.getElem?_eq_some_iff.1 hm
    obtain ⟨hk', hke⟩ := List.getElem?_eq_some_iff.1 hk
    exact (List.Nodup.getElem_inj_iff hv).1 (hme.trans hke.symm)
  by_cases hay : a = y
  · have hkj := hpos hj hay
    by_cases hij : i = j
    · subst hij
      rw [hi] at hj
      simp_all
    · simp [hay, hij]
  · by_cases hax : a = x
    · simp [hax]
      intro hxy
      exact absurd (hax.trans hxy) hay
    · have hkj : k ≠ j := fun h => by
        rw [← h, hk] at hj
        exact hay (Option.some.inj hj)
      have hki : k ≠ i := fun h => by
        rw [← h, hk] at hi
        exact hax (Option.some.inj hi)
      simp [hay, hax, hkj, hki, hk]

/-- Overwriting trades the old element for the new one. -/
theorem set_perm (hi : v[i]? = some x) : (x :: v.set i y).Perm (y :: v) := by
  obtain ⟨hi', rfl⟩ := List.getElem?_eq_some_iff.1 hi
  have hv : v = v.take i ++ v[i] :: v.drop (i + 1) := by simp
  have hset : v.set i y = v.take i ++ y :: v.drop (i + 1) := by
    rw [List.set_eq_take_append_cons_drop, if_pos hi']
  have hold : v.Perm (v[i] :: (v.take i ++ v.drop (i + 1))) := by
    conv => lhs; rw [hv]
    exact List.perm_middle
  rw [hset]
  refine ((List.perm_middle.cons _).trans (.swap _ _ _)).trans ?_
  exact hold.symm.cons _

theorem set_nodup (hv : (y :: v).Nodup) (hi : v[i]? = some x) : (v.set i y).Nodup :=
  (List.nodup_cons.1 ((set_perm hi).nodup_iff.2 hv)).2

theorem mem_set (hv : (y :: v).Nodup) (hi : v[i]? = some x) {a : α} :
    a ∈ v.set i y ↔ a ≠ x ∧ (a = y ∨ a ∈ v) := by
  have hnd := List.nodup_cons.1 ((set_perm hi).nodup_iff.2 hv)
  have hmem := (set_perm hi (y := y)).mem_iff (a := a)
  rw [List.mem_cons, List.mem_cons] at hmem
  constructor
  · intro ha
    exact ⟨fun h => hnd.1 (h ▸ ha), hmem.1 (Or.inr ha)⟩
  · rintro ⟨hax, ha⟩
    exact (hmem.2 ha).resolve_left hax

/-- Removal by exchange with the last element. -/
def removeAt (v : List α) (i : Nat) (x y : α) : List α :=
  (exchange v i (v.length - 1) x y).dropLast

theorem removeAt_append (hi : v[i]? = some x) (hl : v[v.length - 1]? = some y) :
    removeAt v i x y ++ [x] = exchange v i (v.length - 1) x y := by
  have hlen := (List.getElem?_eq_some_iff.1 hl).1
  have hne : exchange v i (v.length - 1) x y ≠ [] := by
    intro h
    have := congrArg List.length h
    simp only [length_exchange, List.length_nil] at this
    omega
  have hlast : (exchange v i (v.length - 1) x y).getLast hne = x := by
    apply Option.some.inj
    rw [← List.getLast?_eq_some_getLast hne, List.getLast?_eq_getElem?, length_exchange,
      getElem?_exchange hi hl]
    simp
  conv => rhs; rw [← List.dropLast_append_getLast hne, hlast]
  rfl

theorem removeAt_perm (hi : v[i]? = some x) (hl : v[v.length - 1]? = some y) :
    (removeAt v i x y ++ [x]).Perm v := by
  rw [removeAt_append hi hl]
  exact exchange_perm hi hl

theorem removeAt_nodup (hv : v.Nodup) (hi : v[i]? = some x) (hl : v[v.length - 1]? = some y) :
    (removeAt v i x y).Nodup :=
  (List.nodup_append.1 ((removeAt_perm hi hl).nodup_iff.2 hv)).1

theorem mem_removeAt (hv : v.Nodup) (hi : v[i]? = some x) (hl : v[v.length - 1]? = some y)
    {a : α} : a ∈ removeAt v i x y ↔ a ∈ v ∧ a ≠ x := by
  have hnd := List.nodup_append.1 ((removeAt_perm hi hl).nodup_iff.2 hv)
  have hmem := (removeAt_perm hi hl).mem_iff (a := a)
  rw [List.mem_append, List.mem_singleton] at hmem
  constructor
  · intro ha
    exact ⟨hmem.1 (Or.inl ha), hnd.2.2 a ha x (List.mem_singleton.2 rfl)⟩
  · rintro ⟨ha, hax⟩
    exact (hmem.2 ha).resolve_right hax

/-- The other elements: the last one has moved to `i`, the rest stay where they were. -/
theorem getElem?_removeAt [DecidableEq α] (hv : v.Nodup) (hi : v[i]? = some x)
    (hl : v[v.length - 1]? = some y) {a : α} {k : Nat} (hk : v[k]? = some a) (hax : a ≠ x) :
    (removeAt v i x y)[if a = y then i else k]? = some a := by
  have hex := getElem?_exchange_of_nodup hv hi hl hk
  rw [if_neg hax, ← removeAt_append hi hl] at hex
  by_cases hlt : (if a = y then i else k) < (removeAt v i x y).length
  · rwa [List.getElem?_append_left hlt] at hex
  · rw [List.getElem?_append_right (Nat.not_lt.1 hlt)] at hex
    exact absurd (List.mem_singleton.1 (List.mem_of_getElem? hex)) hax

/-! ## Shuffles -/

/-- The elements at two places, if there are two, exchanged. -/
def swap (v : List α) (i j : Nat) : List α :=
  match v[i]?, v[j]? with
  | some x, some y => exchange v i j x y
  | _, _ => v

theorem swap_eq (hi : v[i]? = some x) (hj : v[j]? = some y) : swap v i j = exchange v i j x y := by
  unfold swap
  rw [hi, hj]

theorem exchange_comm (hi : v[i]? = some x) (hj : v[j]? = some y) :
    exchange v j i y x = exchange v i j x y := by
  refine List.ext_getElem? fun k => ?_
  rw [getElem?_exchange hi hj, getElem?_exchange hj hi]
  by_cases hki : k = i
  · subst hki
    by_cases hkj : k = j
    · subst hkj
      rw [if_pos rfl, if_pos rfl, ← hi, ← hj]
    · rw [if_pos rfl, if_neg hkj, if_pos rfl]
  · rw [if_neg hki, if_neg hki]

theorem swap_perm (v : List α) (i j : Nat) : (swap v i j).Perm v := by
  unfold swap
  split
  · next hi hj => exact exchange_perm hi hj
  · exact .refl v

theorem getElem?_swap_of_ne {k : Nat} (hi : k ≠ i) (hj : k ≠ j) : (swap v i j)[k]? = v[k]? := by
  unfold swap
  split
  · next hx hy => rw [getElem?_exchange hx hy, if_neg hj, if_neg hi]
  · rfl

theorem getElem?_swap_left (hi : i < v.length) (hj : j < v.length) :
    (swap v i j)[i]? = v[j]? := by
  have hx := List.getElem?_eq_getElem hi
  have hy := List.getElem?_eq_getElem hj
  rw [swap_eq hx hy, getElem?_exchange hx hy]
  by_cases hij : i = j
  · subst hij
    rw [if_pos rfl]
    exact hx.symm
  · rw [if_neg hij, if_pos rfl]
    exact hy.symm

/-- The first turns of a shuffle: turn `i` exchanges what is at `i` and at `draw i`. -/
def shuffle (draw : Nat → Nat) (v : List α) : (turns : Nat) → List α
  | 0 => v
  | i + 1 => swap (shuffle draw v i) i (draw i)

/-- The element that turn `i` draws. -/
def drawn (draw : Nat → Nat) (v : List α) (i : Nat) : Option α := (shuffle draw v i)[draw i]?

theorem shuffle_perm (draw : Nat → Nat) (v : List α) (turns : Nat) :
    (shuffle draw v turns).Perm v := by
  induction turns with
  | zero => exact .refl v
  | succ i ih => exact (swap_perm _ _ _).trans ih

@[simp] theorem length_shuffle (draw : Nat → Nat) (v : List α) (turns : Nat) :
    (shuffle draw v turns).length = v.length :=
  (shuffle_perm draw v turns).length_eq

/-- Every turn draws from its own place on. -/
def Draws (draw : Nat → Nat) (n : Nat) : Prop := ∀ i < n, i ≤ draw i ∧ draw i < n

/-- What has been drawn stays in front. -/
theorem getElem?_shuffle {draw : Nat → Nat} (hdraw : Draws draw v.length) {turns : Nat}
    (hturns : turns ≤ v.length) {i : Nat} (hi : i < turns) :
    (shuffle draw v turns)[i]? = drawn draw v i := by
  induction turns with
  | zero => exact absurd hi (Nat.not_lt_zero i)
  | succ n ih =>
    obtain ⟨hle, hlt⟩ := hdraw n hturns
    rcases Nat.lt_succ_iff_lt_or_eq.1 hi with hi' | rfl
    · exact (getElem?_swap_of_ne (by omega) (by omega)).trans (ih (by omega) hi')
    · exact getElem?_swap_left (by rw [length_shuffle]; omega) (by rw [length_shuffle]; omega)

/-- The number of the first least value up to the `n`-th, as a scan finds it. -/
def firstLeast {β : Type*} [LT β] [DecidableLT β] (f : Nat → β) : (n : Nat) → Nat
  | 0 => 0
  | n + 1 => if f (n + 1) < f (firstLeast f n) then n + 1 else firstLeast f n

theorem firstLeast_le {β : Type*} [LT β] [DecidableLT β] (f : Nat → β) (n : Nat) :
    firstLeast f n ≤ n := by
  induction n with
  | zero => exact Nat.le_refl 0
  | succ n ih =>
    unfold firstLeast
    split
    · exact Nat.le_refl _
    · exact ih.trans (Nat.le_succ n)

theorem firstLeast_least {β : Type*} [LE β] [LT β] [DecidableLT β] [Std.IsLinearOrder β]
    [Std.LawfulOrderLT β] (f : Nat → β) {n i : Nat} (hi : i ≤ n) : f (firstLeast f n) ≤ f i := by
  induction n with
  | zero =>
    obtain rfl := Nat.le_zero.1 hi
    exact Std.le_refl _
  | succ n ih =>
    unfold firstLeast
    rcases Nat.le_succ_iff.1 hi with hi' | rfl
    · split
      · next hlt => exact Std.le_trans (Std.le_of_lt hlt) (ih hi')
      · exact ih hi'
    · split
      · exact Std.le_refl _
      · next hlt => exact Std.not_lt.1 hlt

end Positions
