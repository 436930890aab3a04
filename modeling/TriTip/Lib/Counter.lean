import Mathlib

/-!
# Loops with a counter that wraps around

`loop m n body` goes up with a counter modulo `m` while it is less than `n`. If `n` is a value of
the counter, the loop takes each index once, in order (`loop_eq`); otherwise the counter begins
again before it gets there, and the loop never ends (`loop_eq_none`).
-/

namespace Counter

variable {σ : Type*}

/-- From `i` on; `none` if that takes more turns. -/
def loop (m n : Nat) (body : Fin n → σ → σ) : (turns i : Nat) → σ → Option σ
  | 0, _, _ => none
  | turns + 1, i, s =>
    if h : i < n then loop m n body turns ((i + 1) % m) (body ⟨i, h⟩ s) else some s

variable {m n : Nat} {body : Fin n → σ → σ} {turns i : Nat}

/-- What is left for the loop to take. -/
theorem loop_eq_drop (hm : n < m) (hi : i ≤ n) (hturns : n - i < turns) (s : σ) :
    loop m n body turns i s =
      some (((List.finRange n).drop i).foldl (fun s i => body i s) s) := by
  induction turns generalizing i s with
  | zero => exact absurd hturns (Nat.not_lt_zero _)
  | succ turns ih =>
    rw [loop]
    by_cases h : i < n
    · have hnext : (i + 1) % m = i + 1 := Nat.mod_eq_of_lt (by omega)
      have hlen : i < (List.finRange n).length := by rwa [List.length_finRange]
      rw [dif_pos h, hnext, ih (by omega) (by omega), List.drop_eq_getElem_cons hlen,
        List.foldl_cons, List.getElem_finRange]
      rfl
    · have hnil : (List.finRange n).drop i = [] := by
        apply List.drop_eq_nil_of_le
        rw [List.length_finRange]
        omega
      rw [dif_neg h, hnil]
      rfl

theorem loop_eq (hm : n < m) (hturns : n < turns) (s : σ) :
    loop m n body turns 0 s = some ((List.finRange n).foldl (fun s i => body i s) s) :=
  loop_eq_drop hm (Nat.zero_le n) hturns s

/-- The counter never gets to the end. -/
theorem loop_eq_none (hm : m ≤ n) (hi : i < m) (s : σ) : loop m n body turns i s = none := by
  induction turns generalizing i s with
  | zero => rfl
  | succ turns ih =>
    rw [loop, dif_pos (by omega)]
    apply ih
    exact Nat.mod_lt _ (by omega)

end Counter
