import Mathlib

/-!
# Numbers of a few digits

A number is cut to `p` digits in base `b` by its exponent, here the number of digits of `c * n`:
with `c = 1` all digits are used, with `c = 2` half of the values of the first digit are left for a
sign. Exponent and mantissa are monotone together (`size_lt_or_mantissa_le`), and what is cut once
stays as it is (`size_cut`, `mantissa_cut`). `nearest` rounds to the nearest number of `p` digits,
as a floating point unit does, and is monotone too.
-/

namespace Significand

variable (b c p : ℕ)

/-- The number of digits of `c * n`. -/
def size (n : ℕ) : ℕ := (Nat.digits b (c * n)).length

/-- The first `p` digits, with zeros behind if there are fewer. -/
def mantissa (n : ℕ) : ℕ :=
  if size b c n ≤ p then n * b ^ (p - size b c n) else n / b ^ (size b c n - p)

/-- The number of an exponent and a mantissa. -/
def value (s m : ℕ) : ℕ := if s ≤ p then m / b ^ (p - s) else m * b ^ (s - p)

def cut (n : ℕ) : ℕ := value b p (size b c n) (mantissa b c p n)

variable {b c p} {m n s : ℕ}

section Size

variable (hb : 1 < b)

include hb

theorem size_le_iff {k : ℕ} : size b c n ≤ k ↔ c * n < b ^ k := Nat.digits_length_le_iff hb _

theorem lt_size_iff {k : ℕ} : k < size b c n ↔ b ^ k ≤ c * n := Nat.lt_digits_length_iff hb _

theorem size_mono (h : m ≤ n) : size b c m ≤ size b c n := by
  rw [size_le_iff hb]
  exact (Nat.mul_le_mul_left c h).trans_lt ((size_le_iff hb).1 le_rfl)

theorem size_pos (hc : 0 < c) (hn : n ≠ 0) : 0 < size b c n := by
  rw [lt_size_iff hb, pow_zero]
  exact Nat.mul_pos hc (Nat.pos_of_ne_zero hn)

end Size

/-! ## Cutting -/

theorem cut_of_size_le (h : size b c n ≤ p) (hb : 1 < b) : cut b c p n = n := by
  have hpow : 0 < b ^ (p - size b c n) := Nat.pow_pos (by omega)
  simp only [cut, value, mantissa, if_pos h]
  exact Nat.mul_div_cancel n hpow

theorem cut_of_lt_size (h : p < size b c n) :
    cut b c p n = n / b ^ (size b c n - p) * b ^ (size b c n - p) := by
  simp only [cut, value, mantissa, if_neg (Nat.not_le.2 h)]

theorem cut_eq (hb : 1 < b) :
    cut b c p n = n / b ^ (size b c n - p) * b ^ (size b c n - p) := by
  rcases Nat.lt_or_ge p (size b c n) with h | h
  · exact cut_of_lt_size h
  · rw [cut_of_size_le h hb, Nat.sub_eq_zero_of_le h, pow_zero, Nat.div_one, Nat.mul_one]

theorem cut_le (hb : 1 < b) : cut b c p n ≤ n := by
  rw [cut_eq hb]
  exact Nat.div_mul_le_self _ _

theorem lt_cut_add (hb : 1 < b) : n < cut b c p n + b ^ (size b c n - p) := by
  rw [cut_eq hb]
  have hmod := Nat.mod_lt n (Nat.pow_pos (n := size b c n - p) (Nat.zero_lt_of_lt hb))
  have hdiv := Nat.div_add_mod' n (b ^ (size b c n - p))
  omega

theorem mantissa_lt (hb : 1 < b) : c * mantissa b c p n < b ^ p := by
  have hn : c * n < b ^ size b c n := (size_le_iff hb).1 le_rfl
  unfold mantissa
  split
  · next h =>
    calc c * (n * b ^ (p - size b c n)) = c * n * b ^ (p - size b c n) := (Nat.mul_assoc ..).symm
      _ < b ^ size b c n * b ^ (p - size b c n) :=
        Nat.mul_lt_mul_of_pos_right hn (Nat.pow_pos (by omega))
      _ = b ^ p := by rw [← pow_add, Nat.add_sub_cancel' h]
  · next h =>
    have hpow : b ^ size b c n = b ^ p * b ^ (size b c n - p) := by
      rw [← pow_add, Nat.add_sub_cancel' (by omega)]
    rw [hpow] at hn
    refine lt_of_mul_lt_mul_right (lt_of_le_of_lt ?_ hn) (Nat.zero_le _)
    rw [Nat.mul_assoc]
    exact Nat.mul_le_mul_left c (Nat.div_mul_le_self _ _)

section

variable (hb : 1 < b) (hc : 0 < c) (hp : 0 < p) (hdvd : c ∣ b ^ (p - 1))

include hb hc hp hdvd

/-- The first digit of a mantissa is not lost. -/
theorem le_mantissa (hn : n ≠ 0) : b ^ (p - 1) ≤ c * mantissa b c p n := by
  have hs := size_pos hb hc hn
  have hle : b ^ (size b c n - 1) ≤ c * n := (lt_size_iff hb).1 (by omega)
  unfold mantissa
  split
  · next h =>
    calc b ^ (p - 1) = b ^ (size b c n - 1) * b ^ (p - size b c n) := by
          rw [← pow_add]
          congr 1
          omega
      _ ≤ c * n * b ^ (p - size b c n) := Nat.mul_le_mul_right _ hle
      _ = c * (n * b ^ (p - size b c n)) := Nat.mul_assoc ..
  · next h =>
    obtain ⟨d, hd⟩ := hdvd
    have hpow : b ^ (size b c n - 1) = c * d * b ^ (size b c n - p) := by
      rw [← hd, ← pow_add]
      congr 1
      omega
    rw [hpow, Nat.mul_assoc] at hle
    rw [hd]
    apply Nat.mul_le_mul_left
    exact (Nat.le_div_iff_mul_le (Nat.pow_pos (by omega))).2 (Nat.le_of_mul_le_mul_left hle hc)

theorem size_cut : size b c (cut b c p n) = size b c n := by
  apply Nat.le_antisymm (size_mono hb (cut_le hb))
  rcases Nat.lt_or_ge p (size b c n) with h | h
  swap
  · rw [cut_of_size_le h hb]
  have hn : n ≠ 0 := by
    rintro rfl
    simp [size] at h
  have hle := le_mantissa hb hc hp hdvd hn
  have hlt : size b c n - 1 < size b c (cut b c p n) := by
    rw [lt_size_iff hb, cut_of_lt_size h]
    rw [mantissa, if_neg (by omega)] at hle
    calc b ^ (size b c n - 1) = b ^ (p - 1) * b ^ (size b c n - p) := by
          rw [← pow_add]
          congr 1
          omega
      _ ≤ c * (n / b ^ (size b c n - p)) * b ^ (size b c n - p) := Nat.mul_le_mul_right _ hle
      _ = c * (n / b ^ (size b c n - p) * b ^ (size b c n - p)) := Nat.mul_assoc ..
  omega

theorem mantissa_cut : mantissa b c p (cut b c p n) = mantissa b c p n := by
  rw [mantissa, size_cut hb hc hp hdvd]
  unfold mantissa
  split
  · next h => rw [cut_of_size_le h hb]
  · next h =>
    rw [cut_of_lt_size (by omega)]
    exact Nat.mul_div_cancel _ (Nat.pow_pos (by omega))

/-- What is cut off is small compared with what is left. -/
theorem sub_cut_lt (hn : n ≠ 0) : (n - cut b c p n) * b ^ (p - 1) < c * cut b c p n := by
  rcases Nat.lt_or_ge p (size b c n) with h | h
  swap
  · rw [cut_of_size_le h hb, Nat.sub_self, Nat.zero_mul]
    exact Nat.mul_pos hc (Nat.pos_of_ne_zero hn)
  have hle := le_mantissa hb hc hp hdvd hn
  have hcut := cut_le (c := c) (p := p) (n := n) hb
  have hlt := lt_cut_add (c := c) (p := p) (n := n) hb
  rw [mantissa, if_neg (by omega)] at hle
  calc (n - cut b c p n) * b ^ (p - 1) < b ^ (size b c n - p) * b ^ (p - 1) :=
        Nat.mul_lt_mul_of_pos_right (by omega) (Nat.pow_pos (by omega))
    _ = b ^ (p - 1) * b ^ (size b c n - p) := Nat.mul_comm ..
    _ ≤ c * (n / b ^ (size b c n - p)) * b ^ (size b c n - p) := Nat.mul_le_mul_right _ hle
    _ = c * cut b c p n := by rw [cut_of_lt_size h, Nat.mul_assoc]

end

/-! ## Digits with less room -/

section Room

variable {d : ℕ} (hb : 1 < b) (hcd : 0 < c * d)

include hb hcd

/-- The exponent is greater with a larger factor if the mantissa says so. -/
theorem size_lt_size_mul (hdvd : c * d ∣ b ^ p) :
    size b c n < size b (c * d) n ↔ b ^ p ≤ c * d * mantissa b c p n := by
  rw [lt_size_iff hb, mantissa]
  split
  · next h =>
    have hpow : 0 < b ^ (p - size b c n) := Nat.pow_pos (by omega)
    rw [← Nat.mul_assoc, ← Nat.mul_le_mul_right_iff hpow, ← pow_add, Nat.add_sub_cancel' h]
  · next h =>
    obtain ⟨e, he⟩ := hdvd
    have hpow : 0 < b ^ (size b c n - p) := Nat.pow_pos (by omega)
    have hsize : b ^ size b c n = c * d * (e * b ^ (size b c n - p)) := by
      rw [← Nat.mul_assoc, ← he, ← pow_add, Nat.add_sub_cancel' (by omega)]
    rw [hsize, he, Nat.mul_le_mul_left_iff hcd, Nat.mul_le_mul_left_iff hcd,
      Nat.le_div_iff_mul_le hpow]

omit hcd in
theorem size_mul_le (hd : d ≤ b) : size b (c * d) n ≤ size b c n + 1 := by
  have hn : c * n < b ^ size b c n := (size_le_iff hb).1 le_rfl
  rw [size_le_iff hb, pow_succ]
  calc c * d * n = c * n * d := by ring
    _ ≤ c * n * b := Nat.mul_le_mul_left _ hd
    _ < b ^ size b c n * b := Nat.mul_lt_mul_of_pos_right hn (by omega)

end Room

theorem mantissa_mul_of_size_eq {d : ℕ} (h : size b (c * d) n = size b c n) :
    mantissa b (c * d) p n = mantissa b c p n := by
  simp only [mantissa, h]

/-- One digit less. -/
theorem mantissa_mul_of_size_succ {d : ℕ} (hb : 1 < b)
    (h : size b (c * d) n = size b c n + 1) :
    mantissa b (c * d) p n = mantissa b c p n / b := by
  simp only [mantissa, h]
  rcases Nat.lt_trichotomy (size b c n) p with hlt | heq | hgt
  · have hpow : b ^ (p - size b c n) = b ^ (p - (size b c n + 1)) * b := by
      rw [← pow_succ]
      congr 1
      omega
    rw [if_pos (by omega), if_pos (by omega), hpow, ← Nat.mul_assoc,
      Nat.mul_div_cancel _ (by omega)]
  · simp [heq]
  · rw [if_neg (by omega), if_neg (by omega), Nat.div_div_eq_div_mul, ← pow_succ]
    congr 2
    omega

/-! ## Order -/

/-- A greater number has a greater exponent, or a mantissa that is not smaller. -/
theorem size_lt_or_mantissa_le (hb : 1 < b) (h : m ≤ n) :
    size b c m < size b c n ∨
      size b c m = size b c n ∧ mantissa b c p m ≤ mantissa b c p n := by
  rcases Nat.lt_or_ge (size b c m) (size b c n) with hlt | hge
  · exact .inl hlt
  · have heq : size b c m = size b c n := Nat.le_antisymm (size_mono hb h) hge
    refine .inr ⟨heq, ?_⟩
    simp only [mantissa, heq]
    split
    · exact Nat.mul_le_mul_right _ h
    · exact Nat.div_le_div_right h

theorem cut_mono (hb : 1 < b) (hc : 0 < c) (hp : 0 < p) (hdvd : c ∣ b ^ (p - 1)) (h : m ≤ n) :
    cut b c p m ≤ cut b c p n := by
  rcases size_lt_or_mantissa_le (c := c) (p := p) hb h with hlt | ⟨heq, hle⟩
  · -- a smaller exponent stays smaller
    have hlt' : size b c (cut b c p m) < size b c (cut b c p n) := by
      simpa only [size_cut hb hc hp hdvd] using hlt
    by_contra hnot
    have hge := size_mono (c := c) hb (Nat.le_of_not_le hnot)
    omega
  · simp only [cut, value, heq]
    split
    · exact Nat.div_le_div_right hle
    · exact Nat.mul_le_mul_right _ hle

/-- What has few digits is not cut. -/
theorem cut_value (hb : 1 < b) (h : c * m < b ^ p) : cut b c p (value b p s m) = value b p s m := by
  rcases Nat.lt_or_ge p s with hlt | hge
  · have hvalue : value b p s m = m * b ^ (s - p) := if_neg (by omega)
    have hsize : size b c (value b p s m) ≤ s := by
      rw [size_le_iff hb, hvalue, ← Nat.mul_assoc]
      calc c * m * b ^ (s - p) < b ^ p * b ^ (s - p) :=
            Nat.mul_lt_mul_of_pos_right h (Nat.pow_pos (by omega))
        _ = b ^ s := by rw [← pow_add, Nat.add_sub_cancel' hlt.le]
    rw [cut_eq hb]
    apply Nat.div_mul_cancel
    have hdvd : b ^ (size b c (value b p s m) - p) ∣ b ^ (s - p) :=
      pow_dvd_pow b (by omega)
    exact hdvd.trans (hvalue ▸ Nat.dvd_mul_left _ _)
  · apply cut_of_size_le _ hb
    apply le_trans _ hge
    rw [size_le_iff hb, value, if_pos hge]
    have hpow : b ^ p = b ^ s * b ^ (p - s) := by rw [← pow_add, Nat.add_sub_cancel' hge]
    rw [hpow] at h
    refine lt_of_mul_lt_mul_right (lt_of_le_of_lt ?_ h) (Nat.zero_le _)
    rw [Nat.mul_assoc]
    exact Nat.mul_le_mul_left c (Nat.div_mul_le_self _ _)

/-! ## The nearest number of `p` digits -/

/-- Half of the last place goes to the even number. -/
def nearest (p n : ℕ) : ℕ :=
  let e := size 2 1 n - p
  let q := n / 2 ^ e
  let r := n % 2 ^ e
  (if 2 ^ e < 2 * r ∨ 2 ^ e = 2 * r ∧ q % 2 = 1 then q + 1 else q) * 2 ^ e

theorem nearest_of_size_le (h : size 2 1 n ≤ p) : nearest p n = n := by
  simp [nearest, Nat.sub_eq_zero_of_le h, Nat.mod_one]

theorem cut_le_nearest : cut 2 1 p n ≤ nearest p n := by
  rw [cut_eq Nat.one_lt_two]
  apply Nat.mul_le_mul_right
  split
  · exact Nat.le_succ _
  · exact le_rfl

/-- Rounding does not go beyond the next power. -/
theorem nearest_le_pow : nearest p n ≤ 2 ^ max p (size 2 1 n) := by
  have hn : 1 * n < 2 ^ size 2 1 n := (size_le_iff Nat.one_lt_two).1 le_rfl
  rw [Nat.one_mul] at hn
  rcases Nat.lt_or_ge p (size 2 1 n) with h | h
  swap
  · rw [nearest_of_size_le h, Nat.max_eq_left h]
    exact hn.le.trans (Nat.pow_le_pow_right Nat.two_pos h)
  have hpow : 2 ^ size 2 1 n = 2 ^ p * 2 ^ (size 2 1 n - p) := by
    rw [← pow_add, Nat.add_sub_cancel' h.le]
  have hq : n / 2 ^ (size 2 1 n - p) < 2 ^ p := by
    rw [Nat.div_lt_iff_lt_mul (Nat.pow_pos Nat.two_pos), ← hpow]
    exact hn
  rw [Nat.max_eq_right h.le, hpow]
  apply Nat.mul_le_mul_right
  split
  · exact hq
  · exact hq.le

theorem nearest_mono (hp : 0 < p) (h : m ≤ n) : nearest p m ≤ nearest p n := by
  rcases (size_mono (c := 1) Nat.one_lt_two h).lt_or_eq with hlt | heq
  · rcases Nat.lt_or_ge p (size 2 1 n) with hn | hn
    swap
    · rw [nearest_of_size_le hn, nearest_of_size_le (hlt.le.trans hn)]
      exact h
    · -- a power lies between them
      have hne : n ≠ 0 := by
        rintro rfl
        simp [size] at hn
      have hle := le_mantissa Nat.one_lt_two Nat.one_pos hp (one_dvd _) hne
      rw [mantissa, if_neg (by omega), Nat.one_mul] at hle
      calc nearest p m ≤ 2 ^ max p (size 2 1 m) := nearest_le_pow
        _ ≤ 2 ^ (size 2 1 n - 1) := Nat.pow_le_pow_right Nat.two_pos (by omega)
        _ = 2 ^ (p - 1) * 2 ^ (size 2 1 n - p) := by
          rw [← pow_add]
          congr 1
          omega
        _ ≤ cut 2 1 p n := by
          rw [cut_of_lt_size hn]
          exact Nat.mul_le_mul_right _ hle
        _ ≤ nearest p n := cut_le_nearest
  · simp only [nearest, heq]
    apply Nat.mul_le_mul_right
    have hdiv : m / 2 ^ (size 2 1 n - p) ≤ n / 2 ^ (size 2 1 n - p) := Nat.div_le_div_right h
    have hm := Nat.div_add_mod m (2 ^ (size 2 1 n - p))
    have hn := Nat.div_add_mod n (2 ^ (size 2 1 n - p))
    rcases hdiv.lt_or_eq with hlt | hq
    · split_ifs <;> omega
    · rw [hq] at hm ⊢
      split_ifs <;> omega

end Significand
