import Mathlib.Data.Nat.Bitwise

/-!
# Numbers as strings of bits

The bits of a list of numbers, so many of each and the most significant one first, are the numbers
(`words_append_inj`). `Regroup` is a loop that takes them in groups of one size and gives them in
groups of another, with the bits that it has still to give.
-/

namespace BitString

variable {v w a b n m p y : Nat} {L l l' : List Nat}

/-- The last bits of a number, the most significant one first. -/
def word : Nat → Nat → List Bool
  | 0, _ => []
  | w + 1, n => n.testBit w :: word w n

def words (w : Nat) (l : List Nat) : List Bool := l.flatMap (word w)

section word

@[simp] theorem length_word : (word w n).length = w := by
  induction w with
  | zero => rfl
  | succ w ih => simp [word, ih]

theorem word_eq_iff : word w n = word w m ↔ ∀ i < w, n.testBit i = m.testBit i := by
  induction w with
  | zero => simp [word]
  | succ w ih =>
    rw [word, word, List.cons.injEq, ih, Nat.forall_lt_succ_right, and_comm]

@[simp] theorem word_zero : word w 0 = List.replicate w false := by
  induction w with
  | zero => rfl
  | succ w ih => simp [word, ih, List.replicate_succ]

theorem word_inj (hn : n < 2 ^ w) (hm : m < 2 ^ w) (h : word w n = word w m) : n = m := by
  apply Nat.eq_of_testBit_eq
  intro i
  by_cases hi : i < w
  · exact word_eq_iff.mp h i hi
  · have hle : 2 ^ w ≤ 2 ^ i := Nat.pow_le_pow_right (by decide) (Nat.not_lt.mp hi)
    rw [Nat.testBit_lt_two_pow (hn.trans_le hle), Nat.testBit_lt_two_pow (hm.trans_le hle)]

theorem word_mod (w n : Nat) : word w (n % 2 ^ w) = word w n := by
  apply word_eq_iff.mpr
  intro i hi
  simp [Nat.testBit_mod_two_pow, hi]

theorem word_and_mask (w n : Nat) : word w (n &&& (2 ^ w - 1)) = word w n := by
  rw [Nat.and_two_pow_sub_one_eq_mod, word_mod]

/-- The leading bits are those of the number shifted to the right. -/
theorem word_add (a b n : Nat) : word (a + b) n = word a (n >>> b) ++ word b n := by
  induction a with
  | zero => simp [word]
  | succ a ih =>
    rw [Nat.succ_add, word, word, ih, Nat.testBit_shiftRight, Nat.add_comm b a, List.cons_append]

/-- A number with another below it. -/
theorem word_shiftLeft_or (a n : Nat) (hy : y < 2 ^ b) :
    word (a + b) (n <<< b ||| y) = word a n ++ word b y := by
  rw [word_add]
  congr 1
  · rw [Nat.shiftRight_or_distrib, Nat.shiftLeft_shiftRight, Nat.shiftRight_eq_zero _ _ hy,
      Nat.or_zero]
  · apply word_eq_iff.mpr
    intro i hi
    simp [Nat.testBit_shiftLeft, Nat.not_le.mpr hi]

theorem word_shiftLeft (a b n : Nat) :
    word (a + b) (n <<< b) = word a n ++ List.replicate b false := by
  have h := word_shiftLeft_or a n (Nat.two_pow_pos b)
  rwa [Nat.or_zero, word_zero] at h

theorem shiftLeft_or_lt (hn : n < 2 ^ a) (hy : y < 2 ^ b) : n <<< b ||| y < 2 ^ (a + b) := by
  apply Nat.or_lt_two_pow
  · exact Nat.shiftLeft_lt hn
  · exact hy.trans_le (Nat.pow_le_pow_right (by decide) (Nat.le_add_left b a))

end word

section words

@[simp] theorem words_nil : words w [] = [] := rfl

@[simp] theorem words_cons : words w (n :: l) = word w n ++ words w l := List.flatMap_cons ..

@[simp] theorem words_append : words w (l ++ l') = words w l ++ words w l' :=
  List.flatMap_append ..

@[simp] theorem length_words : (words w l).length = w * l.length := by
  induction l with
  | nil => rfl
  | cons n l ih =>
    rw [words_cons, List.length_append, length_word, ih, List.length_cons, Nat.mul_succ,
      Nat.add_comm]

/-- The bits determine the numbers, and what is too short for one more. -/
theorem words_append_inj {s s' : List Bool} (hl : ∀ n ∈ l, n < 2 ^ w) (hl' : ∀ n ∈ l', n < 2 ^ w)
    (hs : s.length < w) (hs' : s'.length < w) (h : words w l ++ s = words w l' ++ s') :
    l = l' ∧ s = s' := by
  induction l generalizing l' with
  | nil =>
    cases l' with
    | nil => exact ⟨rfl, h⟩
    | cons m l' =>
      have hlength := congrArg List.length h
      simp at hlength
      omega
  | cons n l ih =>
    cases l' with
    | nil =>
      have hlength := congrArg List.length h
      simp at hlength
      omega
    | cons m l' =>
      rw [words_cons, words_cons, List.append_assoc, List.append_assoc] at h
      obtain ⟨hword, hrest⟩ := List.append_inj h (by simp)
      obtain ⟨hnm, hss⟩ := ih (fun k hk => hl k (List.mem_cons_of_mem n hk))
        (fun k hk => hl' k (List.mem_cons_of_mem m hk)) hrest
      have hhead := word_inj (hl n List.mem_cons_self) (hl' m List.mem_cons_self) hword
      rw [hhead, hnm]
      exact ⟨rfl, hss⟩

theorem words_inj (hw : 0 < w) (hl : ∀ n ∈ l, n < 2 ^ w) (hl' : ∀ n ∈ l', n < 2 ^ w)
    (h : words w l = words w l') : l = l' := by
  have hnil : ([] : List Bool).length < w := hw
  rw [← List.append_nil (words w l), ← List.append_nil (words w l')] at h
  exact (words_append_inj hl hl' hnil hnil h).1

theorem toNat_lt_of_mem_map (b : List UInt8) : ∀ n ∈ b.map UInt8.toNat, n < 2 ^ 8 := by
  intro n hn
  obtain ⟨c, -, rfl⟩ := List.mem_map.mp hn
  exact c.toNat_lt

theorem map_toNat_inj {b b' : List UInt8} : b.map UInt8.toNat = b'.map UInt8.toNat ↔ b = b' :=
  List.map_inj_right fun _ _ => UInt8.toNat_inj.mp

end words

/-- The numbers `L` of `v` bits were taken, the numbers `l` of `w` bits were given, and `a` bits are
left, which are those of `p`. -/
structure Regroup (v w : Nat) (L l : List Nat) (a p : Nat) : Prop where
  lt : ∀ x ∈ l, x < 2 ^ w
  lt_left : p < 2 ^ a
  bits : words v L = words w l ++ word a p

namespace Regroup

theorem start (v w : Nat) : Regroup v w [] [] 0 0 where
  lt := by simp
  lt_left := by decide
  bits := rfl

/-- What is left and the first bits of the next number are given. -/
theorem give (h : Regroup v w L l a p) (hn : n < 2 ^ v) (haw : a ≤ w) (hwv : w ≤ a + v) :
    Regroup v w (L ++ [n]) (l ++ [p <<< (w - a) ||| n >>> (a + v - w)]) (a + v - w)
      (n &&& (2 ^ (a + v - w) - 1)) := by
  obtain ⟨k, rfl⟩ := Nat.exists_eq_add_of_le haw
  obtain ⟨r, hr⟩ := Nat.exists_eq_add_of_le hwv
  have hv : v = k + r := by omega
  have hk : a + k - a = k := by omega
  have hrest : a + v - (a + k) = r := by omega
  rw [hk, hrest]
  have hfirst : n >>> r < 2 ^ k := by
    rw [Nat.shiftRight_eq_div_pow, Nat.div_lt_iff_lt_mul (Nat.two_pow_pos r), ← Nat.pow_add, ← hv]
    exact hn
  constructor
  · intro x hx
    rcases List.mem_append.mp hx with hx | hx
    · exact h.lt x hx
    · rw [List.mem_singleton.mp hx]
      exact shiftLeft_or_lt h.lt_left hfirst
  · rw [Nat.and_two_pow_sub_one_eq_mod]
    exact Nat.mod_lt n (Nat.two_pow_pos r)
  · have hword : word v n = word k (n >>> r) ++ word r n := by rw [hv, word_add]
    simp only [words_append, words_cons, words_nil, List.append_nil, h.bits, hword,
      word_shiftLeft_or a p hfirst, word_and_mask, List.append_assoc]

/-- The next number is kept behind what is left. -/
theorem accumulate (h : Regroup v w L l a p) (hn : n < 2 ^ v) :
    Regroup v w (L ++ [n]) l (a + v) (p <<< v ||| n) where
  lt := h.lt
  lt_left := shiftLeft_or_lt h.lt_left hn
  bits := by simp [h.bits, word_shiftLeft_or a p hn]

/-- More than enough bits are left, and the first of them are given. -/
theorem spill (h : Regroup v w L l a p) (hwa : w ≤ a) :
    Regroup v w L (l ++ [p >>> (a - w)]) (a - w) (p &&& (2 ^ (a - w) - 1)) := by
  obtain ⟨b, rfl⟩ := Nat.exists_eq_add_of_le hwa
  rw [Nat.add_sub_cancel_left]
  constructor
  · intro x hx
    rcases List.mem_append.mp hx with hx | hx
    · exact h.lt x hx
    · rw [List.mem_singleton.mp hx, Nat.shiftRight_eq_div_pow,
        Nat.div_lt_iff_lt_mul (Nat.two_pow_pos b), ← Nat.pow_add]
      exact h.lt_left
  · rw [Nat.and_two_pow_sub_one_eq_mod]
    exact Nat.mod_lt p (Nat.two_pow_pos b)
  · simp only [h.bits, word_add, words_append, words_cons, words_nil, List.append_nil,
      word_and_mask, List.append_assoc]

/-- The same, of a number whose last bits are left. -/
theorem spill_mask (h : Regroup v w L l (a + w) (n &&& (2 ^ (a + w) - 1))) :
    Regroup v w L (l ++ [n >>> a &&& (2 ^ w - 1)]) a (n &&& (2 ^ a - 1)) := by
  have hspill := h.spill (Nat.le_add_left w a)
  have hfirst : (n &&& (2 ^ (a + w) - 1)) >>> a = n >>> a &&& (2 ^ w - 1) := by
    apply Nat.eq_of_testBit_eq
    intro i
    simp [Nat.testBit_shiftRight, Nat.add_comm a]
  have hlast : n &&& (2 ^ (a + w) - 1) &&& (2 ^ a - 1) = n &&& (2 ^ a - 1) := by
    simp only [Nat.and_two_pow_sub_one_eq_mod]
    exact Nat.mod_mod_of_dvd n (Nat.pow_dvd_pow 2 (Nat.le_add_right a w))
  rwa [Nat.add_sub_cancel, hfirst, hlast] at hspill

/-- The next number is too short to be given. -/
theorem keep (h : Regroup v w L l 0 p) (hn : n < 2 ^ v) : Regroup v w (L ++ [n]) l v n := by
  have hkeep := h.accumulate hn
  have hzero : p = 0 := Nat.lt_one_iff.mp h.lt_left
  rwa [hzero, Nat.zero_shiftLeft, Nat.zero_or, Nat.zero_add] at hkeep

/-- Enough bits are left. -/
theorem flush (h : Regroup v w L l w p) : Regroup v w L (l ++ [p]) 0 0 := by
  have hflush := h.spill (Nat.le_refl w)
  rwa [Nat.sub_self, Nat.pow_zero, Nat.sub_self, Nat.and_zero, Nat.shiftRight_zero] at hflush

theorem lt_pad (h : Regroup v w L l a p) (haw : a ≤ w) :
    ∀ x ∈ l ++ [p <<< (w - a)], x < 2 ^ w := by
  intro x hx
  rcases List.mem_append.mp hx with hx | hx
  · exact h.lt x hx
  · rw [List.mem_singleton.mp hx, ← Nat.add_sub_cancel' haw, Nat.add_sub_cancel_left]
    exact Nat.shiftLeft_lt h.lt_left

/-- At the end, what is left is given with zeros behind it. -/
theorem words_pad (h : Regroup v w L l a p) (haw : a ≤ w) :
    words w (l ++ [p <<< (w - a)]) = words v L ++ List.replicate (w - a) false := by
  obtain ⟨k, rfl⟩ := Nat.exists_eq_add_of_le haw
  have hk : a + k - a = k := by omega
  rw [hk, h.bits, words_append, words_cons, words_nil, List.append_nil, word_shiftLeft,
    List.append_assoc]

/-- The numbers that were given are the only ones, and so are zeros that are left. -/
theorem eq_of_words {z : Nat} (h : Regroup v w L l a p) (ha : a < w) (hl' : ∀ x ∈ l', x < 2 ^ w)
    (hz : z < w) (hwords : words v L = words w l' ++ List.replicate z false) :
    l = l' ∧ a = z ∧ p = 0 := by
  obtain ⟨hll', hleft⟩ := words_append_inj h.lt hl' (by simpa) (by simpa)
    (h.bits.symm.trans hwords)
  have haz : a = z := by
    have := congrArg List.length hleft
    simpa using this
  refine ⟨hll', haz, ?_⟩
  rw [← haz, ← word_zero] at hleft
  exact word_inj h.lt_left (Nat.two_pow_pos a) hleft

end Regroup

end BitString
