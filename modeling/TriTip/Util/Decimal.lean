import TriTip.Base58.EncodeBase58
import TriTip.Lib.Radix

/-!
# Decimal numerals

The digits of `isdigit`, the number that they stand for, what `%d` prints and what `strtol` reads.
A string that `strtol` takes to its end is a `Numeral`: blanks and a sign may be before the digits.
-/

namespace TriTip

def isdigit (c : UInt8) : Bool := '0'.toUInt8 ≤ c ∧ c ≤ '9'.toUInt8

/-- The number that digits stand for. -/
def decimalValue (s : List UInt8) : Nat := Radix.value 10 (s.map fun c => c.toNat - 48)

/-- What `strprintf` makes of a number in a base. -/
def printed (b n : Nat) : List UInt8 := (Nat.toDigits b n).map Char.toUInt8

variable {c : UInt8} {s t : List UInt8} {n k : Nat}

theorem isdigit_iff : isdigit c = true ↔ 48 ≤ c.toNat ∧ c.toNat ≤ 57 := by
  rw [isdigit, decide_eq_true_iff, UInt8.le_iff_toNat_le, UInt8.le_iff_toNat_le]
  rfl

@[simp] theorem decimalValue_nil : decimalValue [] = 0 := rfl

theorem decimalValue_append (s t : List UInt8) :
    decimalValue (s ++ t) = decimalValue s * 10 ^ t.length + decimalValue t := by
  rw [decimalValue, List.map_append, Radix.value_append, List.length_map]
  rfl

theorem decimalValue_singleton (c : UInt8) : decimalValue [c] = c.toNat - 48 := by
  rw [decimalValue, List.map_singleton, ← List.nil_append [c.toNat - 48],
    Radix.value_append_singleton, Radix.value_nil, Nat.zero_mul, Nat.zero_add]

theorem decimalValue_cons (c : UInt8) (s : List UInt8) :
    decimalValue (c :: s) = (c.toNat - 48) * 10 ^ s.length + decimalValue s := by
  rw [← List.singleton_append, decimalValue_append, decimalValue_singleton]

theorem decimalValue_lt (h : ∀ c ∈ s, isdigit c = true) :
    decimalValue s < 10 ^ s.length := by
  have hlt : decimalValue s < 10 ^ (s.map fun c => c.toNat - 48).length := by
    apply Radix.value_lt (by decide)
    intro d hd
    obtain ⟨c, hc, rfl⟩ := List.mem_map.mp hd
    have := isdigit_iff.mp (h c hc)
    omega
  rwa [List.length_map] at hlt

theorem decimalValue_replicate (k : Nat) (s : List UInt8) :
    decimalValue (List.replicate k '0'.toUInt8 ++ s) = decimalValue s := by
  rw [decimalValue, List.map_append, List.map_replicate]
  exact Radix.value_replicate_append k

theorem toNat_digitChar : ∀ d < 10, (Nat.digitChar d).toUInt8.toNat = 48 + d := by
  decide

theorem printed_ten (n : Nat) :
    printed 10 n =
      (if n < 10 then [] else printed 10 (n / 10)) ++ [(Nat.digitChar (n % 10)).toUInt8] := by
  rw [printed, Nat.toDigits_eq_if (by decide)]
  split
  · next h => rw [Nat.mod_eq_of_lt h, List.map_singleton, List.nil_append]
  · rw [List.map_append, List.map_singleton, printed]

theorem isdigit_printed (n : Nat) : ∀ c ∈ printed 10 n, isdigit c = true := by
  induction n using Nat.strong_induction_on with
  | _ n ih =>
    intro c hc
    rw [printed_ten, List.mem_append, List.mem_singleton] at hc
    rcases hc with hc | rfl
    · split at hc
      · cases hc
      · exact ih (n / 10) (by omega) c hc
    · rw [isdigit_iff, toNat_digitChar _ (Nat.mod_lt n (by decide))]
      omega

theorem decimalValue_printed (n : Nat) : decimalValue (printed 10 n) = n := by
  induction n using Nat.strong_induction_on with
  | _ n ih =>
    rw [printed_ten, decimalValue_append, decimalValue_singleton,
      toNat_digitChar _ (Nat.mod_lt n (by decide)), List.length_singleton]
    split
    · rw [decimalValue_nil]
      omega
    · rw [ih (n / 10) (by omega)]
      omega

theorem length_printed_le (hk : 0 < k) (hn : n < 10 ^ k) : (printed 10 n).length ≤ k := by
  rw [printed, List.length_map]
  exact (Nat.length_toDigits_le_iff (by decide) hk).mpr hn

theorem not_isdigit_of_isspace (h : isspace c = true) : ¬ isdigit c = true := by
  intro hd
  rw [isdigit_iff] at hd
  rw [isspace, decide_eq_true_iff, UInt8.le_iff_toNat_le, UInt8.le_iff_toNat_le,
    ← UInt8.toNat_inj] at h
  have h9 : (9 : UInt8).toNat = 9 := rfl
  have h13 : (13 : UInt8).toNat = 13 := rfl
  have h32 : (32 : UInt8).toNat = 32 := rfl
  omega

/-! ## `strtol` -/

/-- Whether there is a minus sign, and what is behind a sign. -/
def takeSign : List UInt8 → Bool × List UInt8
  | [] => (false, [])
  | c :: s =>
    if c = '-'.toUInt8 then (true, s)
    else if c = '+'.toUInt8 then (false, s)
    else (false, c :: s)

/-- The nearest number that a `long` has room for. -/
def saturate (n : Int) : Int := max (-2 ^ 63) (min n (2 ^ 63 - 1))

/-- The number in base 10 and what is behind it, all of the string if there are no digits. -/
def strtol (nptr : List UInt8) : Int × List UInt8 :=
  let (neg, s) := takeSign (nptr.dropWhile isspace)
  let digits := s.takeWhile isdigit
  if digits = [] then (0, nptr)
  else
    let n : Int := decimalValue digits
    (saturate (if neg then -n else n), s.dropWhile isdigit)

/-- The string is at its end. -/
def AtEnd (s : List UInt8) : Prop := s.headD 0 = 0

instance (s : List UInt8) : Decidable (AtEnd s) := inferInstanceAs (Decidable (_ = _))

/-- Blanks, a sign or none, digits, and the end. -/
def Numeral (s : List UInt8) (n : Int) : Prop :=
  ∃ blanks sign digits rest, s = blanks ++ (sign ++ (digits ++ rest)) ∧
    (∀ c ∈ blanks, isspace c = true) ∧ digits ≠ [] ∧ (∀ c ∈ digits, isdigit c = true) ∧
    AtEnd rest ∧
    (sign = ['-'.toUInt8] ∧ n = -decimalValue digits ∨
      (sign = [] ∨ sign = ['+'.toUInt8]) ∧ n = decimalValue digits)

section strtol

variable {digits rest : List UInt8} {m : Int}

theorem takeWhile_digits (hdigits : ∀ c ∈ digits, isdigit c = true) (hrest : AtEnd rest) :
    (digits ++ rest).takeWhile isdigit = digits ∧ (digits ++ rest).dropWhile isdigit = rest := by
  rw [List.takeWhile_append_of_pos hdigits, List.dropWhile_append_of_pos hdigits]
  cases rest with
  | nil => simp
  | cons c rest =>
    obtain rfl : c = 0 := hrest
    have hzero : ¬ isdigit 0 = true := by decide
    rw [List.takeWhile_cons_of_neg hzero, List.dropWhile_cons_of_neg hzero, List.append_nil]
    exact ⟨rfl, rfl⟩

theorem takeSign_digits (hne : digits ≠ []) (hdigits : ∀ c ∈ digits, isdigit c = true) :
    takeSign (digits ++ rest) = (false, digits ++ rest) := by
  cases digits with
  | nil => exact absurd rfl hne
  | cons c digits =>
    have hc : isdigit c = true := hdigits c List.mem_cons_self
    have hminus : c ≠ '-'.toUInt8 := by
      rintro rfl
      exact absurd hc (by decide)
    have hplus : c ≠ '+'.toUInt8 := by
      rintro rfl
      exact absurd hc (by decide)
    rw [List.cons_append, takeSign, if_neg hminus, if_neg hplus]

theorem strtol_append {blanks t : List UInt8} {neg : Bool}
    (hblanks : ∀ c ∈ blanks, isspace c = true) (ht : t.dropWhile isspace = t)
    (hsign : takeSign t = (neg, digits ++ rest)) (hne : digits ≠ [])
    (hdigits : ∀ c ∈ digits, isdigit c = true) (hrest : AtEnd rest) :
    strtol (blanks ++ t) =
      (saturate (if neg then -decimalValue digits else decimalValue digits), rest) := by
  obtain ⟨htake, hdrop⟩ := takeWhile_digits hdigits hrest
  rw [strtol, List.dropWhile_append_of_pos hblanks, ht, hsign]
  simp only [htake, hdrop, if_neg hne]

/-- A numeral is read to its end. -/
theorem Numeral.strtol_eq (h : Numeral s m) :
    ∃ rest, strtol s = (saturate m, rest) ∧ AtEnd rest := by
  obtain ⟨blanks, sign, digits, rest, rfl, hblanks, hne, hdigits, hrest, hsign⟩ := h
  refine ⟨rest, ?_, hrest⟩
  rcases hsign with ⟨rfl, rfl⟩ | ⟨rfl | rfl, rfl⟩
  · have hsign : takeSign ('-'.toUInt8 :: (digits ++ rest)) = (true, digits ++ rest) := rfl
    rw [List.singleton_append, strtol_append hblanks rfl hsign hne hdigits hrest, if_pos rfl]
  · have hblank : (digits ++ rest).dropWhile isspace = digits ++ rest := by
      cases digits with
      | nil => exact absurd rfl hne
      | cons c digits =>
        have hc : ¬ isspace c = true := fun h =>
          not_isdigit_of_isspace h (hdigits c List.mem_cons_self)
        exact List.dropWhile_cons_of_neg hc
    rw [List.nil_append, strtol_append hblanks hblank (takeSign_digits hne hdigits) hne hdigits
      hrest, if_neg Bool.false_ne_true]
  · have hsign : takeSign ('+'.toUInt8 :: (digits ++ rest)) = (false, digits ++ rest) := rfl
    rw [List.singleton_append, strtol_append hblanks rfl hsign hne hdigits hrest,
      if_neg Bool.false_ne_true]

theorem takeSign_spec (s : List UInt8) :
    ∃ sign, s = sign ++ (takeSign s).2 ∧
      (sign = ['-'.toUInt8] ∧ (takeSign s).1 = true ∨
        (sign = [] ∨ sign = ['+'.toUInt8]) ∧ (takeSign s).1 = false) := by
  cases s with
  | nil => exact ⟨[], rfl, Or.inr ⟨Or.inl rfl, rfl⟩⟩
  | cons c s =>
    by_cases hminus : c = '-'.toUInt8
    · rw [takeSign, if_pos hminus, hminus]
      exact ⟨_, rfl, Or.inl ⟨rfl, rfl⟩⟩
    · rw [takeSign, if_neg hminus]
      by_cases hplus : c = '+'.toUInt8
      · rw [if_pos hplus, hplus]
        exact ⟨_, rfl, Or.inr ⟨Or.inr rfl, rfl⟩⟩
      · rw [if_neg hplus]
        exact ⟨[], rfl, Or.inr ⟨Or.inl rfl, rfl⟩⟩

/-- What is read to its end for a number other than zero is a numeral. -/
theorem numeral_of_strtol (hrest : AtEnd (strtol s).2) (h0 : (strtol s).1 ≠ 0) :
    ∃ m, Numeral s m ∧ (strtol s).1 = saturate m := by
  obtain ⟨sign, hsplit, hsign⟩ := takeSign_spec (s.dropWhile isspace)
  have hs := List.takeWhile_append_dropWhile (p := isspace) (l := s)
  unfold strtol at hrest h0 ⊢
  generalize takeSign (s.dropWhile isspace) = r at *
  obtain ⟨neg, t⟩ := r
  simp only at hrest h0 hsplit hsign ⊢
  by_cases hne : t.takeWhile isdigit = []
  · rw [if_pos hne] at h0
    exact absurd rfl h0
  · rw [if_neg hne] at hrest ⊢
    refine ⟨_, ⟨s.takeWhile isspace, sign, t.takeWhile isdigit, t.dropWhile isdigit, ?_,
      fun c => List.mem_takeWhile_imp, hne, fun c => List.mem_takeWhile_imp, hrest, ?_⟩, rfl⟩
    · rw [List.takeWhile_append_dropWhile, ← hsplit, hs]
    · rcases hsign with ⟨hsign, rfl⟩ | ⟨hsign, rfl⟩
      · exact Or.inl ⟨hsign, rfl⟩
      · exact Or.inr ⟨hsign, rfl⟩

/-- A numeral of digits only has their value. -/
theorem Numeral.eq_decimalValue (h : Numeral s m) (hs : ∀ c ∈ s, isdigit c = true) :
    m = decimalValue s := by
  obtain ⟨blanks, sign, digits, rest, rfl, hblanks, hne, hdigits, hrest, hsign⟩ := h
  have hmem : ∀ c, c ∈ blanks ∨ c ∈ sign ∨ c ∈ digits ∨ c ∈ rest → isdigit c = true := by
    intro c hc
    apply hs
    simpa [or_assoc] using hc
  obtain rfl : blanks = [] := by
    apply List.eq_nil_iff_forall_not_mem.mpr
    intro c hc
    exact not_isdigit_of_isspace (hblanks c hc) (hmem c (Or.inl hc))
  obtain rfl : rest = [] := by
    cases rest with
    | nil => rfl
    | cons c rest =>
      obtain rfl : c = 0 := hrest
      exact absurd (hmem 0 (by simp)) (by decide)
  rcases hsign with ⟨rfl, -⟩ | ⟨rfl | rfl, hm⟩
  · exact absurd (hmem '-'.toUInt8 (by simp)) (by decide)
  · simpa using hm
  · exact absurd (hmem '+'.toUInt8 (by simp)) (by decide)

theorem Numeral.ne_nil (h : Numeral s m) : s ≠ [] := by
  obtain ⟨blanks, sign, digits, rest, rfl, -, hne, -⟩ := h
  intro hnil
  simp only [List.append_eq_nil_iff] at hnil
  exact hne hnil.2.2.1

end strtol

end TriTip
