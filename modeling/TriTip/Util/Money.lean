import TriTip.Base58.EncodeBase58
import TriTip.Block.CheckTransaction
import TriTip.Lib.ExactInt64
import TriTip.Util.Decimal

/-!
# Amounts as text

`ParseMoney` and `FormatMoney` of `util.cpp`. Where an operation on `int64` overflows there is no
result (`int64`), and none does: what is read is the amount of the text (`ParseMoney_iff`), and an
amount that is printed is read back (`ParseMoney_FormatMoney`).
-/

namespace TriTip

open ExactInt64

/-- The result of an operation on `int64`. -/
def int64 (n : Int) : Option Int := if Fits n then some n else none

/-- What `util.h` has for amounts. -/
structure MoneyUtil where
  CENT : Int
  atoi64 : List UInt8 → Int

/-- A hundredth of a coin, and the number of a decimal numeral that fits. -/
structure MoneyUtil.Documented (U : MoneyUtil) : Prop where
  CENT_eq : U.CENT = 1000000
  atoi64_eq : ∀ s, (∀ c ∈ s, isdigit c = true) → (decimalValue s : Int) < 2 ^ 63 →
    U.atoi64 s = decimalValue s

namespace ParseMoney

/-- The digits behind the point, as long as the multiplier is not zero. -/
def fraction (nUnits nMult : Int) : List UInt8 → Option (Int × List UInt8)
  | [] => some (nUnits, [])
  | c :: p =>
    if isdigit c ∧ nMult > 0 then
      (int64 (nMult * (c.toNat - 48))).bind fun n =>
        (int64 (nUnits + n)).bind fun nUnits => fraction nUnits (nMult / 10) p
    else some (nUnits, c :: p)

/-- The loop over the whole digits, up to a point with its digits or to a blank; `none` inside
where it returns false. -/
def scan (U : MoneyUtil) (strWhole : List UInt8) :
    List UInt8 → Option (Option (List UInt8 × Int × List UInt8))
  | [] => some (some (strWhole, 0, []))
  | c :: p =>
    if c = '.'.toUInt8 then
      (int64 (U.CENT * 10)).bind fun nMult =>
        (fraction 0 nMult p).map fun r => some (strWhole, r.1, r.2)
    else if isspace c then some (some (strWhole, 0, c :: p))
    else if isdigit c then scan U (strWhole ++ [c]) p
    else some none

/-- The tests behind the loop. -/
def finish (U : MoneyUtil) (nRet : Int) (strWhole : List UInt8) (nUnits : Int) (p : List UInt8) :
    Option (Bool × Int) :=
  if ¬ p.all isspace then some (false, nRet)
  else if strWhole.length > 10 then some (false, nRet)
  else if nUnits < 0 ∨ nUnits > COIN.toInt then some (false, nRet)
  else
    let nWhole := U.atoi64 strWhole
    (int64 (nWhole * COIN.toInt)).bind fun n =>
      (int64 (n + nUnits)).map fun nValue => (true, nValue)

end ParseMoney

/-- What is returned, and `nRet` behind the call. -/
def ParseMoney (U : MoneyUtil) (pszIn : List UInt8) (nRet : Int) : Option (Bool × Int) :=
  (ParseMoney.scan U [] (pszIn.dropWhile isspace)).bind fun scanned =>
    match scanned with
    | none => some (false, nRet)
    | some (strWhole, nUnits, p) => ParseMoney.finish U nRet strWhole nUnits p

/-- Blanks around at most ten digits, with a point and at most eight more digits or without. -/
structure MoneyText (s whole frac : List UInt8) : Prop where
  isdigit_whole : ∀ c ∈ whole, isdigit c = true
  isdigit_frac : ∀ c ∈ frac, isdigit c = true
  length_whole : whole.length ≤ 10
  length_frac : frac.length ≤ 8
  text : ∃ before point behind, s = before ++ (whole ++ (point ++ behind)) ∧
    (∀ c ∈ before, isspace c = true) ∧ (∀ c ∈ behind, isspace c = true) ∧
    (point = [] ∧ frac = [] ∨ point = '.'.toUInt8 :: frac)

/-- A fraction in hundred millionths. -/
def fracValue (frac : List UInt8) : Int := decimalValue frac * 10 ^ (8 - frac.length)

def moneyValue (whole frac : List UInt8) : Int := decimalValue whole * 10 ^ 8 + fracValue frac

theorem int64_eq {n : Int} (h : Fits n) : int64 n = some n := if_pos h

theorem COIN_toInt : COIN.toInt = 10 ^ 8 := rfl

namespace ParseMoney

variable {U : MoneyUtil} {p whole frac : List UInt8} {nUnits nRet : Int} {k : Nat}

/-- The multiplier counts the digits that there is room for, and nothing overflows. -/
theorem fraction_eq (h0 : 0 ≤ nUnits) (hk : nUnits + 10 ^ k ≤ 10 ^ 8) :
    fraction nUnits (10 ^ k / 10) p =
      some (nUnits + decimalValue ((p.takeWhile isdigit).take k) *
          10 ^ (k - ((p.takeWhile isdigit).take k).length),
        p.drop ((p.takeWhile isdigit).take k).length) := by
  induction p generalizing nUnits k with
  | nil => simp [fraction]
  | cons c p ih =>
    by_cases hc : isdigit c = true
    · cases k with
      | zero => simp [fraction]
      | succ k =>
        have hdigit := isdigit_iff.mp hc
        have hmult : (10 : Int) ^ (k + 1) / 10 = 10 ^ k := by
          rw [pow_succ, Int.mul_ediv_cancel _ (by decide)]
        have hpos : (0 : Int) < 10 ^ k := by positivity
        have hstep : nUnits + 10 ^ k * (c.toNat - 48) + 10 ^ k ≤ 10 ^ 8 := by
          rw [pow_succ] at hk
          nlinarith
        have hprod : (0 : Int) ≤ 10 ^ k * (c.toNat - 48) := by
          apply mul_nonneg hpos.le
          omega
        have hlength : ((p.takeWhile isdigit).take k).length ≤ k := by simp
        have hpow := pow_mul_pow_sub (10 : Int) hlength
        have hcast : ((c.toNat - 48 : ℕ) : Int) = c.toNat - 48 := by omega
        rw [fraction, hmult, if_pos ⟨hc, hpos⟩, int64_eq ⟨by omega, by omega⟩, Option.bind_some,
          int64_eq ⟨by omega, by omega⟩, Option.bind_some, ih (by omega) hstep,
          List.takeWhile_cons_of_pos hc, List.take_succ_cons, List.length_cons,
          Nat.add_sub_add_right, List.drop_succ_cons, decimalValue_cons]
        generalize (p.takeWhile isdigit).take k = f at *
        congr 2
        push_cast
        rw [hcast]
        linear_combination -((c.toNat : Int) - 48) * hpow
    · simp [fraction, hc]

/-- The digits behind the point that there is room for. -/
def decimals (p : List UInt8) : List UInt8 := (p.takeWhile isdigit).take 8

theorem isdigit_decimals : ∀ c ∈ decimals p, isdigit c = true := fun _ hc =>
  List.mem_takeWhile_imp (List.mem_of_mem_take hc)

theorem length_decimals_le : (decimals p).length ≤ 8 := List.length_take_le ..

theorem decimals_append_drop : decimals p ++ p.drop (decimals p).length = p := by
  have hprefix : decimals p <+: p := (List.take_prefix ..).trans (List.takeWhile_prefix ..)
  conv_lhs => rw [List.prefix_iff_eq_take.mp hprefix]
  rw [List.length_take, Nat.min_eq_left hprefix.length_le, List.take_append_drop]

theorem fraction_point (p : List UInt8) :
    fraction 0 (10 ^ 7) p = some (fracValue (decimals p), p.drop (decimals p).length) := by
  have h := fraction_eq (p := p) (k := 8) (le_refl 0) (by decide)
  rw [Int.zero_add] at h
  exact h

theorem scan_digits (hwhole : ∀ c ∈ whole, isdigit c = true) (strWhole : List UInt8) :
    scan U strWhole (whole ++ p) = scan U (strWhole ++ whole) p := by
  induction whole generalizing strWhole with
  | nil => simp
  | cons c whole ih =>
    have hc : isdigit c = true := hwhole c List.mem_cons_self
    have hpoint : c ≠ '.'.toUInt8 := by
      rintro rfl
      exact absurd hc (by decide)
    have hspace : ¬ isspace c = true := fun h => not_isdigit_of_isspace h hc
    rw [List.cons_append, scan, if_neg hpoint, if_neg hspace, if_pos hc,
      ih (fun c hc => hwhole c (List.mem_cons_of_mem _ hc)), List.append_assoc,
      List.singleton_append]

theorem scan_blank {c : UInt8} (hc : isspace c = true) (strWhole p : List UInt8) :
    scan U strWhole (c :: p) = some (some (strWhole, 0, c :: p)) := by
  have hpoint : c ≠ '.'.toUInt8 := by
    rintro rfl
    exact absurd hc (by decide)
  rw [scan, if_neg hpoint, if_pos hc]

section

variable (hU : U.Documented)
include hU

theorem scan_point (strWhole p : List UInt8) :
    scan U strWhole ('.'.toUInt8 :: p) =
      some (some (strWhole, fracValue (decimals p), p.drop (decimals p).length)) := by
  rw [scan, if_pos rfl, hU.CENT_eq, int64_eq (by decide), Option.bind_some]
  exact congrArg (Option.map _) (fraction_point p)

/-- The digits that were read, and what is behind them. -/
theorem scan_cases (p : List UInt8) :
    scan U [] p = some none ∨
      ∃ whole frac point rest, p = whole ++ (point ++ rest) ∧
        (∀ c ∈ whole, isdigit c = true) ∧ (∀ c ∈ frac, isdigit c = true) ∧ frac.length ≤ 8 ∧
        (point = [] ∧ frac = [] ∨ point = '.'.toUInt8 :: frac) ∧
        scan U [] p = some (some (whole, fracValue frac, rest)) := by
  have hdigits : ∀ c ∈ p.takeWhile isdigit, isdigit c = true := fun c => List.mem_takeWhile_imp
  have hsplit := List.takeWhile_append_dropWhile (p := isdigit) (l := p)
  have hscan := scan_digits (U := U) (p := p.dropWhile isdigit) hdigits []
  rw [hsplit, List.nil_append] at hscan
  have hhead := List.dropWhile_get_zero_not isdigit p
  rw [hscan]
  generalize p.takeWhile isdigit = whole at *
  generalize p.dropWhile isdigit = r at *
  subst hsplit
  cases r with
  | nil => exact Or.inr ⟨whole, [], [], [], rfl, hdigits, by simp, by simp, by simp, rfl⟩
  | cons c r =>
    by_cases hpoint : c = '.'.toUInt8
    · subst hpoint
      refine Or.inr ⟨whole, decimals r, _, _, ?_, hdigits, isdigit_decimals, length_decimals_le,
        Or.inr rfl, scan_point hU whole r⟩
      rw [List.cons_append, decimals_append_drop]
    · by_cases hspace : isspace c = true
      · exact Or.inr ⟨whole, [], [], c :: r, rfl, hdigits, by simp, by simp, by simp,
          scan_blank hspace whole r⟩
      · have hc : ¬ isdigit c = true := hhead (Nat.succ_pos _)
        exact Or.inl (by rw [scan, if_neg hpoint, if_neg hspace, if_neg hc])

/-- What is scanned where blanks are behind the digits. -/
theorem scan_text {point behind : List UInt8} (hwhole : ∀ c ∈ whole, isdigit c = true)
    (hfrac : ∀ c ∈ frac, isdigit c = true) (hlength : frac.length ≤ 8)
    (hpoint : point = [] ∧ frac = [] ∨ point = '.'.toUInt8 :: frac)
    (hbehind : ∀ c ∈ behind, isspace c = true) :
    scan U [] (whole ++ (point ++ behind)) = some (some (whole, fracValue frac, behind)) := by
  rw [scan_digits hwhole, List.nil_append]
  rcases hpoint with ⟨rfl, rfl⟩ | rfl
  · cases behind with
    | nil => rfl
    | cons c behind => exact scan_blank (hbehind c List.mem_cons_self) whole behind
  · have htake : (frac ++ behind).takeWhile isdigit = frac := by
      rw [List.takeWhile_append_of_pos hfrac]
      cases behind with
      | nil => simp
      | cons c behind =>
        have hc := not_isdigit_of_isspace (hbehind c List.mem_cons_self)
        rw [List.takeWhile_cons_of_neg hc, List.append_nil]
    have hdecimals : decimals (frac ++ behind) = frac := by
      rw [decimals, htake, List.take_of_length_le hlength]
    rw [List.cons_append, scan_point hU, hdecimals, List.drop_left]

end

theorem fracValue_nonneg (frac : List UInt8) : 0 ≤ fracValue frac := by
  unfold fracValue
  positivity

theorem fracValue_lt (hfrac : ∀ c ∈ frac, isdigit c = true) (hlength : frac.length ≤ 8) :
    fracValue frac < 10 ^ 8 := by
  have hlt : (decimalValue frac : Int) < 10 ^ frac.length := by
    exact_mod_cast decimalValue_lt hfrac
  calc
    fracValue frac < 10 ^ frac.length * 10 ^ (8 - frac.length) :=
      mul_lt_mul_of_pos_right hlt (by positivity)
    _ = 10 ^ 8 := pow_mul_pow_sub 10 hlength

/-- The tests behind the scan, of which the one of the fraction always passes. -/
theorem finish_eq (hU : U.Documented) {behind : List UInt8}
    (hwhole : ∀ c ∈ whole, isdigit c = true) (hfrac : ∀ c ∈ frac, isdigit c = true)
    (hlength : frac.length ≤ 8) (nRet : Int) :
    finish U nRet whole (fracValue frac) behind =
      if (∀ c ∈ behind, isspace c = true) ∧ whole.length ≤ 10 then
        some (true, moneyValue whole frac)
      else some (false, nRet) := by
  have h0 := fracValue_nonneg frac
  have h8 := fracValue_lt hfrac hlength
  by_cases hbehind : ∀ c ∈ behind, isspace c = true
  · have hall : behind.all isspace = true := List.all_eq_true.mpr hbehind
    by_cases hten : whole.length ≤ 10
    · have hvalue : (decimalValue whole : Int) < 10 ^ 10 := by
        exact_mod_cast (decimalValue_lt hwhole).trans_le (Nat.pow_le_pow_right (by decide) hten)
      have hatoi := hU.atoi64_eq whole hwhole (hvalue.trans (by decide))
      rw [finish, if_neg (not_not.mpr hall), if_neg (Nat.not_lt.mpr hten), COIN_toInt,
        if_neg (by omega), if_pos ⟨hbehind, hten⟩]
      simp only [hatoi]
      rw [int64_eq ⟨by omega, by omega⟩, Option.bind_some, int64_eq ⟨by omega, by omega⟩]
      rfl
    · rw [finish, if_neg (not_not.mpr hall), if_pos (Nat.lt_of_not_le hten),
        if_neg (fun h => hten h.2)]
  · have hall : ¬ behind.all isspace = true := fun h => hbehind (List.all_eq_true.mp h)
    rw [finish, if_pos hall, if_neg (fun h => hbehind h.1)]

end ParseMoney

section ParseMoney

open ParseMoney

variable {U : MoneyUtil} {s whole frac : List UInt8}

/-- The blanks that are skipped are those before the digits. -/
theorem MoneyText.dropWhile (h : MoneyText s whole frac) :
    ∃ point behind, s.dropWhile isspace = whole ++ (point ++ behind) ∧
      (∀ c ∈ behind, isspace c = true) ∧
      (point = [] ∧ frac = [] ∨ point = '.'.toUInt8 :: frac) := by
  obtain ⟨before, point, behind, rfl, hbefore, hbehind, hpoint⟩ := h.text
  rw [List.dropWhile_append_of_pos hbefore]
  cases whole with
  | cons c whole =>
    have hc : ¬ isspace c = true := fun hc =>
      not_isdigit_of_isspace hc (h.isdigit_whole c List.mem_cons_self)
    exact ⟨point, behind, List.dropWhile_cons_of_neg hc, hbehind, hpoint⟩
  | nil =>
    rcases hpoint with ⟨rfl, rfl⟩ | rfl
    · exact ⟨[], [], List.dropWhile_eq_nil_iff.mpr hbehind, by simp, Or.inl ⟨rfl, rfl⟩⟩
    · exact ⟨_, behind, List.dropWhile_cons_of_neg (by decide), hbehind, Or.inr rfl⟩

theorem ParseMoney_of_text (hU : U.Documented) (h : MoneyText s whole frac) (nRet : Int) :
    ParseMoney U s nRet = some (true, moneyValue whole frac) := by
  obtain ⟨point, behind, hdrop, hbehind, hpoint⟩ := h.dropWhile
  rw [ParseMoney, hdrop,
    scan_text hU h.isdigit_whole h.isdigit_frac h.length_frac hpoint hbehind, Option.bind_some]
  simp only
  rw [finish_eq hU h.isdigit_whole h.isdigit_frac h.length_frac,
    if_pos ⟨hbehind, h.length_whole⟩]

theorem ParseMoney_cases (hU : U.Documented) (s : List UInt8) (nRet : Int) :
    (∃ whole frac, MoneyText s whole frac) ∨ ParseMoney U s nRet = some (false, nRet) := by
  rcases scan_cases hU (s.dropWhile isspace) with hscan |
    ⟨whole, frac, point, rest, hsplit, hwhole, hfrac, hlength, hpoint, hscan⟩
  · right
    rw [ParseMoney, hscan]
    rfl
  · by_cases hrest : (∀ c ∈ rest, isspace c = true) ∧ whole.length ≤ 10
    · refine Or.inl ⟨whole, frac, hwhole, hfrac, hrest.2, hlength, s.takeWhile isspace, point,
        rest, ?_, fun c => List.mem_takeWhile_imp, hrest.1, hpoint⟩
      rw [← hsplit, List.takeWhile_append_dropWhile]
    · right
      rw [ParseMoney, hscan, Option.bind_some]
      simp only
      rw [finish_eq hU hwhole hfrac hlength, if_neg hrest]

/-- What is read is the amount of the text, and a string that is not such a text leaves `nRet`. -/
theorem ParseMoney_iff (hU : U.Documented) (s : List UInt8) (nRet : Int) :
    (∀ v, ParseMoney U s nRet = some (true, v) ↔
      ∃ whole frac, MoneyText s whole frac ∧ v = moneyValue whole frac) ∧
    ((¬ ∃ whole frac, MoneyText s whole frac) → ParseMoney U s nRet = some (false, nRet)) := by
  constructor
  · intro v
    constructor
    · intro h
      rcases ParseMoney_cases hU s nRet with ⟨whole, frac, htext⟩ | hfalse
      · rw [ParseMoney_of_text hU htext] at h
        exact ⟨whole, frac, htext, by cases h; rfl⟩
      · rw [hfalse] at h
        cases h
    · rintro ⟨whole, frac, htext, rfl⟩
      exact ParseMoney_of_text hU htext nRet
  · intro h
    exact (ParseMoney_cases hU s nRet).resolve_left h

/-- `atoi64` by the value of all digits, for instance. -/
def usualMoneyUtil : MoneyUtil where
  CENT := 1000000
  atoi64 s := decimalValue s

theorem usualMoneyUtil_documented : usualMoneyUtil.Documented where
  CENT_eq := rfl
  atoi64_eq _ _ _ := rfl

theorem ParseMoney_iff_half :
    (∀ v, ParseMoney usualMoneyUtil ['0'.toUInt8, '.'.toUInt8, '5'.toUInt8] 0 = some (true, v) ↔
      ∃ whole frac, MoneyText ['0'.toUInt8, '.'.toUInt8, '5'.toUInt8] whole frac ∧
        v = moneyValue whole frac) ∧
    ((¬ ∃ whole frac, MoneyText ['0'.toUInt8, '.'.toUInt8, '5'.toUInt8] whole frac) →
      ParseMoney usualMoneyUtil ['0'.toUInt8, '.'.toUInt8, '5'.toUInt8] 0 = some (false, 0)) :=
  ParseMoney_iff usualMoneyUtil_documented _ 0

/-- A string without digits is read as zero. -/
theorem ParseMoney_blank :
    ¬ ∀ (s : List UInt8) (nRet v : Int), ParseMoney usualMoneyUtil s nRet = some (true, v) →
      ∃ whole frac, MoneyText s whole frac ∧ whole ++ frac ≠ [] := by
  intro h
  obtain ⟨whole, frac, htext, hne⟩ := h [] 7 0 rfl
  obtain ⟨before, point, behind, hs, -, -, hpoint⟩ := htext.text
  rcases hpoint with ⟨-, rfl⟩ | rfl
  · rw [List.nil_eq, List.append_eq_nil_iff, List.append_eq_nil_iff] at hs
    exact hne (by rw [hs.2.1, List.append_nil])
  · simp at hs

end ParseMoney

/-! ## `FormatMoney` -/

/-- How many zeros the loop takes from the end, where it is at `i`. It looks two characters back,
so that it stops behind the second decimal. -/
def FormatMoney.trim (str : List UInt8) : Nat → Nat
  | i + 2 =>
    if str.getD (i + 2) 0 = '0'.toUInt8 ∧ isdigit (str.getD i 0) then trim str (i + 1) + 1 else 0
  | _ => 0

/-- What `%08d` prints. -/
def printed08 (n : Nat) : List UInt8 :=
  List.replicate (8 - (printed 10 n).length) '0'.toUInt8 ++ printed 10 n

def FormatMoney (n : Int) (fPlus : Bool) : Option (List UInt8) :=
  (if n > 0 then some n else int64 (-n)).map fun n_abs =>
    let quotient := n_abs / COIN.toInt
    let remainder := n_abs % COIN.toInt
    let str := printed 10 quotient.toNat ++ '.'.toUInt8 :: printed08 remainder.toNat
    let nTrim := FormatMoney.trim str (str.length - 1)
    let str := str.take (str.length - nTrim)
    if n < 0 then '-'.toUInt8 :: str else if fPlus ∧ n > 0 then '+'.toUInt8 :: str else str

section FormatMoney

open FormatMoney

variable {U : MoneyUtil} {whole F : List UInt8}

theorem length_printed08 {n : Nat} (hn : n < 10 ^ 8) : (printed08 n).length = 8 := by
  have hle := length_printed_le (by decide) hn
  rw [printed08, List.length_append, List.length_replicate]
  omega

theorem isdigit_printed08 (n : Nat) : ∀ c ∈ printed08 n, isdigit c = true := by
  intro c hc
  rcases List.mem_append.mp hc with hc | hc
  · rw [List.eq_of_mem_replicate hc]
    decide
  · exact isdigit_printed n c hc

theorem decimalValue_printed08 (n : Nat) : decimalValue (printed08 n) = n := by
  rw [printed08, decimalValue_replicate, decimalValue_printed]

/-- The loop takes zeros, leaves two decimals, and stops only there or before another digit. -/
theorem trim_spec (whole : List UInt8) (hF : ∀ c ∈ F, isdigit c = true) {j : Nat} (hj : 2 ≤ j)
    (hjF : j ≤ F.length) :
    ∃ t, trim (whole ++ '.'.toUInt8 :: F) (whole.length + j) = t ∧ t + 2 ≤ j ∧
      F.take j = F.take (j - t) ++ List.replicate t '0'.toUInt8 ∧
      (2 < j - t → F.getD (j - t - 1) 0 ≠ '0'.toUInt8) := by
  have hget : ∀ i, (whole ++ '.'.toUInt8 :: F).getD (whole.length + i) 0 =
      ('.'.toUInt8 :: F).getD i 0 := by
    intro i
    rw [List.getD_append_right _ _ _ _ (Nat.le_add_right ..), Nat.add_sub_cancel_left]
  generalize whole ++ '.'.toUInt8 :: F = str at *
  induction j, hj using Nat.le_induction with
  | base =>
    have hpoint : ¬ isdigit (str.getD whole.length 0) = true := by
      have h := hget 0
      rw [Nat.add_zero] at h
      rw [h, List.getD_cons_zero]
      decide
    refine ⟨0, ?_, le_rfl, by simp, fun h => absurd h (lt_irrefl 2)⟩
    rw [trim, if_neg fun h => hpoint h.2]
  | succ j hj ih =>
    obtain ⟨i, rfl⟩ := Nat.exists_eq_add_of_le' hj
    obtain ⟨t, htrim, hle, htake, hlast⟩ := ih (Nat.le_of_succ_le hjF)
    have hdigit : isdigit (str.getD (whole.length + (i + 1)) 0) = true := by
      have hi : i < F.length := by omega
      rw [hget, List.getD_cons_succ, List.getD_eq_getElem _ _ hi]
      exact hF _ (List.getElem_mem hi)
    have hstep : trim str (whole.length + (i + 2 + 1)) =
        if str.getD (whole.length + (i + 2 + 1)) 0 = '0'.toUInt8 ∧
          isdigit (str.getD (whole.length + (i + 1)) 0)
        then trim str (whole.length + (i + 2)) + 1 else 0 := rfl
    have hlt : i + 2 < F.length := hjF
    rw [hget, List.getD_cons_succ, htrim] at hstep
    by_cases h0 : F.getD (i + 2) 0 = '0'.toUInt8
    · rw [if_pos ⟨h0, hdigit⟩] at hstep
      refine ⟨t + 1, hstep, by omega, ?_, ?_⟩
      · rw [List.getD_eq_getElem _ _ hlt] at h0
        rw [List.take_succ_eq_append_getElem hlt, htake, h0, Nat.add_sub_add_right,
          List.replicate_succ', List.append_assoc]
      · rwa [Nat.add_sub_add_right]
    · rw [if_neg fun h => h0 h.1] at hstep
      exact ⟨0, hstep, by omega, by simp, fun _ => h0⟩

/-- The text of an amount that is not negative. -/
theorem FormatMoney_eq {n : Int} (hn : 0 ≤ n) :
    ∃ t ≤ 6, FormatMoney n false =
        some (printed 10 (n / 10 ^ 8).toNat ++
          '.'.toUInt8 :: (printed08 (n % 10 ^ 8).toNat).take (8 - t)) ∧
      printed08 (n % 10 ^ 8).toNat =
        (printed08 (n % 10 ^ 8).toNat).take (8 - t) ++ List.replicate t '0'.toUInt8 ∧
      (2 < 8 - t → (printed08 (n % 10 ^ 8).toNat).getD (8 - t - 1) 0 ≠ '0'.toUInt8) := by
  have hlength : (printed08 (n % 10 ^ 8).toNat).length = 8 := by
    apply length_printed08
    omega
  have hdigits := isdigit_printed08 (n % 10 ^ 8).toNat
  have hge : 8 ≤ (printed08 (n % 10 ^ 8).toNat).length := by rw [hlength]
  obtain ⟨t, htrim, ht, htake, hlast⟩ :=
    trim_spec (printed 10 (n / 10 ^ 8).toNat) hdigits (by decide : 2 ≤ 8) hge
  have habs : (if n > 0 then some n else int64 (-n)) = some n := by
    by_cases hpos : n > 0
    · rw [if_pos hpos]
    · obtain rfl : n = 0 := by omega
      rfl
  have hformat (str : List UInt8)
      (hstr : str = printed 10 (n / 10 ^ 8).toNat ++ '.'.toUInt8 :: printed08 (n % 10 ^ 8).toNat) :
      FormatMoney n false = some (str.take (str.length - trim str (str.length - 1))) := by
    simp [FormatMoney, habs, COIN_toInt, hn.not_gt, hstr]
  rw [List.take_of_length_le hlength.le] at htake
  refine ⟨t, by omega, ?_, htake, hlast⟩
  rw [hformat _ rfl]
  generalize printed 10 (n / 10 ^ 8).toNat = whole at *
  generalize printed08 (n % 10 ^ 8).toNat = F at *
  have hstr : (whole ++ '.'.toUInt8 :: F).length = whole.length + 9 := by simp [hlength]
  have hsub : whole.length + 9 - t = whole.length + (8 - t + 1) := by omega
  rw [hstr, Nat.add_sub_cancel (m := 1), htrim, hsub, List.take_length_add_append,
    List.take_succ_cons]

theorem ParseMoney_FormatMoney (hU : U.Documented) {n : Int} (hn : 0 ≤ n) (hmax : n < 10 ^ 18)
    (nRet : Int) :
    ∃ text, FormatMoney n false = some text ∧ ParseMoney U text nRet = some (true, n) ∧
      ∃ whole frac, text = whole ++ '.'.toUInt8 :: frac ∧
        (∀ c ∈ whole, isdigit c = true) ∧ (∀ c ∈ frac, isdigit c = true) ∧
        2 ≤ frac.length ∧ frac.length ≤ 8 ∧
        (2 < frac.length → frac.getLast? ≠ some '0'.toUInt8) := by
  obtain ⟨t, ht, hformat, hzeros, hlast⟩ := FormatMoney_eq hn
  have hquotient := decimalValue_printed (n / 10 ^ 8).toNat
  have hremainder := decimalValue_printed08 (n % 10 ^ 8).toNat
  have hwhole := isdigit_printed (n / 10 ^ 8).toNat
  have hF := isdigit_printed08 (n % 10 ^ 8).toNat
  have hten : (printed 10 (n / 10 ^ 8).toNat).length ≤ 10 := by
    apply length_printed_le (by decide)
    omega
  have hlength : (printed08 (n % 10 ^ 8).toNat).length = 8 := by
    apply length_printed08
    omega
  generalize printed 10 (n / 10 ^ 8).toNat = whole at *
  generalize printed08 (n % 10 ^ 8).toNat = F at *
  have hfrac : ∀ c ∈ F.take (8 - t), isdigit c = true := fun c hc => hF c (List.mem_of_mem_take hc)
  have hlengthfrac : (F.take (8 - t)).length = 8 - t := by
    rw [List.length_take, hlength]
    omega
  have htext : MoneyText (whole ++ '.'.toUInt8 :: F.take (8 - t)) whole (F.take (8 - t)) :=
    ⟨hwhole, hfrac, hten, by omega, [], _, [], by simp, by simp, by simp, Or.inr rfl⟩
  refine ⟨_, hformat, ?_, whole, F.take (8 - t), rfl, hwhole, hfrac, by omega, by omega, ?_⟩
  · have hdecimal : decimalValue (F.take (8 - t)) * 10 ^ t = (n % 10 ^ 8).toNat := by
      rw [hzeros, decimalValue_append, List.length_replicate,
        ← List.append_nil (List.replicate t _), decimalValue_replicate, decimalValue_nil,
        Nat.add_zero] at hremainder
      exact hremainder
    have ht8 : 8 - (8 - t) = t := by omega
    rw [ParseMoney_of_text hU htext, moneyValue, fracValue, hlengthfrac, hquotient, ht8]
    congr 2
    zify at hdecimal
    rw [hdecimal]
    omega
  · intro h
    rw [hlengthfrac] at h
    rw [List.getLast?_eq_getElem?, hlengthfrac, List.getElem?_take_of_lt (by omega)]
    have hlast := hlast h
    rw [List.getD_eq_getElem?_getD] at hlast
    intro hzero
    rw [hzero] at hlast
    exact hlast rfl

theorem ParseMoney_FormatMoney_half :
    ∃ text, FormatMoney 50000000 false = some text ∧
      ParseMoney usualMoneyUtil text 0 = some (true, 50000000) := by
  obtain ⟨text, hformat, hparse, -⟩ :=
    ParseMoney_FormatMoney usualMoneyUtil_documented (n := 50000000) (by decide) (by decide) 0
  exact ⟨text, hformat, hparse⟩

end FormatMoney

end TriTip
