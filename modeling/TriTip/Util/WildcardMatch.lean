import TriTip.Lib.Spelling

/-!
# Masks

`WildcardMatch` of `util.cpp`, which tries a `*` for nothing first and then for one character more.
Each call is with a shorter string or a shorter mask.
-/

namespace TriTip

open Spelling

def WildcardMatch : List UInt8 → List UInt8 → Bool
  | psz, [] => psz.isEmpty
  | psz, c :: mask =>
    if c = '*'.toUInt8 then
      WildcardMatch psz mask ||
        match psz with
        | [] => false
        | _ :: psz => WildcardMatch psz (c :: mask)
    else if c = '?'.toUInt8 then
      match psz with
      | [] => false
      | _ :: psz => WildcardMatch psz mask
    else
      match psz with
      | [] => false
      | c' :: psz => if c' ≠ c then false else WildcardMatch psz mask
termination_by psz mask => psz.length + mask.length

/-- What a character of a mask stands for. -/
def Replaces (c : UInt8) (part : List UInt8) : Prop :=
  if c = '*'.toUInt8 then True
  else if c = '?'.toUInt8 then part.length = 1
  else part = [c]

variable {c : UInt8} {psz mask : List UInt8}

theorem spells_star_iff :
    Spells Replaces ('*'.toUInt8 :: mask) psz ↔
      Spells Replaces mask psz ∨
        ∃ c' psz', psz = c' :: psz' ∧ Spells Replaces ('*'.toUInt8 :: mask) psz' :=
  spells_cons_any_iff fun _ => trivial

theorem spells_question_iff :
    Spells Replaces ('?'.toUInt8 :: mask) psz ↔
      ∃ c' psz', psz = c' :: psz' ∧ Spells Replaces mask psz' := by
  have h := spells_cons_single_iff (r := Replaces) (b := '?'.toUInt8) (m := mask) (s := psz)
    (p := fun _ => True) fun part => by
      rw [Replaces, if_neg (by decide), if_pos rfl, List.length_eq_one_iff]
      simp
  simpa using h

theorem spells_char_iff (hstar : c ≠ '*'.toUInt8) (hany : c ≠ '?'.toUInt8) :
    Spells Replaces (c :: mask) psz ↔ ∃ psz', psz = c :: psz' ∧ Spells Replaces mask psz' := by
  have h := spells_cons_single_iff (r := Replaces) (b := c) (m := mask) (s := psz)
    (p := fun c' => c' = c) fun part => by
      rw [Replaces, if_neg hstar, if_neg hany]
      simp
  simpa using h

/-- A mask is matched by the strings that it can be replaced with. -/
theorem WildcardMatch_iff (psz mask : List UInt8) :
    WildcardMatch psz mask = true ↔ Spells Replaces mask psz := by
  fun_induction WildcardMatch psz mask with
  | case1 psz => simp
  | case2 psz mask ihmask ihchar =>
    rw [Bool.or_eq_true, ihmask, spells_star_iff]
    cases psz with
    | nil => simp
    | cons c' psz => simp [ihchar]
  | case3 mask => simp [spells_question_iff]
  | case4 mask c' psz _ ih => simp [spells_question_iff, ih]
  | case5 c mask hstar hany => simp [spells_char_iff hstar hany]
  | case6 c mask hstar hany c' psz hc => simp [spells_char_iff hstar hany, hc]
  | case7 c mask hstar hany c' psz hc ih =>
    obtain rfl : c' = c := not_not.mp hc
    simp [spells_char_iff hstar hany, ih]

end TriTip
