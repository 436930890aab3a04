import TriTip.Base58.EncodeBase58
import TriTip.Lib.Alphabet

/-!
# Hexadecimal text

`ParseHex` of `util.cpp`: two digits for a byte, blanks before each, up to the first character that
is no digit (`HexLine.ParseHex`).
-/

namespace TriTip

def phexdigit : List Int :=
  [ -1, -1, -1, -1, -1, -1, -1, -1, -1, -1, -1, -1, -1, -1, -1, -1,
    -1, -1, -1, -1, -1, -1, -1, -1, -1, -1, -1, -1, -1, -1, -1, -1,
    -1, -1, -1, -1, -1, -1, -1, -1, -1, -1, -1, -1, -1, -1, -1, -1,
     0,  1,  2,  3,  4,  5,  6,  7,  8,  9, -1, -1, -1, -1, -1, -1,
    -1, 10, 11, 12, 13, 14, 15, -1, -1, -1, -1, -1, -1, -1, -1, -1,
    -1, -1, -1, -1, -1, -1, -1, -1, -1, -1, -1, -1, -1, -1, -1, -1,
    -1, 10, 11, 12, 13, 14, 15, -1, -1, -1, -1, -1, -1, -1, -1, -1,
    -1, -1, -1, -1, -1, -1, -1, -1, -1, -1, -1, -1, -1, -1, -1, -1,
    -1, -1, -1, -1, -1, -1, -1, -1, -1, -1, -1, -1, -1, -1, -1, -1,
    -1, -1, -1, -1, -1, -1, -1, -1, -1, -1, -1, -1, -1, -1, -1, -1,
    -1, -1, -1, -1, -1, -1, -1, -1, -1, -1, -1, -1, -1, -1, -1, -1,
    -1, -1, -1, -1, -1, -1, -1, -1, -1, -1, -1, -1, -1, -1, -1, -1,
    -1, -1, -1, -1, -1, -1, -1, -1, -1, -1, -1, -1, -1, -1, -1, -1,
    -1, -1, -1, -1, -1, -1, -1, -1, -1, -1, -1, -1, -1, -1, -1, -1,
    -1, -1, -1, -1, -1, -1, -1, -1, -1, -1, -1, -1, -1, -1, -1, -1,
    -1, -1, -1, -1, -1, -1, -1, -1, -1, -1, -1, -1, -1, -1, -1, -1]

def ParseHex : List UInt8 → List UInt8
  | [] => []
  | c :: psz =>
    if isspace c then ParseHex psz
    else
      let c := phexdigit.getD c.toNat (-1)
      if c = -1 then []
      else
        match psz with
        | [] => []
        | c' :: psz =>
          let c' := phexdigit.getD c'.toNat (-1)
          if c' = -1 then []
          else UInt8.ofNat (c.toNat <<< 4 ||| c'.toNat) :: ParseHex psz

def isHexDigit (c : UInt8) : Bool := phexdigit.getD c.toNat (-1) != -1

def hexDigit (c : UInt8) : Nat := (phexdigit.getD c.toNat (-1)).toNat

/-- A line of hexadecimal digits for bytes, with spaces between them. -/
inductive HexLine : List UInt8 → List UInt8 → Prop
  | nil : HexLine [] []
  | space {line bytes : List UInt8} (h : HexLine line bytes) : HexLine (' '.toUInt8 :: line) bytes
  | byte {c c' : UInt8} {line bytes : List UInt8} (hc : isHexDigit c = true)
      (hc' : isHexDigit c' = true) (h : HexLine line bytes) :
      HexLine (c :: c' :: line) (UInt8.ofNat (16 * hexDigit c + hexDigit c') :: bytes)

theorem isHexDigit_iff {c : UInt8} : isHexDigit c = true ↔ phexdigit.getD c.toNat (-1) ≠ -1 := by
  simp [isHexDigit]

theorem not_isspace_of_isHexDigit {c : UInt8} (hc : isHexDigit c = true) :
    ¬ isspace c = true :=
  Alphabet.forall_entry (t := phexdigit) (P := fun c x => x ≠ -1 → ¬ isspace c = true)
    (by decide +kernel) (by decide +kernel) c (isHexDigit_iff.mp hc)

theorem hexDigit_lt (c : UInt8) : hexDigit c < 16 :=
  Alphabet.forall_entry (t := phexdigit) (P := fun _ x => x.toNat < 16) (by decide +kernel)
    (by decide +kernel) c

theorem HexLine.ParseHex {line bytes : List UInt8} (h : HexLine line bytes) :
    ParseHex line = bytes := by
  induction h with
  | nil => rfl
  | space _ ih => rw [TriTip.ParseHex, if_pos (by decide), ih]
  | @byte c c' line bytes hc hc' _ ih =>
    have hor : hexDigit c <<< 4 ||| hexDigit c' = 16 * hexDigit c + hexDigit c' := by
      rw [Nat.shiftLeft_eq, Nat.mul_comm]
      exact (Nat.two_pow_add_eq_or_of_lt (hexDigit_lt c') (hexDigit c)).symm
    rw [TriTip.ParseHex, if_neg (not_isspace_of_isHexDigit hc)]
    simp only [isHexDigit_iff] at hc hc'
    simp only [if_neg hc, if_neg hc', ih]
    rw [← hor]
    rfl

/-- A line has digits and spaces only. -/
theorem HexLine.mem {line bytes : List UInt8} (h : HexLine line bytes) :
    ∀ c ∈ line, c = ' '.toUInt8 ∨ isHexDigit c = true := by
  induction h with
  | nil => simp
  | space _ ih => exact List.forall_mem_cons.mpr ⟨Or.inl rfl, ih⟩
  | byte hc hc' _ ih =>
    exact List.forall_mem_cons.mpr ⟨Or.inr hc, List.forall_mem_cons.mpr ⟨Or.inr hc', ih⟩⟩

end TriTip
