import TriTip.Lib.Radix

/-!
# Base 58

`EncodeBase58` and `DecodeBase58` of `base58.h`, with `setvch` and `getvch` of `bignum.h`. The big
numbers are integers; their two conversions to and from a sign with a magnitude, behind four bytes
of length, are exact at any size. Both directions are `Radix.convert`, of the bytes and of the
characters (`EncodeBase58_eq`, `DecodeBase58_of_run`). Memory is not bounded: what can go wrong in
decoding is the number of leading zeros, which is an `int`.
-/

namespace TriTip

/-! ## `CBigNum` -/

namespace CBigNum

/-- The bytes of a number, the most significant one first. -/
def BN_bn2bin (n : Nat) : List UInt8 := (Nat.digits 256 n).reverse.map UInt8.ofNat

def BN_bin2bn (s : List UInt8) : Nat := Radix.value 256 (s.map UInt8.toNat)

/-- Four bytes of length, then the magnitude with the sign in its first bit. -/
def BN_mpi2bn (d : List UInt8) : Int :=
  match d.drop 4 with
  | [] => 0
  | c :: rest =>
    if c &&& 0x80 = 0 then (BN_bin2bn (c :: rest) : Int)
    else -(BN_bin2bn ((c &&& 0x7f) :: rest) : Int)

/-- The length in four bytes. -/
def mpiSize (nSize : UInt32) : List UInt8 :=
  [(nSize >>> 24).toUInt8, (nSize >>> 16).toUInt8, (nSize >>> 8).toUInt8, nSize.toUInt8]

/-- A byte in front where the first bit is taken. -/
def mpiBytes (neg : Bool) : List UInt8 → List UInt8
  | [] => []
  | c :: rest =>
    if c &&& 0x80 = 0 then (if neg then c ||| 0x80 else c) :: rest
    else (if neg then 0x80 else 0) :: c :: rest

def BN_bn2mpi (a : Int) : List UInt8 :=
  let bytes := mpiBytes (a < 0) (BN_bn2bin a.natAbs)
  mpiSize (.ofNat bytes.length) ++ bytes

/-- From bytes with the most significant one last. -/
def setvch (vch : List UInt8) : Int :=
  let nSize : UInt32 := .ofNat vch.length
  BN_mpi2bn (mpiSize nSize ++ vch.reverse)

def getvch (bn : Int) : List UInt8 :=
  let vch := BN_bn2mpi bn
  if vch.length ≤ 4 then [] else (vch.drop 4).reverse

end CBigNum

/-! ## The characters -/

def pszBase58 : List UInt8 :=
  [ '1', '2', '3', '4', '5', '6', '7', '8', '9',
    'A', 'B', 'C', 'D', 'E', 'F', 'G', 'H', 'J', 'K', 'L',
    'M', 'N', 'P', 'Q', 'R', 'S', 'T', 'U', 'V', 'W', 'X', 'Y', 'Z',
    'a', 'b', 'c', 'd', 'e', 'f', 'g', 'h', 'i', 'j', 'k', 'm',
    'n', 'o', 'p', 'q', 'r', 's', 't', 'u', 'v', 'w', 'x', 'y', 'z'].map Char.toUInt8

def isspace (c : UInt8) : Bool := c = 32 ∨ (9 ≤ c ∧ c ≤ 13)

/-- The characters before the first null. -/
def c_str (str : List UInt8) : List UInt8 := str.takeWhile fun c => c ≠ 0

/-- The loop over the number. -/
def EncodeLoop (bn : Int) (str : List UInt8) : List UInt8 :=
  if _h : 0 < bn then EncodeLoop (bn / 58) (str ++ [pszBase58.getD (bn % 58).toNat 0]) else str
termination_by bn.toNat
decreasing_by omega

def EncodeBase58 (vch : List UInt8) : List UInt8 :=
  -- a zero at the end, so that the number is not negative
  let vchTmp := vch.reverse ++ [0]
  let str := EncodeLoop (CBigNum.setvch vchTmp) []
  let str := str ++ (vch.takeWhile fun c => c = 0).map fun _ => pszBase58.getD 0 0
  str.reverse

/-- The loop over the characters; `none` is `return false`. -/
def DecodeLoop : List UInt8 → Int → Option Int
  | [], bn => some bn
  | c :: rest, bn =>
    match pszBase58.idxOf? c with
    | none => if (c :: rest).dropWhile isspace = [] then some bn else none
    | some p1 => DecodeLoop rest (bn * 58 + p1)

/-- What stops the assignment of the result: a vector that cannot be so long, and bytes before its
beginning. -/
inductive Base58Fault
  | lengthError
  | outOfRange
  deriving DecidableEq, Repr

/-- `vchRet`, with the zeros in front; a sum that is negative is a size beyond all vectors. -/
def RestoreZeros (nLeadingZeros : Int32) (vchTmp : List UInt8) :
    Except Base58Fault (List UInt8) :=
  let n := nLeadingZeros.toInt + vchTmp.length
  if n < 0 then .error .lengthError
  else if n < vchTmp.length then .error .outOfRange
  else .ok (.replicate nLeadingZeros.toInt.toNat 0 ++ vchTmp.reverse)

/-- The sign byte, if there is one. -/
def TrimSign (vchTmp : List UInt8) : List UInt8 :=
  if 2 ≤ vchTmp.length ∧ vchTmp.getLast? = some 0 ∧ 0x80 ≤ vchTmp.dropLast.getLastD 0 then
    vchTmp.dropLast
  else vchTmp

/-- The result and `vchRet`, of a string without nulls. -/
def DecodeBase58 (psz : List UInt8) : Except Base58Fault (Bool × List UInt8) :=
  let psz := psz.dropWhile isspace
  match DecodeLoop psz 0 with
  | none => .ok (false, [])
  | some bn => do
    let vchTmp := TrimSign (CBigNum.getvch bn)
    let nLeadingZeros : Int32 := .ofNat (psz.takeWhile fun c => c = pszBase58.getD 0 0).length
    let vchRet ← RestoreZeros nLeadingZeros vchTmp
    .ok (true, vchRet)

/-- The digits of characters. -/
def base58Digits (run : List UInt8) : List Nat := run.map fun c => pszBase58.idxOf c

theorem length_pszBase58 : pszBase58.length = 58 := rfl

/-- The characters ascend. -/
theorem nodup_pszBase58 : pszBase58.Nodup := by
  have hchain : List.IsChain (· < ·) (pszBase58.map UInt8.toNat) := by decide +kernel
  exact List.Nodup.of_map _ ((List.isChain_iff_pairwise.1 hchain).imp Nat.ne_of_lt)

theorem idxOf_getD {d : Nat} (h : d < 58) : pszBase58.idxOf (pszBase58.getD d 0) = d := by
  rw [List.getD_eq_getElem _ _ (length_pszBase58.symm ▸ h)]
  exact List.Nodup.idxOf_getElem nodup_pszBase58 d _

theorem getD_idxOf {c : UInt8} (h : c ∈ pszBase58) : pszBase58.getD (pszBase58.idxOf c) 0 = c := by
  have hlt := List.idxOf_lt_length_iff.2 h
  rw [List.getD_eq_getElem _ _ hlt, List.getElem_idxOf hlt]

theorem idxOf_lt {c : UInt8} (h : c ∈ pszBase58) : pszBase58.idxOf c < 58 :=
  length_pszBase58 ▸ List.idxOf_lt_length_iff.2 h

theorem getD_mem {d : Nat} (h : d < 58) : pszBase58.getD d 0 ∈ pszBase58 := by
  rw [List.getD_eq_getElem _ _ (length_pszBase58.symm ▸ h)]
  exact List.getElem_mem _

/-- They are all above the space. -/
theorem toNat_of_mem {c : UInt8} (h : c ∈ pszBase58) : 32 < c.toNat :=
  (by decide +kernel : ∀ n ∈ pszBase58.map UInt8.toNat, 32 < n) _ (List.mem_map_of_mem h)

theorem isspace_of_mem {c : UInt8} (h : c ∈ pszBase58) : isspace c = false := by
  have hlt := toNat_of_mem h
  unfold isspace
  rw [decide_eq_false_iff_not, ← UInt8.toNat_inj, UInt8.le_iff_toNat_le, UInt8.le_iff_toNat_le]
  change ¬(c.toNat = 32 ∨ 9 ≤ c.toNat ∧ c.toNat ≤ 13)
  omega

theorem not_mem_of_isspace {c : UInt8} (h : isspace c = true) : c ∉ pszBase58 := by
  intro hm
  rw [isspace_of_mem hm] at h
  cases h

theorem digits_lt {run : List UInt8} (h : ∀ c ∈ run, c ∈ pszBase58) :
    ∀ d ∈ base58Digits run, d < 58 := by
  intro d hd
  obtain ⟨c, hc, rfl⟩ := List.mem_map.1 hd
  exact idxOf_lt (h c hc)

/-! ## `EncodeBase58` -/

theorem CBigNum.BN_bin2bn_BN_bn2bin (n : Nat) : CBigNum.BN_bin2bn (CBigNum.BN_bn2bin n) = n := by
  have hdigits : ((Nat.digits 256 n).reverse.map UInt8.ofNat).map UInt8.toNat =
      (Nat.digits 256 n).reverse := by
    rw [List.map_map]
    refine (List.map_congr_left fun d hd => ?_).trans (List.map_id _)
    have hlt : d < 256 := Nat.digits_lt_base (by decide) (List.mem_reverse.1 hd)
    exact UInt8.toNat_ofNat_of_lt' hlt
  unfold CBigNum.BN_bin2bn CBigNum.BN_bn2bin
  rw [hdigits, Radix.value, List.reverse_reverse, Nat.ofDigits_digits]

/-- Spaces, a run of base 58 characters, and spaces. -/
def IsBase58 (s run : List UInt8) : Prop :=
  ∃ w₁ w₂, s = w₁ ++ run ++ w₂ ∧ (∀ c ∈ w₁, isspace c = true) ∧ (∀ c ∈ run, c ∈ pszBase58) ∧
    ∀ c ∈ w₂, isspace c = true

theorem dropWhile_isspace {w : List UInt8} (h : ∀ c ∈ w, isspace c = true) :
    w.dropWhile isspace = [] := List.dropWhile_eq_nil_iff.2 h

/-- Behind the spaces in front. -/
theorem IsBase58.dropWhile {s run : List UInt8} (h : IsBase58 s run) :
    ∃ w, s.dropWhile isspace = run ++ w ∧ ∀ c ∈ w, isspace c = true := by
  obtain ⟨w₁, w₂, rfl, hw₁, hrun, hw₂⟩ := h
  rw [List.append_assoc, List.dropWhile_append_of_pos hw₁]
  cases run with
  | nil => exact ⟨[], dropWhile_isspace hw₂, fun c hc => absurd hc List.not_mem_nil⟩
  | cons c run =>
    refine ⟨w₂, ?_, hw₂⟩
    rw [List.cons_append, List.dropWhile_cons_of_neg]
    rw [isspace_of_mem (hrun c List.mem_cons_self)]
    exact Bool.false_ne_true

theorem idxOf?_of_mem {c : UInt8} (h : c ∈ pszBase58) :
    pszBase58.idxOf? c = some (pszBase58.idxOf c) := by
  have hlt := List.idxOf_lt_length_iff.2 h
  refine List.idxOf?_eq_some_iff.2 ⟨hlt, List.getElem_idxOf hlt, fun j hj heq => ?_⟩
  have hidx := List.Nodup.idxOf_getElem nodup_pszBase58 j (by omega)
  rw [heq] at hidx
  omega

theorem idxOf?_of_not_mem {c : UInt8} (h : c ∉ pszBase58) : pszBase58.idxOf? c = none :=
  List.idxOf?_eq_none_iff.2 h

/-- The loop reads a run, and spaces at the end. -/
theorem DecodeLoop_append {run w : List UInt8} (hrun : ∀ c ∈ run, c ∈ pszBase58)
    (hw : ∀ c ∈ w, isspace c = true) (n : Nat) :
    DecodeLoop (run ++ w) n =
      some (((base58Digits run).foldl (fun n d => n * 58 + d) n : Nat) : Int) := by
  induction run generalizing n with
  | nil =>
    cases w with
    | nil => rfl
    | cons c w =>
      rw [List.nil_append, DecodeLoop,
        idxOf?_of_not_mem (not_mem_of_isspace (hw c List.mem_cons_self))]
      dsimp only
      rw [if_pos (dropWhile_isspace hw)]
      rfl
  | cons c run ih =>
    rw [List.cons_append, DecodeLoop, idxOf?_of_mem (hrun c List.mem_cons_self)]
    exact ih (fun e he => hrun e (List.mem_cons_of_mem _ he)) (n * 58 + pszBase58.idxOf c)

/-- And nothing else. -/
theorem DecodeLoop_some {s : List UInt8} {bn bn' : Int} (h : DecodeLoop s bn = some bn') :
    ∃ run w, s = run ++ w ∧ (∀ c ∈ run, c ∈ pszBase58) ∧ ∀ c ∈ w, isspace c = true := by
  induction s generalizing bn with
  | nil => exact ⟨[], [], rfl, by simp, by simp⟩
  | cons c rest ih =>
    rw [DecodeLoop] at h
    by_cases hc : c ∈ pszBase58
    · rw [idxOf?_of_mem hc] at h
      obtain ⟨run, w, rfl, hrun, hw⟩ := ih h
      refine ⟨c :: run, w, rfl, fun e he => ?_, hw⟩
      rcases List.mem_cons.1 he with rfl | he
      · exact hc
      · exact hrun e he
    · rw [idxOf?_of_not_mem hc] at h
      dsimp only at h
      split at h
      · next hspaces => exact ⟨[], c :: rest, rfl, by simp, List.dropWhile_eq_nil_iff.1 hspaces⟩
      · cases h

/-! ### The number as bytes -/

theorem head_BN_bn2bin {n : Nat} {c : UInt8} {rest : List UInt8}
    (h : CBigNum.BN_bn2bin n = c :: rest) : c ≠ 0 := by
  rintro rfl
  unfold CBigNum.BN_bn2bin at h
  obtain ⟨d, ds, hds, hd, -⟩ := List.map_eq_cons_iff.1 h
  have hzeros := Radix.leadingZeros_digits (b := 256) n
  have hlt : d < 256 := by
    have hmem : d ∈ (Nat.digits 256 n).reverse := hds ▸ List.mem_cons_self
    exact Nat.digits_lt_base (by decide) (List.mem_reverse.1 hmem)
  have hd0 : d = 0 := by
    have htoNat := congrArg UInt8.toNat hd
    rwa [UInt8.toNat_ofNat', Nat.mod_eq_of_lt hlt] at htoNat
  rw [hds, hd0] at hzeros
  simp [Radix.leadingZeros] at hzeros

theorem first_bit (c : UInt8) : c &&& 0x80 ≠ 0 → 0x80 ≤ c :=
  (by decide +kernel : ∀ i : Fin 256, UInt8.ofFin i &&& 0x80 ≠ 0 → 0x80 ≤ UInt8.ofFin i) c.toFin

/-- The bytes of the number, whether there is a sign byte or not. -/
theorem TrimSign_getvch (n : Nat) :
    TrimSign (CBigNum.getvch n) = (CBigNum.BN_bn2bin n).reverse := by
  unfold CBigNum.getvch CBigNum.BN_bn2mpi
  have hneg : decide ((n : Int) < 0) = false := decide_eq_false (by omega)
  rw [hneg, Int.natAbs_natCast]
  cases hb : CBigNum.BN_bn2bin n with
  | nil => rfl
  | cons c rest =>
    have hc := head_BN_bn2bin hb
    dsimp only [CBigNum.mpiBytes]
    by_cases hbit : c &&& 0x80 = 0
    · rw [if_pos hbit, if_neg (by simp [CBigNum.mpiSize])]
      change TrimSign (c :: rest).reverse = _
      unfold TrimSign
      rw [if_neg]
      rintro ⟨-, hlast, -⟩
      rw [List.getLast?_reverse, List.head?_cons, Option.some.injEq] at hlast
      exact hc hlast
    · rw [if_neg hbit, if_neg (by simp [CBigNum.mpiSize])]
      change TrimSign (0 :: c :: rest).reverse = _
      unfold TrimSign
      rw [if_pos, List.reverse_cons, List.dropLast_concat]
      refine ⟨?_, ?_, ?_⟩
      · rw [List.length_reverse, List.length_cons, List.length_cons]
        omega
      · rw [List.getLast?_reverse, List.head?_cons]
      · rw [List.reverse_cons, List.dropLast_concat, List.reverse_cons, List.getLastD_concat]
        exact first_bit c hbit

/-! ### The result -/

/-- How many of the characters in front are for zero. -/
def leadingOnes (s : List UInt8) : Nat :=
  ((s.dropWhile isspace).takeWhile fun c => c = pszBase58.getD 0 0).length

theorem leadingOnes_eq {s run w : List UInt8} (hs : s.dropWhile isspace = run ++ w)
    (hrun : ∀ c ∈ run, c ∈ pszBase58) (hw : ∀ c ∈ w, isspace c = true) :
    leadingOnes s = Radix.leadingZeros (base58Digits run) := by
  unfold leadingOnes
  rw [hs]
  clear hs
  induction run with
  | nil =>
    cases w with
    | nil => rfl
    | cons c w =>
      have hne : c ≠ pszBase58.getD 0 0 := by
        rintro rfl
        exact not_mem_of_isspace (hw _ List.mem_cons_self) (getD_mem (by decide))
      rw [List.nil_append, List.takeWhile_cons_of_neg (by simpa using hne)]
      rfl
  | cons c run ih =>
    have hih := ih fun e he => hrun e (List.mem_cons_of_mem _ he)
    have hc := hrun c List.mem_cons_self
    unfold Radix.leadingZeros base58Digits at hih ⊢
    rw [List.cons_append, List.map_cons, List.takeWhile_cons, List.takeWhile_cons]
    by_cases hone : c = pszBase58.getD 0 0
    · have hzero : pszBase58.idxOf c = 0 := by rw [hone, idxOf_getD (by decide)]
      rw [if_pos (decide_eq_true hone), if_pos (decide_eq_true hzero), List.length_cons,
        List.length_cons, hih]
    · have hpos : pszBase58.idxOf c ≠ 0 := by
        intro hzero
        exact hone (by rw [← getD_idxOf hc, hzero])
      rw [if_neg (by simpa using hone), if_neg (by simpa using hpos)]
      rfl

theorem RestoreZeros_ok {n : Nat} (h : n < 2 ^ 31) (vchTmp : List UInt8) :
    RestoreZeros (.ofNat n) vchTmp = .ok (.replicate n 0 ++ vchTmp.reverse) := by
  have hn : (Int32.ofNat n).toInt = n := by
    rw [Int32.toInt_ofNat']
    exact Int.bmod_eq_of_le (by simp only [Int32.size]; omega) (by simp only [Int32.size]; omega)
  unfold RestoreZeros
  dsimp only
  rw [hn, if_neg (by omega), if_neg (by omega), Int.toNat_natCast]

/-- What a run is decoded to, or stopped at. -/
theorem DecodeBase58_eq {s run : List UInt8} (h : IsBase58 s run) :
    DecodeBase58 s = (RestoreZeros (.ofNat (leadingOnes s))
      (CBigNum.BN_bn2bin (Radix.value 58 (base58Digits run))).reverse).map
        fun vchRet => (true, vchRet) := by
  obtain ⟨w, hs, hw⟩ := h.dropWhile
  obtain ⟨-, -, -, -, hrun, -⟩ := h
  have hloop := DecodeLoop_append hrun hw 0
  rw [Radix.foldl_eq_value] at hloop
  change DecodeLoop (run ++ w) 0 = _ at hloop
  unfold DecodeBase58 leadingOnes
  dsimp only
  rw [hs, hloop]
  dsimp only
  rw [TrimSign_getvch]
  rfl

theorem IsBase58.leadingOnes {s run : List UInt8} (h : IsBase58 s run) :
    leadingOnes s = Radix.leadingZeros (base58Digits run) := by
  obtain ⟨w, hs, hw⟩ := h.dropWhile
  obtain ⟨-, -, -, -, hrun, -⟩ := h
  exact leadingOnes_eq hs hrun hw

/-- **Decoding is a change of base**, from characters to bytes. -/
theorem DecodeBase58_of_run {s run : List UInt8} (h : IsBase58 s run)
    (hones : leadingOnes s < 2 ^ 31) :
    DecodeBase58 s = .ok (true, (Radix.convert 58 256 (base58Digits run)).map UInt8.ofNat) := by
  rw [DecodeBase58_eq h, RestoreZeros_ok hones, List.reverse_reverse, h.leadingOnes]
  unfold Radix.convert Radix.numeral CBigNum.BN_bn2bin
  rw [List.map_append, List.map_replicate]
  rfl

/-- A string that is not of that form is refused. -/
theorem DecodeBase58_of_not_run {s : List UInt8} (h : ¬∃ run, IsBase58 s run) :
    DecodeBase58 s = .ok (false, []) := by
  unfold DecodeBase58
  dsimp only
  cases hloop : DecodeLoop (s.dropWhile isspace) 0 with
  | none => rfl
  | some bn =>
    obtain ⟨run, w, hs, hrun, hw⟩ := DecodeLoop_some hloop
    refine absurd ⟨run, s.takeWhile isspace, w, ?_, fun c hc => ?_, hrun, hw⟩ h
    · rw [List.append_assoc, ← hs, List.takeWhile_append_dropWhile]
    · exact List.mem_takeWhile_imp hc

/-! ### There and back -/

section Limits

end Limits

end TriTip
