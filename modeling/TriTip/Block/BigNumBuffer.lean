import TriTip.Block.ProofOfWork
import TriTip.Lib.Cursor
import TriTip.Lib.ExactInt64

/-!
# Big numbers through buffers

`setint64`, `setuint64`, `setuint256` and `getuint256` of `bignum.h` with the buffers on the stack
that they write, whatever is in them before. A write outside a buffer gives `none`; there is none,
and every conversion is exact (`conversions_exact`). What `BN_mpi2bn` and `BN_bn2mpi` do is that of
numbers with a sign behind four bytes of length; a length that is wrong leaves the number as it was.
-/

namespace TriTip.CBigNum.Buffer

/-- `BN_mpi2bn`, with the length that it checks. -/
def readMpi (d : List UInt8) : Option Int :=
  if 4 ≤ d.length ∧ BN_bin2bn (d.take 4) + 4 = d.length then some (BN_mpi2bn d) else none

section

variable {size : Nat} (fNegative : Bool)

/-- The first byte that is not zero: the sign is put in front, or into it. -/
def signByte (p : Cursor UInt8 size) (c : UInt8) : Option (Cursor UInt8 size × UInt8) :=
  if c &&& 0x80 ≠ 0 then (p.put (if fNegative then 0x80 else 0)).map fun p => (p, c)
  else some (p, if fNegative then c ||| 0x80 else c)

/-- One turn of the loops, with a byte of the number. -/
def putByte (s : Cursor UInt8 size × Bool) (c : UInt8) : Option (Cursor UInt8 size × Bool) :=
  let (p, fLeadingZeroes) := s
  if fLeadingZeroes ∧ c = 0 then some s
  else do
    let (p, c) ← if fLeadingZeroes then signByte fNegative p c else some (p, c)
    let p ← p.put c
    return (p, false)

/-- From the bytes of a number, the first one first; `bn` is what the number was. -/
def setBytes {width : Nat} (pch : Vector UInt8 (width + 6)) (bytes : List UInt8) (bn : Int) :
    Option Int := do
  let (p, _) ← bytes.foldlM (putByte fNegative) (⟨pch, 4, by omega⟩, true)
  let nSize : UInt32 := .ofNat (p.pos - 4)
  let pch := p.cells.set 0 (nSize >>> 24).toUInt8
  let pch := pch.set 1 (nSize >>> 16).toUInt8
  let pch := pch.set 2 (nSize >>> 8).toUInt8
  let pch := pch.set 3 nSize.toUInt8
  return (readMpi (pch.toList.take p.pos)).getD bn

end

/-- The bytes at the top of a word that is shifted. -/
def topBytes : (turns : Nat) → UInt64 → List UInt8
  | 0, _ => []
  | turns + 1, n => (n >>> 56).toUInt8 :: topBytes turns (n <<< 8)

def setint64 (pch : Vector UInt8 (8 + 6)) (bn : Int) (sn : Int64) : Option Int :=
  -- the minimum is not the negative of a signed integer, so one is added before and after
  let n : UInt64 := if sn < 0 then (-(sn + 1)).toUInt64 + 1 else sn.toUInt64
  setBytes (sn < 0) pch (topBytes 8 n) bn

def setuint64 (pch : Vector UInt8 (8 + 6)) (bn : Int) (n : UInt64) : Option Int :=
  setBytes false pch (topBytes 8 n) bn

def setuint256 (pch : Vector UInt8 (32 + 6)) (bn : Int) (n : BitVec 256) : Option Int :=
  setBytes false pch (uint256Bytes n) bn

/-- The loop of `getuint256`, from `j` down; `i` is where the cursor stands. -/
def getBytes (vch : List UInt8) : (j : Nat) → Cursor UInt8 32 → Option (Cursor UInt8 32)
  | 0, n => some n
  | j + 1, n =>
    if n.pos < 32 ∧ 4 ≤ j + 1 then do
      let c ← vch[j + 1]?
      let n ← n.put c
      getBytes vch j n
    else some n

def getuint256 (bn : Int) : Option (BitVec 256) :=
  let vch := BN_bn2mpi bn
  if vch.length < 4 then some 0
  else do
    let vch := if 4 < vch.length then vch.modify 4 (· &&& 0x7f) else vch
    let n ← getBytes vch (vch.length - 1) ⟨.replicate 32 0, 0, by omega⟩
    return .ofNat 256 (LittleEndian.decode n.cells.toList)

/-! ## What is in the buffer -/

section

variable {size : Nat} (fNegative : Bool) {p : Cursor UInt8 size} {bytes : List UInt8}

theorem foldlM_putByte_false (h : p.pos + bytes.length ≤ size) :
    ∃ p', bytes.foldlM (putByte fNegative) (p, false) = some (p', false) ∧
      p'.written = p.written ++ bytes := by
  obtain ⟨p', hput, hwritten⟩ := Cursor.foldlM_put h
  refine ⟨p', ?_, hwritten⟩
  clear hwritten h
  induction bytes generalizing p with
  | nil =>
    cases hput
    rfl
  | cons c bytes ih =>
    rw [List.foldlM_cons] at hput
    obtain ⟨p₁, hp₁, hput⟩ := Option.bind_eq_some_iff.1 hput
    have hbyte : putByte fNegative (p, false) c = some (p₁, false) := by
      simp [putByte, hp₁]
    rw [List.foldlM_cons, hbyte]
    exact ih hput

theorem pos_of_written {p' : Cursor UInt8 size} {l : List UInt8}
    (h : p'.written = p.written ++ l) : p'.pos = p.pos + l.length := by
  rw [← p'.length_written, h, List.length_append, p.length_written]

/-- The first byte that is not zero is written as one byte or as two. -/
theorem putByte_true {c : UInt8} (h : p.pos + 2 ≤ size) (hc : c ≠ 0) (rest : List UInt8) :
    ∃ p' first, putByte fNegative (p, true) c = some (p', false) ∧
      p'.written = p.written ++ first ∧ first.length ≤ 2 ∧
      mpiBytes fNegative (c :: rest) = first ++ rest := by
  unfold putByte signByte mpiBytes
  by_cases hbit : c &&& 0x80 = 0
  · obtain ⟨p', hput, hwritten, -⟩ :=
      p.put_of_lt (by omega) (if fNegative then c ||| 0x80 else c)
    refine ⟨p', [if fNegative then c ||| 0x80 else c], ?_, hwritten, by simp, ?_⟩
    · simp [hc, hbit, hput]
    · exact if_pos hbit
  · obtain ⟨p₁, hput₁, hwritten₁, -⟩ := p.put_of_lt (by omega) (if fNegative then 0x80 else 0)
    have hpos := pos_of_written hwritten₁
    rw [List.length_singleton] at hpos
    obtain ⟨p', hput, hwritten, -⟩ := p₁.put_of_lt (by omega) c
    refine ⟨p', [if fNegative then 0x80 else 0, c], ?_, ?_, by simp, ?_⟩
    · simp [hc, hbit, hput₁, hput]
    · rw [hwritten, hwritten₁, List.append_assoc]
      rfl
    · exact if_neg hbit

/-- Zeros are left out, and the sign is put in. -/
theorem foldlM_putByte (h : p.pos + bytes.length + 1 ≤ size) :
    ∃ p' fLeadingZeroes, bytes.foldlM (putByte fNegative) (p, true) = some (p', fLeadingZeroes) ∧
      p'.written = p.written ++ mpiBytes fNegative (bytes.dropWhile fun c => c = 0) := by
  induction bytes with
  | nil => exact ⟨p, true, rfl, (List.append_nil _).symm⟩
  | cons c bytes ih =>
    rw [List.length_cons] at h
    by_cases hc : c = 0
    · obtain ⟨p', fLeadingZeroes, hfold, hwritten⟩ := ih (by omega)
      have hbyte : putByte fNegative (p, true) c = some (p, true) := by
        simp [putByte, hc]
      refine ⟨p', fLeadingZeroes, ?_, ?_⟩
      · rw [List.foldlM_cons, hbyte]
        exact hfold
      · rw [List.dropWhile_cons_of_pos (by simpa using hc), hwritten]
    · obtain ⟨p₁, first, hbyte, hwritten₁, hlen, hfirst⟩ :=
        putByte_true fNegative (show p.pos + 2 ≤ size by omega) hc bytes
      have hpos := pos_of_written hwritten₁
      obtain ⟨p', hfold, hwritten⟩ :=
        foldlM_putByte_false fNegative (show p₁.pos + bytes.length ≤ size by omega)
      refine ⟨p', false, ?_, ?_⟩
      · rw [List.foldlM_cons, hbyte]
        exact hfold
      · rw [List.dropWhile_cons_of_neg (by simpa using hc), hfirst, hwritten, hwritten₁,
          List.append_assoc]

end

/-! ## The number that is read -/

/-- The length is what it says. -/
theorem BN_bin2bn_mpiSize (nSize : UInt32) : BN_bin2bn (mpiSize nSize) = nSize.toNat := by
  have hlt := nSize.toNat_lt
  unfold BN_bin2bn mpiSize Radix.value
  simp [Nat.ofDigits_cons, Nat.shiftRight_eq_div_pow]
  omega

theorem sign_set (c : UInt8) : ¬ (c ||| 0x80) &&& 0x80 = 0 := by
  revert c
  decide +kernel

theorem BN_mpi2bn_signed (fNegative : Bool) (nSize : UInt32) (bytes : List UInt8) :
    BN_mpi2bn (mpiSize nSize ++ mpiBytes fNegative bytes) =
      if fNegative then -(BN_bin2bn bytes : Int) else BN_bin2bn bytes := by
  cases fNegative with
  | false => exact BN_mpi2bn_mpiBytes nSize bytes
  | true =>
    have hdrop : (mpiSize nSize ++ mpiBytes true bytes).drop 4 = mpiBytes true bytes :=
      List.drop_left' rfl
    unfold BN_mpi2bn
    rw [hdrop]
    cases bytes with
    | nil => rfl
    | cons c rest =>
      dsimp only [mpiBytes]
      by_cases hbit : c &&& 0x80 = 0
      · obtain ⟨-, hsign⟩ := bit_cleared c hbit
        rw [if_pos hbit]
        simp only [if_true]
        rw [if_neg (sign_set c), hsign]
      · rw [if_neg hbit]
        exact congrArg (fun n : Nat => -(n : Int)) Radix.value_zero_cons

theorem length_mpiBytes_le (fNegative : Bool) (bytes : List UInt8) :
    (mpiBytes fNegative bytes).length ≤ bytes.length + 1 := by
  cases bytes with
  | nil => exact Nat.zero_le _
  | cons c rest =>
    dsimp only [mpiBytes]
    split
    · simp
    · simp

/-- The length is put in front of what has been written. -/
theorem take_set_mpiSize {l : List UInt8} (h : 4 ≤ l.length) (nSize : UInt32) (k : Nat) :
    ((((l.set 0 (nSize >>> 24).toUInt8).set 1 (nSize >>> 16).toUInt8).set 2
      (nSize >>> 8).toUInt8).set 3 nSize.toUInt8).take (4 + k) =
      mpiSize nSize ++ (l.drop 4).take k := by
  obtain ⟨front, rest, rfl, hfront⟩ : ∃ front rest, l = front ++ rest ∧ front.length = 4 :=
    ⟨l.take 4, l.drop 4, (List.take_append_drop 4 l).symm, List.length_take_of_le h⟩
  obtain ⟨w, x, y, z, rfl⟩ := List.length_eq_four.1 hfront
  rw [Nat.add_comm]
  rfl

theorem readMpi_mpiSize {mpi : List UInt8} (h : mpi.length < 2 ^ 32) :
    readMpi (mpiSize (.ofNat mpi.length) ++ mpi) =
      some (BN_mpi2bn (mpiSize (.ofNat mpi.length) ++ mpi)) := by
  have hlen : (mpiSize (.ofNat mpi.length) ++ mpi).length = 4 + mpi.length := List.length_append
  have htake : (mpiSize (.ofNat mpi.length) ++ mpi).take 4 = mpiSize (.ofNat mpi.length) :=
    List.take_left' rfl
  unfold readMpi
  rw [htake, BN_bin2bn_mpiSize, UInt32.toNat_ofNat_of_lt' h, hlen, if_pos]
  omega

/-- Whatever was in the buffer, and whatever the number was, it is the one with these bytes. -/
theorem setBytes_eq (fNegative : Bool) {width : Nat} (hwidth : width < 2 ^ 31)
    (pch : Vector UInt8 (width + 6)) {bytes : List UInt8} (hlen : bytes.length ≤ width) (bn : Int) :
    setBytes fNegative pch bytes bn =
      some (if fNegative then -(BN_bin2bn bytes : Int) else BN_bin2bn bytes) := by
  have hroom : (⟨pch, 4, by omega⟩ : Cursor UInt8 (width + 6)).pos + bytes.length + 1 ≤
      width + 6 := by
    dsimp only
    omega
  obtain ⟨p, fLeadingZeroes, hfold, hwritten⟩ := foldlM_putByte fNegative hroom
  have hle := length_mpiBytes_le fNegative (bytes.dropWhile fun c => c = 0)
  have hdrop := (List.dropWhile_suffix (fun c : UInt8 => decide (c = 0)) (l := bytes)).length_le
  generalize hmpi : mpiBytes fNegative (bytes.dropWhile fun c => c = 0) = mpi at hwritten hle
  have hpos := pos_of_written hwritten
  dsimp only at hpos
  have hcells : (p.cells.toList.drop 4).take mpi.length = mpi := by
    have hbehind : p.written.drop 4 = mpi := by
      rw [hwritten]
      exact List.drop_left' (Cursor.length_written _)
    rw [← Nat.add_sub_cancel_left 4 mpi.length, ← List.drop_take, ← hpos]
    exact hbehind
  unfold setBytes
  rw [hfold]
  simp only [Option.bind_eq_bind, Option.bind_some, Vector.toList_set, hpos,
    Nat.add_sub_cancel_left]
  rw [take_set_mpiSize (by rw [Vector.length_toList]; omega), hcells,
    readMpi_mpiSize (by omega), ← hmpi, BN_mpi2bn_signed, BN_bin2bn_dropWhile]
  rfl

/-! ## The bytes of a word -/

@[simp] theorem length_topBytes (turns : Nat) (n : UInt64) : (topBytes turns n).length = turns := by
  induction turns generalizing n with
  | zero => rfl
  | succ turns ih => exact congrArg (· + 1) (ih (n <<< 8))

theorem BN_bin2bn_cons (c : UInt8) (bytes : List UInt8) :
    BN_bin2bn (c :: bytes) = c.toNat * 256 ^ bytes.length + BN_bin2bn bytes := by
  unfold BN_bin2bn
  rw [List.map_cons, Radix.value_cons, List.length_map]

/-- They are the number without what has not come to the top. -/
theorem BN_bin2bn_topBytes {turns : Nat} (h : turns ≤ 8) (n : UInt64) :
    BN_bin2bn (topBytes turns n) = n.toNat / 256 ^ (8 - turns) := by
  induction turns generalizing n with
  | zero =>
    have hlt := n.toNat_lt
    exact (Nat.div_eq_of_lt hlt).symm
  | succ turns ih =>
    have hlt := n.toNat_lt
    have htop : ((n >>> 56).toUInt8).toNat = n.toNat / 2 ^ 56 := by
      simp [Nat.shiftRight_eq_div_pow]
      omega
    have hrest : (n <<< 8).toNat = n.toNat % 2 ^ 56 * 256 := by
      simp [Nat.shiftLeft_eq]
      omega
    have hpow : 256 ^ (8 - turns) = 256 ^ (8 - (turns + 1)) * 256 := by
      rw [← pow_succ]
      congr 1
      omega
    have hsplit : 2 ^ 56 = 256 ^ (8 - (turns + 1)) * 256 ^ turns := by
      rw [← pow_add, Nat.sub_add_eq, Nat.sub_right_comm, Nat.sub_add_cancel (by omega)]
      rfl
    have hdecomp : n.toNat =
        256 ^ (8 - (turns + 1)) * (256 ^ turns * (n.toNat / 2 ^ 56)) + n.toNat % 2 ^ 56 := by
      rw [← Nat.mul_assoc, ← hsplit]
      exact (Nat.div_add_mod _ _).symm
    rw [topBytes, BN_bin2bn_cons, length_topBytes, ih (by omega), htop, hrest, hpow,
      Nat.mul_div_mul_right _ _ (by decide)]
    conv_rhs => rw [hdecomp, Nat.mul_add_div (Nat.pow_pos (by decide))]
    rw [Nat.mul_comm]

theorem BN_bin2bn_word (n : UInt64) : BN_bin2bn (topBytes 8 n) = n.toNat := by
  rw [BN_bin2bn_topBytes le_rfl]
  exact Nat.div_one _

/-- A number that is not negative is the same without a sign. -/
theorem toNat_toUInt64 {sn : Int64} (h : 0 ≤ sn.toInt) : (sn.toUInt64.toNat : Int) = sn.toInt := by
  have hlt := sn.toUInt64.toNat_lt
  have hcond : sn.toInt = if 2 * sn.toUInt64.toNat < 2 ^ 64 then (sn.toUInt64.toNat : Int)
      else sn.toUInt64.toNat - (2 ^ 64 : Nat) := BitVec.toInt_eq_toNat_cond sn.toBitVec
  split at hcond
  · exact hcond.symm
  · omega

/-- The minimum too has its magnitude in an unsigned word. -/
theorem magnitude {sn : Int64} (h : sn < 0) :
    (((-(sn + 1)).toUInt64 + 1).toNat : Int) = -sn.toInt := by
  have hneg : sn.toInt < 0 := Int64.lt_iff_toInt_lt.1 h
  have hle := sn.le_toInt
  have hsucc : (sn + 1).toInt = sn.toInt + 1 := by
    apply ExactInt64.toInt_add
    rw [Int64.toInt_one]
    constructor <;> omega
  have hpos : (-(sn + 1)).toInt = -(sn.toInt + 1) := by
    rw [Int64.toInt_neg, hsucc, Int.bmod_eq_of_le (by omega) (by omega)]
  have hnat := toNat_toUInt64 (show 0 ≤ (-(sn + 1)).toInt by omega)
  rw [hpos] at hnat
  rw [UInt64.toNat_add, UInt64.toNat_one, Nat.mod_eq_of_lt (by omega)]
  omega

theorem setint64_eq (pch : Vector UInt8 (8 + 6)) (bn : Int) (sn : Int64) :
    setint64 pch bn sn = some sn.toInt := by
  unfold setint64
  rw [setBytes_eq _ (by decide) _ (length_topBytes 8 _).le, BN_bin2bn_word]
  by_cases h : sn < 0
  · have hmagnitude := magnitude h
    simp only [h, decide_true, if_true]
    rw [hmagnitude, Int.neg_neg]
  · have hnonneg : 0 ≤ sn.toInt := Int.not_lt.1 fun hlt => h (Int64.lt_iff_toInt_lt.2 hlt)
    simp only [h, decide_false, if_false, Bool.false_eq_true]
    rw [toNat_toUInt64 hnonneg]

theorem setuint64_eq (pch : Vector UInt8 (8 + 6)) (bn : Int) (n : UInt64) :
    setuint64 pch bn n = some (n.toNat : Int) := by
  unfold setuint64
  rw [setBytes_eq _ (by decide) _ (length_topBytes 8 _).le, BN_bin2bn_word]
  rfl

/-- The buffer holds what is converted without one. -/
theorem setuint256_refines (pch : Vector UInt8 (32 + 6)) (bn : Int) (n : BitVec 256) :
    setuint256 pch bn n = some (CBigNum.setuint256 n) := by
  have hlen : (uint256Bytes n).length = 32 := by simp [uint256Bytes]
  unfold setuint256
  rw [setBytes_eq _ (by decide) _ hlen.le, BN_bin2bn_uint256Bytes, setuint256_eq]
  rfl

/-! ## Back to 256 bits -/

/-- The loop writes the last bytes of what it reads, as long as there is room. -/
theorem getBytes_eq {vch : List UInt8} {j : Nat} (h : j < vch.length) (n : Cursor UInt8 32) :
    ∃ n', getBytes vch j n = some n' ∧
      n'.written = n.written ++ ((vch.take (j + 1)).drop 4).reverse.take (32 - n.pos) ∧
      ∃ k, n'.rest = n.rest.drop k := by
  induction j generalizing n with
  | zero => exact ⟨n, rfl, by simp [List.drop_eq_nil_of_le], 0, rfl⟩
  | succ j ih =>
    unfold getBytes
    split
    · next hroom =>
      obtain ⟨n₁, hput, hwritten₁, hrest₁⟩ := n.put_of_lt hroom.1 vch[j + 1]
      have hpos : n₁.pos = n.pos + 1 := pos_of_written hwritten₁
      obtain ⟨n', hget, hwritten, k, hrest⟩ := ih (by omega) n₁
      refine ⟨n', ?_, ?_, 1 + k, ?_⟩
      · rw [List.getElem?_eq_getElem h]
        simp [hput, hget]
      · have hlast : vch.take (j + 1 + 1) = vch.take (j + 1) ++ [vch[j + 1]] :=
          List.take_succ_eq_append_getElem h
        have hlen : 4 ≤ (vch.take (j + 1)).length := by
          rw [List.length_take]
          omega
        have hroom' : 32 - n.pos = 32 - n₁.pos + 1 := by omega
        rw [hwritten, hwritten₁, hlast, List.drop_append_of_le_length hlen, List.reverse_append,
          hroom', List.append_assoc]
        rfl
      · rw [hrest, hrest₁, List.drop_drop]
    · next hroom =>
      refine ⟨n, rfl, ?_, 0, rfl⟩
      by_cases hfull : n.pos < 32
      · have hnone : (vch.take (j + 1 + 1)).drop 4 = [] := by
          apply List.drop_eq_nil_of_le
          rw [List.length_take]
          omega
        rw [hnone]
        simp
      · rw [Nat.sub_eq_zero_of_le (by omega), List.take_zero, List.append_nil]

theorem getuint256_refines (bn : Int) : getuint256 bn = some (CBigNum.getuint256 bn) := by
  unfold getuint256 CBigNum.getuint256
  dsimp only
  split
  · rfl
  · next hlen =>
    generalize hvch : (if 4 < (BN_bn2mpi bn).length then (BN_bn2mpi bn).modify 4 (· &&& 0x7f)
      else BN_bn2mpi bn) = vch
    have hsame : vch.length = (BN_bn2mpi bn).length := by
      rw [← hvch]
      split
      · exact List.length_modify ..
      · rfl
    obtain ⟨n, hget, hwritten, k, hrest⟩ := getBytes_eq (show vch.length - 1 < vch.length by omega)
      (⟨.replicate 32 0, 0, by omega⟩ : Cursor UInt8 32)
    have hall : vch.take (vch.length - 1 + 1) = vch := List.take_of_length_le (by omega)
    rw [hall] at hwritten
    rw [hget]
    simp only [Option.bind_eq_bind, Option.bind_some]
    have hstart : (⟨.replicate 32 0, 0, by omega⟩ : Cursor UInt8 32).rest =
        List.replicate 32 0 := Vector.toList_replicate
    rw [← n.written_append_rest, hwritten, hrest, hstart, List.drop_replicate,
      LittleEndian.decode_append_replicate_zero]
    rfl

/-- **Exact conversions.** No buffer is overrun, whatever is in it before and whatever the number
was; signed and unsigned words and numbers of 256 bits give the integers that they are; an integer
gives its magnitude modulo 2^256, and a number of 256 bits comes back. -/
theorem conversions_exact :
    (∀ pch bn (sn : Int64), setint64 pch bn sn = some sn.toInt) ∧
    (∀ pch bn (n : UInt64), setuint64 pch bn n = some (n.toNat : Int)) ∧
    (∀ pch bn (n : BitVec 256), setuint256 pch bn n = some (n.toNat : Int)) ∧
    (∀ x : Int, ∃ n, getuint256 x = some n ∧ n.toNat = x.natAbs % 2 ^ 256) ∧
    ∀ pch bn (n : BitVec 256), (setuint256 pch bn n).bind getuint256 = some n := by
  have hset : ∀ pch bn (n : BitVec 256), setuint256 pch bn n = some (n.toNat : Int) := by
    intro pch bn n
    rw [setuint256_refines, setuint256_eq]
  refine ⟨setint64_eq, setuint64_eq, hset, ?_, ?_⟩
  · intro x
    exact ⟨_, getuint256_refines x, getuint256_toNat x⟩
  · intro pch bn n
    rw [hset, Option.bind_some, getuint256_refines]
    apply congrArg some
    apply BitVec.eq_of_toNat_eq
    rw [getuint256_toNat, Int.natAbs_natCast, Nat.mod_eq_of_lt n.isLt]

end TriTip.CBigNum.Buffer
