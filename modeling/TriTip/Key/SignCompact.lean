import TriTip.Base58.CBase58Data
import TriTip.Key.CPubKey

/-!
# Compact signatures

`SignCompact`, `RecoverCompact` and `VerifyCompact` of `key.cpp`, with `CECKey`. What is used of
OpenSSL is `Secp256k1`. Signing looks for the recovery id among 0 to 3, recovering refuses the last
of them, so that a signature with that id is of no use (`SignCompact_iff`).
-/

namespace TriTip

/-- The curve, and what is called of OpenSSL. -/
structure Secp256k1 (P H : Type) where
  infinity : P
  /-- `EC_KEY_regenerate_key`, the public key of secret bytes -/
  regenerate : Vector UInt8 32 → P
  /-- `ECDSA_SIG_recover_key_GFp` without additional checks; `none` is any result but 1 -/
  recover : Nat × Nat → H → (recid : Int32) → Option P
  /-- its additional checks -/
  check : Nat × Nat → (recid : Int32) → Bool
  i2o_ECPublicKey : P → (compressed : Bool) → List UInt8

/-- What is documented of the two forms of a public key. -/
structure Secp256k1.Lawful {P H : Type} (E : Secp256k1 P H) : Prop where
  regenerate_ne : ∀ vch : Vector UInt8 32, CKey.Check vch.toList = true →
    E.regenerate vch ≠ E.infinity
  length : ∀ p ≠ E.infinity, ∀ compressed,
    (E.i2o_ECPublicKey p compressed).length = if compressed then 33 else 65
  header : ∀ p ≠ E.infinity, ∀ compressed,
    GetLen (E.i2o_ECPublicKey p compressed) = (E.i2o_ECPublicKey p compressed).length
  injective : ∀ p q, E.i2o_ECPublicKey p true = E.i2o_ECPublicKey q true → p = q

section

variable {P H : Type} (E : Secp256k1 P H)

def ECDSA_SIG_recover_key_GFp (ecsig : Nat × Nat) (msg : H) (recid : Int32) (check : Bool) :
    Option P :=
  if check && !E.check ecsig recid then none else E.recover ecsig msg recid

namespace CECKey

def GetPubKey (pkey : P) (fCompressed : Bool) : CPubKey := .Set (E.i2o_ECPublicKey pkey fCompressed)

/-- The loop over the recovery ids. -/
def FindId (sig : Nat × Nat) (hash : H) (pubkey : CPubKey) : List Int32 → Option Int32
  | [] => none
  | i :: rest =>
    match ECDSA_SIG_recover_key_GFp E sig hash i true with
    | some keyRec =>
      if GetPubKey E keyRec true = pubkey then some i else FindId sig hash pubkey rest
    | none => FindId sig hash pubkey rest

/-- `p64` and `rec` are left behind; `none` is a failing assert. `sig` is what `ECDSA_do_sign`
gives. -/
def SignCompact (pkey : P) (sig : Option (Nat × Nat)) (hash : H) (p64 : List UInt8) (rec : Int32) :
    Option (Bool × List UInt8 × Int32) :=
  match sig with
  | none => some (false, p64, rec)
  | some (r, s) =>
    let p64 := List.replicate 64 0
    let nBitsR := Nat.size r
    let nBitsS := Nat.size s
    if nBitsR ≤ 256 ∧ nBitsS ≤ 256 then do
      let pubkey := GetPubKey E pkey true
      let rec ← FindId E (r, s) hash pubkey [0, 1, 2, 3]
      let p64 := copyTo p64 (32 - (nBitsR + 7) / 8) (CBigNum.BN_bn2bin r)
      let p64 := copyTo p64 (64 - (nBitsS + 7) / 8) (CBigNum.BN_bn2bin s)
      return (true, p64, rec)
    else some (false, p64, rec)

/-- Reconstruct public key from a compact signature. -/
def Recover (hash : H) (p64 : List UInt8) (rec : Int32) : Option P :=
  if rec < 0 ∨ rec ≥ 3 then none
  else
    let sig := (CBigNum.BN_bin2bn (p64.take 32), CBigNum.BN_bin2bn ((p64.drop 32).take 32))
    ECDSA_SIG_recover_key_GFp E sig hash rec false

end CECKey

def CKey.GetPubKey (key : CKey) : CPubKey :=
  CECKey.GetPubKey E (E.regenerate key.vch) key.fCompressed

/-- The result and `vchSig`; `none` is a failing assert. -/
def CKey.SignCompact (key : CKey) (sig : Option (Nat × Nat)) (hash : H) (vchSig : List UInt8) :
    Option (Bool × List UInt8) :=
  if !key.fValid then some (false, vchSig)
  else do
    let vchSig := (vchSig ++ List.replicate 65 0).take 65
    let (ok, p64, rec) ←
      CECKey.SignCompact E (E.regenerate key.vch) sig hash (vchSig.drop 1) (-1)
    if !ok then return (false, vchSig.take 1 ++ p64)
    if rec = -1 then none
    return (true, (27 + rec + if key.fCompressed then 4 else 0).toInt8.toUInt8 :: p64)

namespace CPubKey

/-- `*this` after it, or `none` for false. -/
def RecoverCompact (hash : H) (vchSig : List UInt8) : Option CPubKey :=
  if vchSig.length ≠ 65 then none
  else
    let header := Int32.ofNat (vchSig.headD 0).toNat - 27
    (CECKey.Recover E hash (vchSig.drop 1) (header &&& ~~~4)).map fun key =>
      CECKey.GetPubKey E key (header &&& 4 ≠ 0)

def VerifyCompact (pubkey : CPubKey) (hash : H) (vchSig : List UInt8) : Bool :=
  let header := Int32.ofNat (vchSig.headD 0).toNat - 27
  pubkey.IsValid && vchSig.length = 65 &&
    (CECKey.Recover E hash (vchSig.drop 1) (header &&& ~~~4)).any fun key =>
      pubkey = CECKey.GetPubKey E key pubkey.IsCompressed

end CPubKey

end

/-! ## The 64 bytes -/

theorem length_BN_bn2bin (n : Nat) : (CBigNum.BN_bn2bin n).length = (Nat.size n + 7) / 8 := by
  have hlength : (CBigNum.BN_bn2bin n).length = (Nat.digits 256 n).length := by
    rw [CBigNum.BN_bn2bin, List.length_map, List.length_reverse]
  rw [hlength]
  apply eq_of_forall_ge_iff
  intro k
  have hbits : (Nat.size n + 7) / 8 ≤ k ↔ Nat.size n ≤ 8 * k := by omega
  rw [Nat.digits_length_le_iff (by decide), hbits, Nat.size_le, Nat.pow_mul]

/-- A number in 32 bytes. -/
def pad32 (n : Nat) : List UInt8 :=
  List.replicate (32 - (CBigNum.BN_bn2bin n).length) 0 ++ CBigNum.BN_bn2bin n

theorem length_pad32 {n : Nat} (hn : Nat.size n ≤ 256) : (pad32 n).length = 32 := by
  have hlength := length_BN_bn2bin n
  rw [pad32, List.length_append, List.length_replicate]
  omega

theorem BN_bin2bn_pad32 (n : Nat) : CBigNum.BN_bin2bn (pad32 n) = n := by
  have hzeros : CBigNum.BN_bin2bn (pad32 n) = CBigNum.BN_bin2bn (CBigNum.BN_bn2bin n) := by
    unfold CBigNum.BN_bin2bn pad32
    rw [List.map_append, List.map_replicate]
    exact Radix.value_replicate_append _
  rw [hzeros, CBigNum.BN_bin2bn_BN_bn2bin]

/-- A number that is written at the end of 32 zeros. -/
theorem copyTo_zeros {n : Nat} (hn : Nat.size n ≤ 256) (before : List UInt8) (k : Nat) :
    copyTo (before ++ List.replicate (32 + k) 0) (before.length + (32 - (Nat.size n + 7) / 8))
      (CBigNum.BN_bn2bin n) = before ++ pad32 n ++ List.replicate k 0 := by
  have hlength := length_BN_bn2bin n
  have hend : 32 - (CBigNum.BN_bn2bin n).length + (CBigNum.BN_bn2bin n).length = 32 := by omega
  unfold copyTo pad32
  rw [← hlength, Nat.add_assoc, hend, List.take_length_add_append, List.drop_length_add_append,
    List.take_replicate, List.drop_replicate, Nat.add_sub_cancel_left, Nat.min_eq_left (by omega)]
  simp only [List.append_assoc]

/-- The two numbers stand one behind the other. -/
theorem copyTo_numbers {r s : Nat} (hr : Nat.size r ≤ 256) (hs : Nat.size s ≤ 256) :
    copyTo (copyTo (List.replicate 64 0) (32 - (Nat.size r + 7) / 8) (CBigNum.BN_bn2bin r))
      (64 - (Nat.size s + 7) / 8) (CBigNum.BN_bn2bin s) = pad32 r ++ pad32 s := by
  have hfirst := copyTo_zeros hr [] 32
  have hsecond := copyTo_zeros hs (pad32 r) 0
  have hpos : 64 - (Nat.size s + 7) / 8 = (pad32 r).length + (32 - (Nat.size s + 7) / 8) := by
    rw [length_pad32 hr]
    omega
  rw [List.nil_append, List.length_nil, Nat.zero_add] at hfirst
  rw [Nat.add_zero, List.replicate_zero, List.append_nil] at hsecond
  rw [hfirst, hpos, List.nil_append, hsecond]

/-! ## The header -/

/-- The id and the form of the key are read as they were written. -/
theorem header_fields {rec : Int32} (hrec : rec ∈ ([0, 1, 2, 3] : List Int32)) (compressed : Bool) :
    let chHeader := (27 + rec + if compressed then 4 else 0).toInt8.toUInt8
    (Int32.ofNat chHeader.toNat - 27) &&& ~~~4 = rec ∧
      decide ((Int32.ofNat chHeader.toNat - 27) &&& 4 ≠ 0) = compressed := by
  simp only [List.mem_cons, List.not_mem_nil, or_false] at hrec
  rcases hrec with rfl | rfl | rfl | rfl <;> cases compressed <;> decide

/-! ## The recovery id -/

section

variable {P H : Type} {E : Secp256k1 P H}

namespace CECKey

/-- A key that is not at infinity is known by its compressed form. -/
theorem GetPubKey_eq (hE : E.Lawful) {p : P} (hp : p ≠ E.infinity) (compressed : Bool) :
    (GetPubKey E p compressed).vch = E.i2o_ECPublicKey p compressed := by
  unfold GetPubKey CPubKey.Set
  rw [dif_pos (hE.header p hp compressed)]

theorem GetPubKey_inj (hE : E.Lawful) {p q : P} (hp : p ≠ E.infinity)
    (h : GetPubKey E q true = GetPubKey E p true) : q = p := by
  have hbytes := congrArg CPubKey.vch h
  have hlength := hE.length p hp true
  rw [GetPubKey_eq hE hp] at hbytes
  unfold GetPubKey CPubKey.Set at hbytes
  split at hbytes
  · exact hE.injective q p hbytes
  · rw [← hbytes] at hlength
    cases hlength

/-- An id gives the key, as the loop compares it. -/
def Gives (E : Secp256k1 P H) (sig : Nat × Nat) (hash : H) (pubkey : CPubKey) (i : Int32) : Bool :=
  (ECDSA_SIG_recover_key_GFp E sig hash i true).any fun keyRec => GetPubKey E keyRec true = pubkey

theorem FindId_eq_find? (sig : Nat × Nat) (hash : H) (pubkey : CPubKey) (ids : List Int32) :
    FindId E sig hash pubkey ids = ids.find? (Gives E sig hash pubkey) := by
  induction ids with
  | nil => rfl
  | cons i rest ih =>
    unfold FindId
    rw [List.find?_cons, Gives]
    cases ECDSA_SIG_recover_key_GFp E sig hash i true with
    | none => exact ih
    | some keyRec =>
      by_cases hkey : GetPubKey E keyRec true = pubkey
      · simp [hkey]
      · simp [hkey, ih]

/-- The key is compared by its compressed form. -/
theorem gives_iff (hE : E.Lawful) {p : P} (hp : p ≠ E.infinity) {sig : Nat × Nat} {hash : H}
    {i : Int32} :
    Gives E sig hash (GetPubKey E p true) i = true ↔
      ECDSA_SIG_recover_key_GFp E sig hash i true = some p := by
  unfold Gives
  cases ECDSA_SIG_recover_key_GFp E sig hash i true with
  | none => simp
  | some q =>
    rw [Option.any_some, decide_eq_true_iff, Option.some.injEq]
    constructor
    · exact GetPubKey_inj hE hp
    · rintro rfl
      rfl

/-- The loop finds an id that gives the key, and the last one only if no other does. -/
theorem FindId_spec (hE : E.Lawful) {p : P} (hp : p ≠ E.infinity) {sig : Nat × Nat} {hash : H}
    {rec : Int32} (h : FindId E sig hash (GetPubKey E p true) [0, 1, 2, 3] = some rec) :
    rec ∈ ([0, 1, 2, 3] : List Int32) ∧ ECDSA_SIG_recover_key_GFp E sig hash rec true = some p ∧
      (rec = 3 ↔ ∀ i ∈ ([0, 1, 2] : List Int32),
        ECDSA_SIG_recover_key_GFp E sig hash i true ≠ some p) := by
  rw [FindId_eq_find?] at h
  have hfound := (gives_iff hE hp).1 (List.find?_some h)
  have hmem := List.mem_of_find?_eq_some h
  refine ⟨hmem, hfound, ?_⟩
  constructor
  · rintro rfl i hi hgives
    -- the loop does not get to 3
    have hsome : (([0, 1, 2] : List Int32).find?
        (Gives E sig hash (GetPubKey E p true))).isSome = true :=
      List.find?_isSome.2 ⟨i, hi, (gives_iff hE hp).2 hgives⟩
    obtain ⟨j, hj⟩ := Option.isSome_iff_exists.1 hsome
    have hsplit : ([0, 1, 2, 3] : List Int32) = [0, 1, 2] ++ [3] := rfl
    rw [hsplit, List.find?_append, hj] at h
    cases h
    exact absurd (List.mem_of_find?_eq_some hj) (by decide)
  · intro hnone
    by_contra hne
    apply hnone rec _ hfound
    simp only [List.mem_cons, List.not_mem_nil, or_false] at hmem ⊢
    tauto

end CECKey

/-! ## Signing and recovering -/

/-- A signature that is returned: the id, the form of the key and the two numbers. -/
theorem SignCompact_eq {key : CKey} {sig : Option (Nat × Nat)} {hash : H} {vch vchSig : List UInt8}
    (h : key.SignCompact E sig hash vch = some (true, vchSig)) :
    key.fValid = true ∧ ∃ r s rec, sig = some (r, s) ∧ Nat.size r ≤ 256 ∧ Nat.size s ≤ 256 ∧
      CECKey.FindId E (r, s) hash (CECKey.GetPubKey E (E.regenerate key.vch) true) [0, 1, 2, 3] =
        some rec ∧
      vchSig = (27 + rec + if key.fCompressed then 4 else 0).toInt8.toUInt8 ::
        (pad32 r ++ pad32 s) := by
  unfold CKey.SignCompact at h
  split at h
  · cases h
  next hvalid =>
  obtain ⟨⟨ok, p64, rec⟩, hsign, h⟩ := Option.bind_eq_some_iff.1 h
  refine ⟨by simpa using hvalid, ?_⟩
  unfold CECKey.SignCompact at hsign
  split at hsign
  · -- nothing was signed
    cases hsign
    cases h
  next r s =>
  dsimp only at hsign
  split at hsign
  swap
  · cases hsign
    cases h
  next hbits =>
  obtain ⟨rec', hid, hsign⟩ := Option.bind_eq_some_iff.1 hsign
  cases hsign
  refine ⟨r, s, rec, rfl, hbits.1, hbits.2, hid, ?_⟩
  dsimp only at h
  rw [if_neg (by simp), copyTo_numbers hbits.1 hbits.2] at h
  split at h
  · cases h
  · cases h
    rfl

/-- Recovering with the id that was found, which must not be the last one. -/
theorem Recover_eq {r s : Nat} (hr : Nat.size r ≤ 256) (hs : Nat.size s ≤ 256) {hash : H}
    {rec : Int32} {p : P} (hid : rec ∈ ([0, 1, 2, 3] : List Int32))
    (hrecover : ECDSA_SIG_recover_key_GFp E (r, s) hash rec true = some p) :
    CECKey.Recover E hash (pad32 r ++ pad32 s) rec = if rec = 3 then none else some p := by
  have htakeR : (pad32 r ++ pad32 s).take 32 = pad32 r := List.take_left' (length_pad32 hr)
  have htakeS : ((pad32 r ++ pad32 s).drop 32).take 32 = pad32 s := by
    rw [List.drop_left' (length_pad32 hr), List.take_of_length_le (length_pad32 hs).le]
  have hplain : ECDSA_SIG_recover_key_GFp E (r, s) hash rec false = some p := by
    unfold ECDSA_SIG_recover_key_GFp at hrecover ⊢
    split at hrecover
    · cases hrecover
    · exact hrecover
  have hrange : (rec < 0 ∨ rec ≥ 3) ↔ rec = 3 := by
    simp only [List.mem_cons, List.not_mem_nil, or_false] at hid
    rcases hid with rfl | rfl | rfl | rfl <;> decide
  unfold CECKey.Recover
  simp only [hrange, htakeR, htakeS, BN_bin2bn_pad32, hplain]

/-- What is read of a signature. -/
theorem RecoverCompact_eq {r s : Nat} (hr : Nat.size r ≤ 256) (hs : Nat.size s ≤ 256) (hash : H)
    {rec : Int32} (hid : rec ∈ ([0, 1, 2, 3] : List Int32)) (compressed : Bool) :
    CPubKey.RecoverCompact E hash ((27 + rec + if compressed then 4 else 0).toInt8.toUInt8 ::
        (pad32 r ++ pad32 s)) =
      (CECKey.Recover E hash (pad32 r ++ pad32 s) rec).map fun key =>
        CECKey.GetPubKey E key compressed := by
  obtain ⟨hrec, hform⟩ := header_fields hid compressed
  generalize (27 + rec + if compressed then 4 else 0).toInt8.toUInt8 = chHeader at hrec hform ⊢
  unfold CPubKey.RecoverCompact
  rw [if_neg (by simp [length_pad32 hr, length_pad32 hs])]
  simp only [List.headD_cons, List.drop_one, List.tail_cons, hrec]
  exact congrArg (fun form => (CECKey.Recover E hash (pad32 r ++ pad32 s) rec).map fun key =>
    CECKey.GetPubKey E key form) hform

theorem VerifyCompact_eq {r s : Nat} (hr : Nat.size r ≤ 256) (hs : Nat.size s ≤ 256) (hash : H)
    {rec : Int32} (hid : rec ∈ ([0, 1, 2, 3] : List Int32)) (compressed : Bool)
    (pubkey : CPubKey) :
    pubkey.VerifyCompact E hash ((27 + rec + if compressed then 4 else 0).toInt8.toUInt8 ::
        (pad32 r ++ pad32 s)) =
      (pubkey.IsValid && (CECKey.Recover E hash (pad32 r ++ pad32 s) rec).any fun key =>
        pubkey = CECKey.GetPubKey E key pubkey.IsCompressed) := by
  obtain ⟨hrec, -⟩ := header_fields hid compressed
  generalize (27 + rec + if compressed then 4 else 0).toInt8.toUInt8 = chHeader at hrec ⊢
  unfold CPubKey.VerifyCompact
  simp only [List.headD_cons, List.drop_one, List.tail_cons, hrec]
  simp [length_pad32 hr, length_pad32 hs]

theorem IsCompressed_GetPubKey (hE : E.Lawful) {p : P} (hp : p ≠ E.infinity) (compressed : Bool) :
    (CECKey.GetPubKey E p compressed).IsValid = true ∧
      (CECKey.GetPubKey E p compressed).IsCompressed = compressed := by
  unfold CPubKey.IsValid CPubKey.IsCompressed
  rw [CECKey.GetPubKey_eq hE hp, hE.length p hp]
  cases compressed <;> exact ⟨rfl, rfl⟩

end

/-- **When a compact signature gives the key that signed**: exactly if one of the ids below 3
recovers it. -/
theorem SignCompact_iff {P H : Type} (E : Secp256k1 P H) (hE : E.Lawful) (key : CKey)
    (sig : Option (Nat × Nat)) (hash : H) (vch vchSig : List UInt8)
    (hsign : key.SignCompact E sig hash vch = some (true, vchSig)) :
    (∃ pubkey, CPubKey.RecoverCompact E hash vchSig = some pubkey ∧ pubkey = key.GetPubKey E ∧
      pubkey.VerifyCompact E hash vchSig = true) ↔
    ∃ rs ∈ sig, ∃ i ∈ ([0, 1, 2] : List Int32),
      ECDSA_SIG_recover_key_GFp E rs hash i true = some (E.regenerate key.vch) := by
  obtain ⟨hvalid, r, s, rec, rfl, hr, hs, hfind, rfl⟩ := SignCompact_eq hsign
  have hp := hE.regenerate_ne key.vch (key.check hvalid)
  obtain ⟨hid, hrecover, hlast⟩ := CECKey.FindId_spec hE hp hfind
  simp only [RecoverCompact_eq hr hs hash hid, VerifyCompact_eq hr hs hash hid,
    Recover_eq hr hs hid hrecover]
  by_cases h3 : rec = 3
  · have hnone := hlast.1 h3
    rw [if_pos h3]
    constructor
    · rintro ⟨pubkey, hpubkey, -⟩
      cases hpubkey
    · rintro ⟨rs, hrs, i, hi, hgives⟩
      cases hrs
      exact absurd hgives (hnone i hi)
  · rw [if_neg h3]
    constructor
    · intro _
      by_contra hno
      apply mt hlast.2 h3
      intro i hi hgives
      exact hno ⟨(r, s), rfl, i, hi, hgives⟩
    · intro _
      obtain ⟨hkey, hform⟩ := IsCompressed_GetPubKey hE hp key.fCompressed
      refine ⟨key.GetPubKey E, rfl, rfl, ?_⟩
      unfold CKey.GetPubKey
      rw [hkey, hform]
      simp

/-! ## A signature that cannot be recovered -/

/-- Points are numbers with a sign; of the recovery ids, only one gives the key of `vch`. -/
def Secp256k1.onlyId (id : Int32) (vch : Vector UInt8 32) :
    Secp256k1 (Option (Bool × Vector UInt8 32)) Nat where
  infinity := none
  regenerate := fun vch => some (false, vch)
  recover := fun _ _ recid =>
    if recid = id then some (some (false, vch))
    else if recid = id ^^^ 1 then some (some (true, vch))
    else none
  check := fun _ _ => true
  i2o_ECPublicKey := fun p compressed =>
    match p with
    | none => [0]
    | some (odd, x) =>
      if compressed then (if odd then 3 else 2) :: x.toList
      else 4 :: (x.toList ++ List.replicate 32 (if odd then 1 else 0))

theorem Secp256k1.onlyId_lawful (id : Int32) (vch : Vector UInt8 32) :
    (Secp256k1.onlyId id vch).Lawful where
  regenerate_ne := fun _ _ => nofun
  length := by
    rintro (_ | ⟨odd, x⟩) hp compressed
    · exact absurd rfl hp
    · cases compressed <;> simp [onlyId]
  header := by
    rintro (_ | ⟨odd, x⟩) hp compressed
    · exact absurd rfl hp
    · cases compressed <;> cases odd <;> simp [onlyId, GetLen]
  injective := by
    rintro (_ | ⟨odd, x⟩) (_ | ⟨odd', x'⟩) h
    · rfl
    · cases odd' <;> simp [onlyId] at h
    · cases odd <;> simp [onlyId] at h
    · cases odd <;> cases odd' <;> simp [onlyId] at h <;> rw [Vector.toList_inj.1 h]

/-- The secret 1. -/
def CKey.one : CKey where
  vch := (Vector.replicate 31 0).push 1
  fValid := true
  fCompressed := true
  check := by decide

/-- A signature with the last id is made, and not recovered. -/
theorem SignCompact_lastId :
    (Secp256k1.onlyId 3 CKey.one.vch).Lawful ∧
    CKey.one.SignCompact (.onlyId 3 CKey.one.vch) (some (1, 1)) 0 [] =
      some (true, 34 :: (pad32 1 ++ pad32 1)) ∧
    CPubKey.RecoverCompact (.onlyId 3 CKey.one.vch) 0 (34 :: (pad32 1 ++ pad32 1)) = none := by
  refine ⟨Secp256k1.onlyId_lawful 3 CKey.one.vch, ?_, ?_⟩
  · decide +kernel
  · decide +kernel

/-- A signature with the id 1. -/
theorem SignCompact_iff_idOne :
    (∃ pubkey,
      CPubKey.RecoverCompact (.onlyId 1 CKey.one.vch) 0 (32 :: (pad32 1 ++ pad32 1)) =
          some pubkey ∧
        pubkey = CKey.one.GetPubKey (.onlyId 1 CKey.one.vch) ∧
        pubkey.VerifyCompact (.onlyId 1 CKey.one.vch) 0 (32 :: (pad32 1 ++ pad32 1)) = true) ↔
      ∃ rs ∈ some (1, 1), ∃ i ∈ ([0, 1, 2] : List Int32),
        ECDSA_SIG_recover_key_GFp (.onlyId 1 CKey.one.vch) rs 0 i true =
          some ((Secp256k1.onlyId 1 CKey.one.vch).regenerate CKey.one.vch) :=
  SignCompact_iff (.onlyId 1 CKey.one.vch) (Secp256k1.onlyId_lawful 1 CKey.one.vch) .one
    (some (1, 1)) 0 [] _ (by decide +kernel)

end TriTip
