import TriTip.Base58.EncodeBase58

/-!
# The proof-of-work search

`geneSeed`, `generateProofOfWork` and `simpleSHA256` of `dust_coin/ttproveofwork.h`. A byte of the
suffix is compared with 255 as a signed `char`, so there is never a carry: after 256 seeds of one
byte they begin again (`geneSeed_distinct_iff`). The search hashes as many bytes as the suffix is
long, from the beginning of the address, and its result is copied as a string that ends at the first
zero, while a zero is what the search was for (`generateProofOfWork_iff`). The recursive call is
read as one of `geneSeed`, and the return as one of `generateProofOfWork`.
-/

namespace TriTip.TTcoin

/-! ## The seeds -/

theorem toNat_sub_one_lt {n : UInt32} (h : ¬ (n - 1).toInt32 < 0) : (n - 1).toNat < n.toNat := by
  have hpos : n ≠ 0 := by
    rintro rfl
    exact h (by decide)
  have hone : (1 : UInt32) ≤ n := by
    rw [UInt32.le_iff_toNat_le]
    have hne : n.toNat ≠ 0 := fun heq => hpos (UInt32.toNat_inj.1 heq)
    have h1 : (1 : UInt32).toNat = 1 := rfl
    omega
  have h1 : (1 : UInt32).toNat = 1 := rfl
  rw [UInt32.toNat_sub_of_le _ _ hone]
  rw [UInt32.le_iff_toNat_le] at hone
  omega

/-- The memory, with the suffix from `sufix` on, and the length that is returned. -/
def geneSeed (mem : Nat → Int8) (sufix : Nat) (lenght index : UInt32) : (Nat → Int8) × UInt32 :=
  let id := (lenght + index - 1).toInt32
  if h : id < 0 then (Function.update mem (sufix + lenght.toNat) 0, lenght + 1)
  else
    let place := sufix + id.toInt.toNat
    let sign := mem place
    if sign.toInt = 255 then
      have : (lenght + (index - 1)).toNat < (lenght + index).toNat := by
        have hcomm : lenght + (index - 1) = lenght + index - 1 := by grind
        rw [hcomm]
        exact toNat_sub_one_lt h
      geneSeed (Function.update mem place 0) sufix lenght (index - 1)
    else (Function.update mem place (sign + 1), lenght)
termination_by (lenght + index).toNat

/-- So many calls from a suffix of no length on. -/
def geneSeeds (mem : Nat → Int8) (sufix : Nat) : Nat → (Nat → Int8) × UInt32
  | 0 => (mem, 0)
  | n + 1 => geneSeed (geneSeeds mem sufix n).1 sufix (geneSeeds mem sufix n).2 0

/-- The seed in the suffix buffer. -/
def seedIn (sufix : Nat) (s : (Nat → Int8) × UInt32) : List Int8 :=
  (List.range s.2.toNat).map fun i => s.1 (sufix + i)

theorem geneSeed_first (mem : Nat → Int8) (sufix : Nat) :
    geneSeed mem sufix 0 0 = (Function.update mem sufix 0, 1) := by
  rw [geneSeed, dif_pos (by decide)]
  rfl

/-- A byte is counted up and never carries. -/
theorem geneSeed_next (mem : Nat → Int8) (sufix : Nat) :
    geneSeed mem sufix 1 0 = (Function.update mem sufix (mem sufix + 1), 1) := by
  have hsign : (mem sufix).toInt ≠ 255 := by
    have hlt := (mem sufix).toInt_lt
    omega
  rw [geneSeed, dif_neg (by decide)]
  exact if_neg hsign

theorem geneSeeds_succ (mem : Nat → Int8) (sufix n : Nat) :
    geneSeeds mem sufix (n + 1) = (Function.update mem sufix (.ofNat n), 1) := by
  induction n with
  | zero => exact geneSeed_first mem sufix
  | succ n ih =>
    rw [geneSeeds, ih]
    dsimp only
    rw [geneSeed_next, Function.update_self, Function.update_idem, Int8.ofNat_add]
    rfl

@[simp] theorem seedIn_geneSeeds (mem : Nat → Int8) (sufix n : Nat) :
    seedIn sufix (geneSeeds mem sufix (n + 1)) = [.ofNat n] := by
  rw [geneSeeds_succ]
  simp [seedIn]

/-- Bytes counted up are different for 256 of them. -/
theorem nodup_ofNat_iff (n : Nat) :
    ((List.range n).map fun k => ([Int8.ofNat k] : List Int8)).Nodup ↔ n ≤ 256 := by
  constructor
  · intro h
    by_contra hlt
    have heq := (List.inj_on_of_nodup_map h) (x := 0) (y := 256) (by simp; omega) (by simp; omega)
      (by decide)
    cases heq
  · intro hn
    apply List.Nodup.map_on _ List.nodup_range
    intro i hi j hj heq
    have hi := List.mem_range.1 hi
    have hj := List.mem_range.1 hj
    have hbits := congrArg Int8.toBitVec (List.singleton_inj.1 heq)
    have hnat := congrArg BitVec.toNat hbits
    simp at hnat
    omega

/-- **Seeds come again.** Those of the first calls are different if and only if there are at most
256 of them. -/
theorem geneSeed_distinct_iff (mem : Nat → Int8) (sufix n : Nat) :
    ((List.range n).map fun k => seedIn sufix (geneSeeds mem sufix (k + 1))).Nodup ↔ n ≤ 256 := by
  simp only [seedIn_geneSeeds]
  exact nodup_ofNat_iff n

/-- The last of 257 seeds is the first one. -/
theorem geneSeed_repeats :
    ¬ ((List.range 257).map fun k => seedIn 0 (geneSeeds (fun _ => 0) 0 (k + 1))).Nodup := by
  simp only [seedIn_geneSeeds]
  rw [nodup_ofNat_iff]
  decide

/-! ## The search -/

section

variable (SHA256 : List UInt8 → Vector UInt8 32)

/-- What a buffer holds when the digest of a text has been written to it. -/
def digestBuffer (input : List UInt8) (md : Nat → UInt8) : Nat → UInt8 := fun i =>
  ((SHA256 input).toList[i]?).getD (md i)

/-- Of the `length` bytes from the beginning of the buffer. -/
def simpleSHA256 (input : Nat → Int8) (length : UInt32) (md : Nat → UInt8) : Nat → UInt8 :=
  digestBuffer SHA256 ((List.range length.toNat).map fun i => (input i).toUInt8) md

structure SearchState where
  seed : Nat → Int8
  lenght : UInt32
  sha256 : Nat → UInt8

variable (address : List UInt8)

/-- The suffix is behind the address. -/
def searchStep (s : SearchState) : SearchState :=
  let (seed, lenght) := geneSeed s.seed address.length s.lenght 0
  ⟨seed, lenght, simpleSHA256 SHA256 seed lenght s.sha256⟩

def isEnd (condition : UInt32) (s : SearchState) : Bool :=
  (List.range condition.toNat).all fun id => s.sha256 id = 0

/-- The loop, for so many turns at most. -/
def searchLoop (condition : UInt32) : (turns : Nat) → SearchState → Option SearchState
  | 0, _ => none
  | turns + 1, s =>
    if isEnd condition (searchStep SHA256 address s) then some (searchStep SHA256 address s)
    else searchLoop condition turns (searchStep SHA256 address s)

def strcpy (mem : Nat → Int8) : Nat → Int8 := fun i =>
  (((c_str address).map UInt8.toInt8 ++ [0])[i]?).getD (mem i)

def strdup (sha256 : Nat → UInt8) : List UInt8 := c_str ((List.range 512).map sha256)

/-- What stops the search: an address that leaves no room for a suffix in the buffer. -/
inductive SearchFault where
  | overrun
  deriving DecidableEq

/-- The state in which the search ends and what it returns, from what the buffers hold. -/
def generateProofOfWork (condition : UInt32) (seed : Nat → Int8) (sha256 : Nat → UInt8)
    (turns : Nat) : Except SearchFault (Option (SearchState × List UInt8)) :=
  if 512 ≤ address.length then .error .overrun
  else
    .ok ((searchLoop SHA256 address condition turns ⟨strcpy address seed, 0, sha256⟩).map
      fun s => (s, strdup s.sha256))

/-- If the search ends, it returns the digest of the address and the suffix tried last, and that
begins with zeros. -/
def ReturnsProof (condition : UInt32)
    (outcome : Except SearchFault (Option (SearchState × List UInt8))) : Prop :=
  ∃ result, outcome = .ok result ∧ ∀ s proof, result = some (s, proof) →
    proof = (SHA256 (address ++
      (seedIn address.length (s.seed, s.lenght)).map Int8.toUInt8)).toList ∧
      ∀ id < condition.toNat, proof[id]? = some 0

/-! ## What is hashed -/

variable {SHA256} {address}

@[simp] theorem digestBuffer_digestBuffer (input input' : List UInt8) (md : Nat → UInt8) :
    digestBuffer SHA256 input (digestBuffer SHA256 input' md) = digestBuffer SHA256 input md := by
  funext i
  unfold digestBuffer
  by_cases h : i < 32
  · rw [List.getElem?_eq_getElem (by simpa using h)]
    rfl
  · rw [List.getElem?_eq_none (by simpa using h), List.getElem?_eq_none (by simpa using h)]
    rfl

/-- The byte that is hashed: the first one of the address, or the suffix if there is none. -/
def hashedByte (address : List UInt8) (k : Nat) : UInt8 :=
  address.headD (Int8.ofNat k).toUInt8

theorem seed_zero (seed : Nat → Int8) (k : Nat) :
    (Function.update (strcpy address seed) address.length (.ofNat k) 0).toUInt8 =
      hashedByte address k := by
  cases address with
  | nil => rfl
  | cons a rest =>
    rw [Function.update_of_ne (by simp)]
    by_cases ha : a = 0
    · subst ha
      rfl
    · simp [strcpy, c_str, hashedByte, ha]

/-- After each turn the suffix has one byte, and the digest is that of a single byte. -/
theorem iterate_searchStep (seed : Nat → Int8) (sha256 : Nat → UInt8) (k : Nat) :
    (searchStep SHA256 address)^[k + 1] ⟨strcpy address seed, 0, sha256⟩ =
      ⟨Function.update (strcpy address seed) address.length (.ofNat k), 1,
        digestBuffer SHA256 [hashedByte address k] sha256⟩ := by
  have hone : List.range (1 : UInt32).toNat = [0] := rfl
  induction k with
  | zero =>
    rw [Function.iterate_one, searchStep, geneSeed_first]
    simp only [simpleSHA256, hone, List.map_cons, List.map_nil]
    rw [← seed_zero seed 0]
    rfl
  | succ k ih =>
    rw [Function.iterate_succ_apply', ih, searchStep]
    dsimp only
    rw [geneSeed_next, Function.update_self, Function.update_idem]
    have hnext : Int8.ofNat k + 1 = Int8.ofNat (k + 1) := (Int8.ofNat_add k 1).symm
    simp only [simpleSHA256, hone, List.map_cons, List.map_nil, hnext, seed_zero,
      digestBuffer_digestBuffer]

/-! ## When the search ends -/

theorem searchLoop_eq_some {condition : UInt32} {turns : Nat} {s s' : SearchState}
    (h : searchLoop SHA256 address condition turns s = some s') :
    ∃ k, s' = (searchStep SHA256 address)^[k + 1] s ∧ isEnd condition s' = true := by
  induction turns generalizing s with
  | zero => cases h
  | succ turns ih =>
    unfold searchLoop at h
    split at h
    · rename_i hend
      cases h
      exact ⟨0, rfl, hend⟩
    · obtain ⟨k, hk, hend⟩ := ih h
      exact ⟨k + 1, hk, hend⟩

theorem searchLoop_ends {condition : UInt32} {k : Nat} {s : SearchState}
    (h : isEnd condition ((searchStep SHA256 address)^[k + 1] s) = true) :
    ∃ s', searchLoop SHA256 address condition (k + 1) s = some s' := by
  induction k generalizing s with
  | zero => exact ⟨_, by rw [searchLoop]; exact if_pos h⟩
  | succ k ih =>
    rw [searchLoop]
    split
    · exact ⟨_, rfl⟩
    · exact ih h

theorem isEnd_iff {condition : UInt32} {s : SearchState} :
    isEnd condition s = true ↔ ∀ id < condition.toNat, s.sha256 id = 0 := by
  simp [isEnd]

/-- A digest that begins with zero is copied as the empty string. -/
theorem strdup_eq_nil {condition : UInt32} (hcondition : 1 ≤ condition) {s : SearchState}
    (h : isEnd condition s = true) : strdup s.sha256 = [] := by
  have hpos : 0 < condition.toNat := UInt32.le_iff_toNat_le.1 hcondition
  have hzero := isEnd_iff.1 h 0 hpos
  have hrange : List.range 512 = 0 :: (List.range 511).map Nat.succ := List.range_succ_eq_map
  rw [strdup, hrange, List.map_cons, hzero]
  rfl

/-- The bytes of which one is hashed. -/
theorem exists_hashedByte {b : UInt8} (h : ∀ a ∈ address.head?, b = a) :
    ∃ k, hashedByte address k = b := by
  cases address with
  | nil => exact ⟨b.toNat, by simp [hashedByte]⟩
  | cons a rest => exact ⟨0, (h a rfl).symm⟩

theorem hashedByte_head (k : Nat) : ∀ a ∈ address.head?, hashedByte address k = a := by
  intro a ha
  cases address with
  | nil => cases ha
  | cons c rest => exact Option.some.inj ha

theorem generateProofOfWork_of_lt (h : address.length < 512) (condition : UInt32)
    (seed : Nat → Int8) (sha256 : Nat → UInt8) (turns : Nat) :
    generateProofOfWork SHA256 address condition seed sha256 turns =
      .ok ((searchLoop SHA256 address condition turns ⟨strcpy address seed, 0, sha256⟩).map
        fun s => (s, strdup s.sha256)) :=
  if_neg (Nat.not_le.2 h)

/-- A search that ends does not return the proof. -/
theorem not_returnsProof {condition : UInt32} (hcondition : 1 ≤ condition) {s : SearchState}
    (h : isEnd condition s = true) :
    ¬ ReturnsProof SHA256 address condition (.ok (some (s, strdup s.sha256))) := by
  rintro ⟨result, hresult, hproof⟩
  cases hresult
  have hlength := congrArg List.length (hproof s _ rfl).1
  rw [strdup_eq_nil hcondition h, Vector.length_toList] at hlength
  cases hlength

/-- **The search and its proof.** What the search is to return it returns if and only if the address
leaves room for the suffix and the search does not end: there is no zero to find in the digest of
the first byte alone, or of any byte if the address is empty. -/
theorem generateProofOfWork_iff (SHA256 : List UInt8 → Vector UInt8 32) (address : List UInt8)
    {condition : UInt32} (hcondition : 1 ≤ condition) (seed : Nat → Int8) (sha256 : Nat → UInt8) :
    (∀ turns, ReturnsProof SHA256 address condition
        (generateProofOfWork SHA256 address condition seed sha256 turns)) ↔
      address.length < 512 ∧ ∀ b, (∀ a ∈ address.head?, b = a) →
        ∃ id < condition.toNat, digestBuffer SHA256 [b] sha256 id ≠ 0 := by
  constructor
  · intro h
    have hfits : address.length < 512 := by
      by_contra hlong
      obtain ⟨result, hresult, -⟩ := h 0
      rw [generateProofOfWork, if_pos (Nat.not_lt.1 hlong)] at hresult
      cases hresult
    refine ⟨hfits, fun b hb => ?_⟩
    by_contra hzeros
    push Not at hzeros
    obtain ⟨k, hk⟩ := exists_hashedByte hb
    -- the turn at which the byte is hashed is the last one, if there was none before
    have hend : isEnd condition ((searchStep SHA256 address)^[k + 1]
        ⟨strcpy address seed, 0, sha256⟩) = true := by
      rw [iterate_searchStep, hk, isEnd_iff]
      exact hzeros
    obtain ⟨s, hs⟩ := searchLoop_ends hend
    obtain ⟨-, -, hlast⟩ := searchLoop_eq_some hs
    have hproof := h (k + 1)
    rw [generateProofOfWork_of_lt hfits, hs] at hproof
    exact not_returnsProof hcondition hlast hproof
  · rintro ⟨hfits, hzeros⟩ turns
    rw [generateProofOfWork_of_lt hfits]
    refine ⟨_, rfl, fun s proof hresult => ?_⟩
    obtain ⟨s', hs, -⟩ := Option.map_eq_some_iff.1 hresult
    obtain ⟨k, rfl, hlast⟩ := searchLoop_eq_some hs
    rw [iterate_searchStep, isEnd_iff] at hlast
    obtain ⟨id, hid, hne⟩ := hzeros _ (hashedByte_head k)
    exact absurd (hlast id hid) hne

end

/-- A digest of a zero and ones for the text `A`, and of ones for other texts. -/
def sampleDigest (text : List UInt8) : Vector UInt8 32 :=
  Vector.ofFn fun i => if text = [65] ∧ i.val = 0 then 0 else 1

theorem generateProofOfWork_iff_oneByte :
    (∀ turns, ReturnsProof sampleDigest [65, 66] 1
        (generateProofOfWork sampleDigest [65, 66] 1 (fun _ => 0) (fun _ => 0) turns)) ↔
      ([65, 66] : List UInt8).length < 512 ∧ ∀ b, (∀ a ∈ ([65, 66] : List UInt8).head?, b = a) →
        ∃ id < (1 : UInt32).toNat, digestBuffer sampleDigest [b] (fun _ => 0) id ≠ 0 :=
  generateProofOfWork_iff sampleDigest [65, 66] (by decide) _ _

/-- The search for `AB` ends at the digest of `A`, which does not bind the rest of the address, and
returns no byte of it. -/
theorem generateProofOfWork_unbound :
    ∃ s, generateProofOfWork sampleDigest [65, 66] 1 (fun _ => 0) (fun _ => 0) 1 =
        .ok (some (s, [])) ∧
      ¬ ReturnsProof sampleDigest [65, 66] 1
        (generateProofOfWork sampleDigest [65, 66] 1 (fun _ => 0) (fun _ => 0) 1) := by
  have hend : isEnd 1 ((searchStep sampleDigest [65, 66])^[0 + 1]
      ⟨strcpy [65, 66] fun _ => 0, 0, fun _ => 0⟩) = true := by
    rw [iterate_searchStep]
    decide
  obtain ⟨s, hs⟩ := searchLoop_ends hend
  obtain ⟨-, -, hlast⟩ := searchLoop_eq_some hs
  have hrun : generateProofOfWork sampleDigest [65, 66] 1 (fun _ => 0) (fun _ => 0) 1 =
      .ok (some (s, strdup s.sha256)) := by
    rw [generateProofOfWork_of_lt (by decide), hs]
    rfl
  rw [hrun]
  refine ⟨s, ?_, not_returnsProof (by decide) hlast⟩
  rw [strdup_eq_nil (by decide) hlast]

end TriTip.TTcoin
