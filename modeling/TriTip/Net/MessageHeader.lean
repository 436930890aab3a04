import TriTip.Lib.LittleEndian

/-!
# Message headers

`CMessageHeader` of `protocol.cpp`: twenty-four bytes, the message start of the network, a command
padded with zeros, the size of the payload and the first four bytes of its hash. A C string is the
list of its characters. The headers built from a command are valid and give the command back
(`GetCommand_ofCommand`), and every valid header is built from its own command
(`ofCommand_GetCommand`).
-/

namespace TriTip

def COMMAND_SIZE : Nat := 12

def MAX_SIZE : UInt32 := 0x02000000

/-- The characters of a command. -/
def chars (command : String) : List UInt8 :=
  command.toList.map fun ch => UInt8.ofNat ch.toNat

structure CMessageHeader where
  pchMessageStart : Vector UInt8 4
  pchCommand : Vector UInt8 12
  nMessageSize : UInt32
  nChecksum : UInt32
  deriving DecidableEq

/-- `strncpy`: the characters before the end of the string, at most `n`, and zeros after them. -/
def strncpy (n : Nat) (psz : List UInt8) : Vector UInt8 n :=
  ⟨(((psz.takeWhile (· ≠ 0)).take n) ++
    List.replicate (n - ((psz.takeWhile (· ≠ 0)).take n).length) 0).toArray, by simp⟩

theorem toList_strncpy (n : Nat) (psz : List UInt8) : (strncpy n psz).toList =
    ((psz.takeWhile (· ≠ 0)).take n) ++
      List.replicate (n - ((psz.takeWhile (· ≠ 0)).take n).length) 0 := rfl

namespace CMessageHeader

/-- `CMessageHeader()`. -/
def default (netMessageStart : Vector UInt8 4) : CMessageHeader where
  pchMessageStart := netMessageStart
  pchCommand := #v[0, 1, 0, 0, 0, 0, 0, 0, 0, 0, 0, 0]
  nMessageSize := -1
  nChecksum := 0

/-- `CMessageHeader(pszCommand, nMessageSizeIn)`. -/
def ofCommand (netMessageStart : Vector UInt8 4) (pszCommand : List UInt8)
    (nMessageSizeIn : UInt32) :
    CMessageHeader where
  pchMessageStart := netMessageStart
  pchCommand := strncpy 12 pszCommand
  nMessageSize := nMessageSizeIn
  nChecksum := 0

def GetCommand (hdr : CMessageHeader) : List UInt8 :=
  if hdr.pchCommand[11] = 0 then hdr.pchCommand.toList.takeWhile (· ≠ 0) else hdr.pchCommand.toList

/-- The scan of the command for errors. -/
def commandOk : List UInt8 → Bool
  | [] => true
  | p :: rest =>
    -- Must be all zeros after the first zero
    if p = 0 then rest.all (· = 0)
    else if p < 0x20 ∨ 0x7E < p then false
    else commandOk rest

def IsValid (netMessageStart : Vector UInt8 4) (hdr : CMessageHeader) : Bool :=
  if hdr.pchMessageStart ≠ netMessageStart then false
  else if !commandOk hdr.pchCommand.toList then false
  else if MAX_SIZE < hdr.nMessageSize then false
  else true

/-- The twenty-four bytes. -/
def encode (hdr : CMessageHeader) : List UInt8 :=
  (Codec.bytes 4).write hdr.pchMessageStart ++ ((Codec.bytes 12).write hdr.pchCommand ++
    (Codec.uint32.write hdr.nMessageSize ++ Codec.uint32.write hdr.nChecksum))

def decode : Parser CMessageHeader := do
  let pchMessageStart ← (Codec.bytes 4).read
  let pchCommand ← (Codec.bytes 12).read
  let nMessageSize ← Codec.uint32.read
  let nChecksum ← Codec.uint32.read
  pure { pchMessageStart, pchCommand, nMessageSize, nChecksum }

theorem length_encode (hdr : CMessageHeader) : hdr.encode.length = 24 := by
  simp [encode, Codec.bytes, Codec.uint32, Codec.little]

theorem decode_encode (hdr : CMessageHeader) (rest : List UInt8) :
    decode (hdr.encode ++ rest) = some (hdr, rest) := by
  unfold encode decode
  simp only [List.append_assoc]
  refine Parser.bind_eq_some.2 ⟨_, _, Codec.bytes_roundTrips _ _, ?_⟩
  refine Parser.bind_eq_some.2 ⟨_, _, Codec.bytes_roundTrips _ _, ?_⟩
  refine Parser.bind_eq_some.2 ⟨_, _, Codec.uint32_roundTrips _ _, ?_⟩
  exact Parser.bind_eq_some.2 ⟨_, _, Codec.uint32_roundTrips _ _, rfl⟩

/-! ## Commands -/

/-- A command that can be sent: one to twelve characters from `!` to `~`. -/
structure Sendable (command : List UInt8) : Prop where
  length_pos : 0 < command.length
  length_le : command.length ≤ 12
  chars : ∀ p ∈ command, 0x21 ≤ p ∧ p ≤ 0x7E

theorem Sendable.ne_zero {command : List UInt8} (h : Sendable command) {p : UInt8}
    (hp : p ∈ command) : p ≠ 0 := by
  rintro rfl
  exact absurd (h.chars 0 hp).1 (by decide)

theorem strncpy_of_sendable {command : List UInt8} (h : Sendable command) :
    (strncpy 12 command).toList = command ++ List.replicate (12 - command.length) 0 := by
  have hall : command.takeWhile (· ≠ 0) = command :=
    List.takeWhile_eq_self_iff.2 fun p hp => decide_eq_true (h.ne_zero hp)
  rw [toList_strncpy, hall, List.take_of_length_le h.length_le]

theorem commandOk_append {command : List UInt8} (h : ∀ p ∈ command, 0x21 ≤ p ∧ p ≤ 0x7E) (n : Nat) :
    commandOk (command ++ List.replicate n 0) = true := by
  induction command with
  | nil =>
    cases n with
    | zero => rfl
    | succ n =>
      rw [List.nil_append, List.replicate_succ, commandOk, if_pos rfl]
      simp
  | cons p rest ih =>
    obtain ⟨hlow, hhigh⟩ := h p List.mem_cons_self
    have hp0 : p ≠ 0 := by
      rintro rfl
      exact absurd hlow (by decide)
    have hno : ¬(p < 0x20 ∨ 0x7E < p) := by
      rw [UInt8.lt_iff_toNat_lt, UInt8.lt_iff_toNat_lt]
      rw [UInt8.le_iff_toNat_le] at hlow hhigh
      simp at hlow hhigh ⊢
      omega
    rw [List.cons_append, commandOk, if_neg hp0, if_neg hno]
    exact ih fun q hq => h q (List.mem_cons_of_mem p hq)

/-- The twelfth character of a command. -/
theorem getElem_eleven (pch : Vector UInt8 12) : pch.toList[11]? = some pch[11] := by
  rw [Vector.getElem?_toList]
  simp

/-- **The header built from a command gives the command back**, also one of twelve characters, which
has no zero after it. -/
theorem GetCommand_ofCommand (netMessageStart : Vector UInt8 4) {command : List UInt8}
    (h : Sendable command) (nMessageSize : UInt32) :
    (ofCommand netMessageStart command nMessageSize).GetCommand = command := by
  have hlist := strncpy_of_sendable h
  have hlast := getElem_eleven (strncpy 12 command)
  unfold GetCommand ofCommand
  dsimp only
  rw [hlist]
  by_cases hlen : command.length = 12
  · have hne : (strncpy 12 command)[11] ≠ 0 := by
      rw [hlist, hlen] at hlast
      simp only [Nat.sub_self, List.replicate_zero, List.append_nil] at hlast
      exact h.ne_zero (List.mem_of_getElem? hlast)
    rw [if_neg hne, hlen, Nat.sub_self, List.replicate_zero, List.append_nil]
  · have hle := h.length_le
    have hzero : (strncpy 12 command)[11] = 0 := by
      rw [hlist, List.getElem?_append_right (by omega), List.getElem?_replicate] at hlast
      rw [if_pos (by omega)] at hlast
      exact (Option.some.inj hlast).symm
    rw [if_pos hzero]
    obtain ⟨n, hn⟩ : ∃ n, 12 - command.length = n + 1 := ⟨11 - command.length, by omega⟩
    rw [hn, List.takeWhile_append_of_pos fun p hp => decide_eq_true (h.ne_zero hp)]
    simp [List.replicate_succ]

theorem IsValid_ofCommand (netMessageStart : Vector UInt8 4) {command : List UInt8}
    (h : Sendable command) {nMessageSize : UInt32} (hsize : nMessageSize ≤ MAX_SIZE)
    (nChecksum : UInt32) :
    IsValid netMessageStart { ofCommand netMessageStart command nMessageSize with nChecksum } =
      true := by
  unfold IsValid ofCommand
  dsimp only
  rw [if_neg (not_not.2 rfl), strncpy_of_sendable h, commandOk_append h.chars,
    if_neg (by decide), if_neg (UInt32.not_lt.2 hsize)]

/-- After its first zero a command without errors is zeros. -/
theorem eq_of_commandOk {l : List UInt8} (h : commandOk l = true) :
    l = l.takeWhile (· ≠ 0) ++ List.replicate (l.length - (l.takeWhile (· ≠ 0)).length) 0 := by
  induction l with
  | nil => rfl
  | cons p rest ih =>
    unfold commandOk at h
    by_cases hp : p = 0
    · rw [if_pos hp] at h
      have hzeros : rest = List.replicate rest.length 0 :=
        List.eq_replicate_iff.2 ⟨rfl, fun q hq => of_decide_eq_true (List.all_eq_true.1 h q hq)⟩
      rw [List.takeWhile_cons_of_neg (by simpa using hp), List.nil_append, List.length_nil,
        Nat.sub_zero, List.length_cons, List.replicate_succ, ← hzeros, hp]
    · rw [if_neg hp] at h
      split at h
      · cases h
      · rw [List.takeWhile_cons_of_pos (by simpa using hp), List.cons_append, List.length_cons,
          List.length_cons, Nat.add_sub_add_right, ← ih h]

/-- **A valid header is the header of its command**, with its size and checksum. -/
theorem ofCommand_GetCommand {netMessageStart : Vector UInt8 4} {hdr : CMessageHeader}
    (h : IsValid netMessageStart hdr = true) :
    { ofCommand netMessageStart hdr.GetCommand hdr.nMessageSize with nChecksum := hdr.nChecksum } =
      hdr := by
  unfold IsValid at h
  split_ifs at h with hstart hcommand
  rw [Bool.not_eq_true', Bool.not_eq_false] at hcommand
  have hpad := eq_of_commandOk hcommand
  have hlen : hdr.pchCommand.toList.length = 12 := hdr.pchCommand.length_toList
  set l := hdr.pchCommand.toList with hl
  set text := l.takeWhile (· ≠ 0) with htext
  have hle : text.length ≤ 12 := by
    rw [← hlen]
    exact (List.takeWhile_sublist _).length_le
  -- what is copied is the text before the first zero, whether there is one or not
  have htake : hdr.GetCommand.takeWhile (· ≠ 0) = text := by
    unfold GetCommand
    split
    · rw [List.takeWhile_takeWhile, ← hl]
      simp [htext]
    · rfl
  have hcopy : (strncpy 12 hdr.GetCommand).toList = l := by
    rw [toList_strncpy, htake, List.take_of_length_le hle]
    conv => rhs; rw [hpad, hlen]
  unfold ofCommand
  rw [← not_not.1 hstart, Vector.toList_inj.1 hcopy]

end CMessageHeader

end TriTip
