import TriTip.LevelDB.Log

/-!
# Records that were written are read back

`Laid` says which bytes a record takes from an offset of a block on, fragment by fragment. The
writer lays its records (`addFragments_laid`), the reader reads laid records
(`readFragments_laid`), and it ends where a record is cut off (`readFragments_cut`).
-/

namespace TriTip.leveldb

variable (F : LogFormat)

/-! ## Layout -/

/-- The offset of a fragment that is written at an offset of a block. -/
def startOf (o : Nat) : Nat := if F.kBlockSize - o < kHeaderSize then 0 else o

/-- The room there is for its data. -/
def availAt (o : Nat) : Nat := F.kBlockSize - startOf F o - kHeaderSize

/-- The zeros before it. -/
def trailerAt (o : Nat) : List UInt8 :=
  if F.kBlockSize - o < kHeaderSize then List.replicate (F.kBlockSize - o) 0 else []

/-- The bytes of a fragment, with the trailer of the block before it. -/
def emitAt (o : Nat) (t : RecordType) (data : List UInt8) : List UInt8 :=
  trailerAt F o ++ (formatHeader F t data ++ data)

/-- The offset behind it. -/
def endOf (o : Nat) (data : List UInt8) : Nat := startOf F o + (kHeaderSize + data.length)

open LogWriter in
/-- From an offset on, what is left of a record takes these bytes, up to another offset. -/
inductive Laid : Nat → Bool → List UInt8 → List UInt8 → Nat → Prop
  | last {o : Nat} {begin : Bool} {left : List UInt8} (h : left.length ≤ availAt F o) :
      Laid o begin left (emitAt F o (fragmentType begin true) left) (endOf F o left)
  | more {o o' : Nat} {begin : Bool} {left bytes : List UInt8} (h : availAt F o < left.length)
      (hrest : Laid (endOf F o (left.take (availAt F o))) false (left.drop (availAt F o))
        bytes o') :
      Laid o begin left
        (emitAt F o (fragmentType begin false) (left.take (availAt F o)) ++ bytes) o'

@[simp] theorem length_formatHeader (t : RecordType) (data : List UInt8) :
    (formatHeader F t data).length = kHeaderSize := by
  simp [formatHeader, kHeaderSize]

theorem startOf_le (o : Nat) : startOf F o + kHeaderSize ≤ F.kBlockSize := by
  have hlt := F.header_lt
  have hheader : kHeaderSize = 7 := rfl
  unfold startOf
  split <;> omega

theorem endOf_le {o : Nat} {data : List UInt8} (h : data.length ≤ availAt F o) :
    endOf F o data ≤ F.kBlockSize := by
  have hle := startOf_le F o
  unfold endOf
  unfold availAt at h
  omega

/-- The end of a block is the beginning of the next one. -/
theorem startOf_kBlockSize : startOf F F.kBlockSize = 0 := by
  have hpos : 0 < kHeaderSize := by decide
  simp [startOf, hpos]

theorem startOf_zero : startOf F 0 = 0 := by simp [startOf]

theorem emitAt_kBlockSize (t : RecordType) (data : List UInt8) :
    emitAt F F.kBlockSize t data = emitAt F 0 t data := by
  have hlt := F.header_lt
  simp [emitAt, trailerAt, Nat.not_lt.2 hlt.le]

theorem laid_kBlockSize {begin : Bool} {left bytes : List UInt8} {o' : Nat}
    (h : Laid F 0 begin left bytes o') : Laid F F.kBlockSize begin left bytes o' := by
  have hstart : startOf F F.kBlockSize = startOf F 0 := by
    rw [startOf_kBlockSize, startOf_zero]
  have havail : availAt F F.kBlockSize = availAt F 0 := by rw [availAt, hstart, availAt]
  have hend : ∀ data, endOf F F.kBlockSize data = endOf F 0 data := by
    intro data
    rw [endOf, hstart, endOf]
  cases h with
  | last h =>
    rw [← emitAt_kBlockSize, ← hend]
    exact .last (havail ▸ h)
  | more h hrest =>
    rw [← emitAt_kBlockSize, ← havail]
    rw [← havail, ← hend] at hrest
    exact .more (havail ▸ h) hrest

/-! ## The writer -/

namespace WritableFile

variable (file : WritableFile) (a b : List UInt8)

theorem Append_Append : ((file.Append a).1.Append b).1 = (file.Append (a ++ b)).1 := by
  cases h : file.room with
  | none => simp [Append, h]
  | some room => simp [Append, h, List.take_append, Nat.sub_sub]

theorem Append_ok : ((file.Append a).2 && ((file.Append a).1.Append b).2) =
    (file.Append (a ++ b)).2 := by
  cases h : file.room with
  | none => simp [Append, h]
  | some room =>
    simp only [Append, h, List.length_append, ← Bool.decide_and, decide_eq_decide]
    omega

/-- After a failure nothing more is written. -/
theorem Append_of_failed (h : (file.Append a).2 = false) :
    ((file.Append a).1.Append b).1 = (file.Append a).1 := by
  cases hroom : file.room with
  | none => simp [Append, hroom] at h
  | some room =>
    simp only [Append, hroom, decide_eq_false_iff_not, Nat.not_le] at h
    simp [Append, hroom, Nat.sub_eq_zero_of_le h.le]

theorem Append_nil : file.Append [] = (file, true) := by
  obtain ⟨contents, room⟩ := file
  cases room with
  | none => simp [Append]
  | some room => simp [Append]

/-- After a failure nothing more can be written. -/
theorem Append_ok_of_failed (h : (file.Append a).2 = false) (hb : b ≠ []) :
    ((file.Append a).1.Append b).2 = false := by
  cases hroom : file.room with
  | none => simp [Append, hroom] at h
  | some room =>
    simp only [Append, hroom, decide_eq_false_iff_not, Nat.not_le] at h
    simp [Append, hroom, Nat.sub_eq_zero_of_le h.le, hb]

end WritableFile

namespace LogWriter

theorem dest_switchBlock (w : LogWriter) :
    (w.switchBlock F).dest = (w.dest.Append (trailerAt F w.block_offset)).1 := by
  unfold switchBlock trailerAt
  simp only
  split
  · split
    · rfl
    · next h => rw [Nat.eq_zero_of_not_pos h, List.replicate_zero, WritableFile.Append_nil]
  · rw [WritableFile.Append_nil]

theorem dest_EmitPhysicalRecord (w : LogWriter) (t : RecordType) (data : List UInt8) :
    (w.EmitPhysicalRecord F t data).1.dest = (w.dest.Append (formatHeader F t data ++ data)).1 ∧
      (w.EmitPhysicalRecord F t data).2 = (w.dest.Append (formatHeader F t data ++ data)).2 := by
  have hfile := w.dest.Append_Append (formatHeader F t data) data
  have hok := w.dest.Append_ok (formatHeader F t data) data
  unfold EmitPhysicalRecord
  simp only
  cases h : (w.dest.Append (formatHeader F t data)).2 with
  | true =>
    rw [h, Bool.true_and] at hok
    exact ⟨hfile, hok⟩
  | false =>
    rw [h, Bool.false_and] at hok
    rw [WritableFile.Append_of_failed _ _ _ h] at hfile
    exact ⟨hfile, hok⟩

/-- A fragment, with the trailer before it. -/
theorem EmitPhysicalRecord_switchBlock (w : LogWriter) (t : RecordType) (data : List UInt8) :
    ((w.switchBlock F).EmitPhysicalRecord F t data).1.dest =
        (w.dest.Append (emitAt F w.block_offset t data)).1 ∧
      ((w.switchBlock F).EmitPhysicalRecord F t data).2 =
        (w.dest.Append (emitAt F w.block_offset t data)).2 ∧
      ((w.switchBlock F).EmitPhysicalRecord F t data).1.block_offset =
        endOf F w.block_offset data := by
  obtain ⟨hdest, hok⟩ := dest_EmitPhysicalRecord F (w.switchBlock F) t data
  have hne : formatHeader F t data ++ data ≠ [] := by
    intro hnil
    have hlen := congrArg List.length hnil
    rw [List.length_append, length_formatHeader] at hlen
    exact absurd hlen (by simp [kHeaderSize])
  rw [dest_switchBlock] at hdest hok
  rw [WritableFile.Append_Append] at hdest
  refine ⟨hdest, hok.trans ?_, ?_⟩
  · have hboth := w.dest.Append_ok (trailerAt F w.block_offset) (formatHeader F t data ++ data)
    cases htrailer : (w.dest.Append (trailerAt F w.block_offset)).2 with
    | true => rwa [htrailer, Bool.true_and] at hboth
    | false =>
      rw [htrailer, Bool.false_and] at hboth
      rw [emitAt, ← hboth, WritableFile.Append_ok_of_failed _ _ _ htrailer hne]
  · rw [block_offset_EmitPhysicalRecord, block_offset_switchBlock]
    rfl

/-- A fragment that does not end the record takes something off it, or fills a block. -/
theorem length_drop_lt {o : Nat} {left : List UInt8} (h : availAt F o < left.length) :
    2 * (left.drop (availAt F o)).length +
        (if F.kBlockSize - endOf F o (left.take (availAt F o)) = kHeaderSize then 1 else 0) <
      2 * left.length + if F.kBlockSize - o = kHeaderSize then 1 else 0 := by
  have hnot : ¬left.length < F.kBlockSize - startOf F o - kHeaderSize := Nat.lt_asymm h
  have hstart : startOf F o = if F.kBlockSize - o < kHeaderSize then 0 else o := rfl
  rw [List.length_drop]
  exact measure_lt F.header_lt hstart (if_neg hnot).symm List.length_take (Nat.sub_pos_of_lt h)

/-- What the rest of a record takes, however much of it is written. -/
theorem exists_laid (o : Nat) (begin : Bool) (left : List UInt8) :
    ∃ bytes o', Laid F o begin left bytes o' := by
  induction hm : 2 * left.length + (if F.kBlockSize - o = kHeaderSize then 1 else 0)
    using Nat.strong_induction_on generalizing o begin left with
  | _ m ih =>
    subst hm
    rcases Nat.lt_or_ge (availAt F o) left.length with h | h
    · obtain ⟨bytes, o', hrest⟩ := ih _ (length_drop_lt F h) _ false _ rfl
      exact ⟨_, _, .more h hrest⟩
    · exact ⟨_, _, .last h⟩

theorem avail_switchBlock (w : LogWriter) :
    F.kBlockSize - (w.switchBlock F).block_offset - kHeaderSize = availAt F w.block_offset := by
  rw [block_offset_switchBlock]
  rfl

/-- The loop ends with a fragment that is the last one. -/
theorem addFragments_of_le {w : LogWriter} {left : List UInt8}
    (h : left.length ≤ availAt F w.block_offset) (begin : Bool) :
    addFragments F w begin left =
      (w.switchBlock F).EmitPhysicalRecord F (fragmentType begin true) left := by
  have hlength : (if left.length < availAt F w.block_offset then left.length
      else availAt F w.block_offset) = left.length := by
    split
    · rfl
    · next hge => exact Nat.le_antisymm (Nat.le_of_not_lt hge) h
  rw [addFragments]
  simp only [avail_switchBlock, hlength, List.take_length, Nat.sub_self, Nat.lt_irrefl, and_false,
    if_false, decide_true]

/-- Otherwise it goes on, unless the fragment cannot be written. -/
theorem addFragments_of_lt {w : LogWriter} {left : List UInt8}
    (h : availAt F w.block_offset < left.length) (begin : Bool) :
    addFragments F w begin left =
      if ((w.switchBlock F).EmitPhysicalRecord F (fragmentType begin false)
          (left.take (availAt F w.block_offset))).2 = true then
        addFragments F ((w.switchBlock F).EmitPhysicalRecord F (fragmentType begin false)
          (left.take (availAt F w.block_offset))).1 false (left.drop (availAt F w.block_offset))
      else (w.switchBlock F).EmitPhysicalRecord F (fragmentType begin false)
        (left.take (availAt F w.block_offset)) := by
  have hlast : decide (left.length = availAt F w.block_offset) = false :=
    decide_eq_false (Nat.ne_of_gt h)
  have hpos : 0 < left.length - availAt F w.block_offset := Nat.sub_pos_of_lt h
  rw [addFragments]
  simp only [avail_switchBlock, if_neg (Nat.lt_asymm h), hlast, hpos, and_true]

/-- **The writer lays a record**, as far as there is room. -/
theorem addFragments_laid (w : LogWriter) (begin : Bool) (left : List UInt8) :
    ∃ bytes o', Laid F w.block_offset begin left bytes o' ∧
      (addFragments F w begin left).1.dest = (w.dest.Append bytes).1 ∧
      (addFragments F w begin left).2 = (w.dest.Append bytes).2 ∧
      ((addFragments F w begin left).2 = true →
        (addFragments F w begin left).1.block_offset = o') := by
  induction hm : 2 * left.length + (if F.kBlockSize - w.block_offset = kHeaderSize then 1 else 0)
    using Nat.strong_induction_on generalizing w begin left with
  | _ m ih =>
    subst hm
    rcases Nat.lt_or_ge (availAt F w.block_offset) left.length with h | h
    · have hlt := length_drop_lt F h
      obtain ⟨hdest, hok, hoffset⟩ := EmitPhysicalRecord_switchBlock F w (fragmentType begin false)
        (left.take (availAt F w.block_offset))
      rw [addFragments_of_lt F h]
      generalize (w.switchBlock F).EmitPhysicalRecord F (fragmentType begin false)
        (left.take (availAt F w.block_offset)) = emitted at hdest hok hoffset ⊢
      obtain ⟨w', ok⟩ := emitted
      simp only at hdest hok hoffset ⊢
      cases ok with
      | true =>
        rw [← hoffset] at hlt
        obtain ⟨bytes, o', hlaid, hdest', hok', hoffset'⟩ := ih _ hlt w' false _ rfl
        rw [hoffset] at hlaid
        refine ⟨_, o', .more h hlaid, ?_, ?_, hoffset'⟩
        · rw [if_pos rfl, hdest', hdest, WritableFile.Append_Append]
        · rw [if_pos rfl, hok', hdest, ← WritableFile.Append_ok, ← hok, Bool.true_and]
      | false =>
        obtain ⟨bytes, o', hlaid⟩ := exists_laid F (endOf F w.block_offset
          (left.take (availAt F w.block_offset))) false (left.drop (availAt F w.block_offset))
        refine ⟨_, o', .more h hlaid, ?_, ?_, fun hfalse => nomatch hfalse⟩
        · rw [if_neg Bool.false_ne_true, hdest, ← WritableFile.Append_Append,
            WritableFile.Append_of_failed _ _ _ hok.symm]
        · rw [if_neg Bool.false_ne_true, ← WritableFile.Append_ok, ← hok, Bool.false_and]
    · obtain ⟨hdest, hok, hoffset⟩ := EmitPhysicalRecord_switchBlock F w (fragmentType begin true)
        left
      rw [addFragments_of_le F h]
      exact ⟨_, _, .last h, hdest, hok, fun _ => hoffset⟩

end LogWriter

/-! ## The reader -/

namespace LogReader

variable {F} {r : LogReader} {o : Nat} {t : RecordType} {bytes data rest : List UInt8}

/-- What a file still gives, up to the read that fails. -/
def delivers (F : LogFormat) (file : SequentialFile) : List UInt8 :=
  match file.reads with
  | none => file.rest
  | some n => file.rest.take (n * F.kBlockSize)

/-- A reader at an offset of a block with these bytes to come: the rest of the block is in the
buffer. -/
structure At (F : LogFormat) (r : LogReader) (o : Nat) (bytes : List UInt8) : Prop where
  buffer : r.buffer = bytes.take (F.kBlockSize - o)
  file : delivers F r.file = bytes.drop (F.kBlockSize - o)
  eof : r.eof = decide (bytes.length < F.kBlockSize - o)
  initial : r.initial_offset = 0

theorem Read_eq (file : SequentialFile) :
    (file.Read F.kBlockSize = none ∧ delivers F file = []) ∨
      ∃ file', file.Read F.kBlockSize = some ((delivers F file).take F.kBlockSize, file') ∧
        delivers F file' = (delivers F file).drop F.kBlockSize := by
  obtain ⟨contents, reads⟩ := file
  match reads with
  | none => exact Or.inr ⟨⟨contents.drop F.kBlockSize, none⟩, rfl, rfl⟩
  | some 0 => exact Or.inl ⟨rfl, by simp [delivers]⟩
  | some (n + 1) =>
    have hle : F.kBlockSize ≤ (n + 1) * F.kBlockSize := Nat.le_mul_of_pos_left _ (Nat.succ_pos n)
    have hsub : (n + 1) * F.kBlockSize - F.kBlockSize = n * F.kBlockSize := by
      rw [Nat.add_one_mul, Nat.add_sub_cancel]
    refine Or.inr ⟨⟨contents.drop F.kBlockSize, some n⟩, ?_, ?_⟩
    · simp [SequentialFile.Read, delivers, List.take_take, Nat.min_eq_left hle]
    · simp [delivers, List.drop_take, hsub]

/-- At the end of a block the next one is read, or there is none. -/
theorem At.refill (h : At F r o bytes) (hshort : F.kBlockSize - o < kHeaderSize)
    (hfull : F.kBlockSize - o ≤ bytes.length) :
    (∃ r', At F r' 0 (bytes.drop (F.kBlockSize - o)) ∧
        ReadPhysicalRecord F r = ReadPhysicalRecord F r') ∨
      (bytes.drop (F.kBlockSize - o) = [] ∧ (ReadPhysicalRecord F r).2.1 = F.kEof) := by
  have hbuffer : r.buffer.length < kHeaderSize := by
    rw [h.buffer, List.length_take]
    omega
  have heof : r.eof = false := by
    rw [h.eof, decide_eq_false_iff_not]
    omega
  rcases Read_eq (F := F) r.file with ⟨hread, hnone⟩ | ⟨file', hread, hfile'⟩
  · right
    rw [h.file] at hnone
    rw [ReadPhysicalRecord, if_pos hbuffer, if_pos heof, hread]
    exact ⟨hnone, rfl⟩
  · left
    rw [h.file] at hread hfile'
    rw [ReadPhysicalRecord, if_pos hbuffer, if_pos heof, hread]
    refine ⟨_, ?_, rfl⟩
    refine ⟨rfl, ?_, ?_, h.initial⟩
    · simpa using hfile'
    · simp only [Nat.sub_zero, decide_eq_decide, List.length_take]
      omega

theorem ReadPhysicalRecord_of_ended (heof : r.eof = true) (hbuffer : r.buffer = []) :
    ReadPhysicalRecord F r = (r, F.kEof, []) := by
  have hshort : r.buffer.length < kHeaderSize := by
    rw [hbuffer]
    decide
  rw [ReadPhysicalRecord, if_pos hshort, if_neg (by simp [heof]), if_pos (by simp [hbuffer])]

/-- The length in a header. -/
theorem length_of_header (n : Nat) (h : n ≤ 0xffff) :
    (UInt8.ofNat n).toNat + 256 * (UInt8.ofNat (n / 256)).toNat = n := by
  simp only [UInt8.toNat_ofNat']
  omega

theorem typeOf_number (t : RecordType) : typeOf (UInt8.ofNat (F.number t)) = F.number t := by
  have hlt := F.number_lt t
  have hbyte : (UInt8.ofNat (F.number t)).toNat = F.number t := by
    rw [UInt8.toNat_ofNat']
    omega
  have hchar : UInt8.ofNat (F.number t) < 128 := by
    rw [UInt8.lt_iff_toNat_lt, hbyte]
    exact hlt
  rw [typeOf, if_pos hchar, hbyte]

/-- The bytes of a header. -/
theorem formatHeader_eq (t : RecordType) (data : List UInt8) : ∃ a b c d,
    formatHeader F t data = [a, b, c, d, UInt8.ofNat data.length, UInt8.ofNat (data.length / 256),
      UInt8.ofNat (F.number t)] := ⟨_, _, _, _, rfl⟩

/-- A whole fragment in the buffer is parsed. -/
theorem parseRecord_formatHeader {tail : List UInt8} (hinitial : r.initial_offset = 0)
    (ht : t ≠ .kZeroType) (hdata : data.length ≤ 0xffff)
    (hbuffer : r.buffer = formatHeader F t data ++ (data ++ tail)) :
    r.parseRecord F = ({ r with buffer := tail }, F.number t, data) := by
  have hzero : F.number t ≠ F.number .kZeroType := fun heq => ht (F.number_inj _ _ heq)
  have hcrc : F.Unmask (DecodeFixed32 r.buffer) =
      F.Extend 0 (UInt8.ofNat (F.number t) :: data) := by
    rw [hbuffer, formatHeader, List.append_assoc, DecodeFixed32_append, F.unmask_mask, type_crc,
      F.extend_append, List.singleton_append]
  obtain ⟨a, b, c, d, hheader⟩ := formatHeader_eq (F := F) t data
  have hlong : ¬r.buffer.length < kHeaderSize + data.length := by
    rw [hbuffer, hheader]
    simp [kHeaderSize]
    omega
  have hpayload : (r.buffer.drop 6).take (1 + data.length) = UInt8.ofNat (F.number t) :: data := by
    rw [hbuffer, hheader, Nat.add_comm]
    simp
  have hdrop : r.buffer.drop (kHeaderSize + data.length) = tail := by
    rw [hbuffer, hheader, Nat.add_comm]
    simp [kHeaderSize]
  have htake : (r.buffer.drop kHeaderSize).take data.length = data := by
    rw [hbuffer, hheader]
    simp [kHeaderSize]
  have hget : r.buffer.getD 4 0 = UInt8.ofNat data.length ∧
      r.buffer.getD 5 0 = UInt8.ofNat (data.length / 256) ∧
      r.buffer.getD 6 0 = UInt8.ofNat (F.number t) := by
    rw [hbuffer, hheader]
    exact ⟨rfl, rfl, rfl⟩
  unfold parseRecord
  simp only [hget, length_of_header _ hdata, typeOf_number, if_neg hlong, hzero, false_and,
    if_false, hpayload, hcrc, ne_eq, not_true_eq_false, and_false, hinitial, hdrop, htake]
  rw [if_neg (by simp)]

/-- A fragment that there is room for in the block is read. -/
theorem At.read_here (h : At F r o (formatHeader F t data ++ (data ++ rest)))
    (ht : t ≠ .kZeroType) (hfits : kHeaderSize + data.length ≤ F.kBlockSize - o) :
    ∃ r', ReadPhysicalRecord F r = (r', F.number t, data) ∧
      At F r' (o + (kHeaderSize + data.length)) rest := by
  have hblock := F.block_le
  have hheader := length_formatHeader F t data
  have hbuffer : r.buffer = formatHeader F t data ++
      (data ++ rest.take (F.kBlockSize - (o + (kHeaderSize + data.length)))) := by
    rw [h.buffer, List.take_append, hheader, List.take_append,
      List.take_of_length_le (by omega : (formatHeader F t data).length ≤ F.kBlockSize - o),
      List.take_of_length_le (by omega : data.length ≤ F.kBlockSize - o - kHeaderSize),
      Nat.sub_sub, Nat.sub_sub]
  have hfile : delivers F r.file =
      rest.drop (F.kBlockSize - (o + (kHeaderSize + data.length))) := by
    rw [h.file, List.drop_append, hheader, List.drop_append,
      List.drop_of_length_le (by omega : (formatHeader F t data).length ≤ F.kBlockSize - o),
      List.drop_of_length_le (by omega : data.length ≤ F.kBlockSize - o - kHeaderSize),
      List.nil_append, List.nil_append, Nat.sub_sub, Nat.sub_sub]
  have hlong : ¬r.buffer.length < kHeaderSize := by
    rw [hbuffer, List.length_append, hheader]
    omega
  rw [ReadPhysicalRecord, if_neg hlong, parseRecord_formatHeader h.initial ht (by omega) hbuffer]
  refine ⟨_, rfl, rfl, hfile, ?_, h.initial⟩
  simp only [h.eof, decide_eq_decide, List.length_append, hheader]
  omega

/-- **A fragment is read**, behind the trailer of a block. -/
theorem At.read_emitAt (h : At F r o (emitAt F o t data ++ rest)) (ht : t ≠ .kZeroType)
    (hdata : data.length ≤ availAt F o) :
    ∃ r', ReadPhysicalRecord F r = (r', F.number t, data) ∧ At F r' (endOf F o data) rest := by
  have hstart := startOf_le F o
  rw [availAt] at hdata
  rw [endOf]
  by_cases hshort : F.kBlockSize - o < kHeaderSize
  · have hzero : startOf F o = 0 := if_pos hshort
    have htrailer : (trailerAt F o).length = F.kBlockSize - o := by
      rw [trailerAt, if_pos hshort, List.length_replicate]
    have hdrop : (emitAt F o t data ++ rest).drop (F.kBlockSize - o) =
        formatHeader F t data ++ (data ++ rest) := by
      rw [emitAt, List.append_assoc, List.append_assoc, ← htrailer, List.drop_left]
    have hlen : F.kBlockSize - o ≤ (emitAt F o t data ++ rest).length := by
      rw [emitAt, List.length_append, List.length_append, htrailer]
      omega
    rw [hzero] at hdata hstart ⊢
    rcases h.refill hshort hlen with ⟨r', hat, hread⟩ | ⟨hnil, -⟩
    · rw [hdrop] at hat
      rw [hread]
      exact hat.read_here ht (by omega)
    · have hheader := congrArg List.length (hdrop.symm.trans hnil)
      rw [List.length_append, length_formatHeader] at hheader
      exact absurd hheader (by simp [kHeaderSize])
  · have hstart' : startOf F o = o := if_neg hshort
    have htrailer : trailerAt F o = [] := if_neg hshort
    rw [emitAt, htrailer, List.nil_append, List.append_assoc] at h
    rw [hstart'] at hdata ⊢
    exact h.read_here ht (by omega)

@[simp] theorem eof_ReportCorruption (bytes : Nat) (reason : String) :
    (r.ReportCorruption bytes reason).eof = r.eof := by
  unfold ReportCorruption ReportDrop
  split <;> rfl

@[simp] theorem buffer_ReportCorruption (bytes : Nat) (reason : String) :
    (r.ReportCorruption bytes reason).buffer = r.buffer := by
  unfold ReportCorruption ReportDrop
  split <;> rfl

/-- The reader is at the end, or behind a record that is too short for its length. -/
def Ends (F : LogFormat) (r : LogReader) : Prop :=
  (ReadPhysicalRecord F r).2.1 = F.kEof ∨ ((ReadPhysicalRecord F r).2.1 = F.kBadRecord ∧
    (ReadPhysicalRecord F r).1.eof = true ∧ (ReadPhysicalRecord F r).1.buffer = [])

theorem At.cut_here {cut : List UInt8} (h : At F r o cut)
    (hcut : cut <+: formatHeader F t data ++ data) (hlt : cut.length < kHeaderSize + data.length)
    (hfits : kHeaderSize + data.length ≤ F.kBlockSize - o) : Ends F r := by
  have hblock := F.block_le
  have hheader := length_formatHeader F t data
  have heof : r.eof = true := by
    rw [h.eof, decide_eq_true_iff]
    omega
  have hbuffer : r.buffer = cut := by
    rw [h.buffer, List.take_of_length_le (by omega)]
  by_cases hshort : r.buffer.length < kHeaderSize
  · left
    rw [ReadPhysicalRecord, if_pos hshort, if_neg (by simp [heof])]
    split <;> rfl
  · right
    rw [hbuffer] at hshort
    have hsplit : cut = formatHeader F t data ++ data.take (cut.length - kHeaderSize) := by
      rw [List.prefix_iff_eq_take.1 hcut, List.take_append, hheader,
        List.take_of_length_le (by omega : (formatHeader F t data).length ≤ cut.length)]
      simp only [List.length_append, List.length_take, hheader]
      congr 2
      omega
    obtain ⟨a, b, c, d, heq⟩ := formatHeader_eq (F := F) t data
    have hget : cut.getD 4 0 = UInt8.ofNat data.length ∧
        cut.getD 5 0 = UInt8.ofNat (data.length / 256) := by
      rw [hsplit, heq]
      exact ⟨rfl, rfl⟩
    have hparse : r.parseRecord F =
        (r.clearBuffer.ReportCorruption cut.length "bad record length", F.kBadRecord, []) := by
      unfold parseRecord
      simp only [hbuffer, hget, length_of_header data.length (by omega), if_pos hlt]
    rw [ReadPhysicalRecord, hbuffer, if_neg hshort, hparse]
    exact ⟨rfl, by simpa [clearBuffer] using heof, by simp [clearBuffer]⟩

/-- A fragment that is cut off ends the file. -/
theorem At.read_cut {cut : List UInt8} (h : At F r o cut) (hcut : cut <+: emitAt F o t data)
    (hlt : cut.length < (emitAt F o t data).length) (hdata : data.length ≤ availAt F o) :
    Ends F r := by
  have hstart := startOf_le F o
  rw [availAt] at hdata
  by_cases hshort : F.kBlockSize - o < kHeaderSize
  · have hzero : startOf F o = 0 := if_pos hshort
    have htrailer : (trailerAt F o).length = F.kBlockSize - o := by
      rw [trailerAt, if_pos hshort, List.length_replicate]
    rw [hzero] at hdata hstart
    rcases Nat.lt_or_ge cut.length (F.kBlockSize - o) with hin | hfull
    · left
      have heof : r.eof = true := by rw [h.eof, decide_eq_true hin]
      have hbuffer : r.buffer.length < kHeaderSize := by
        rw [h.buffer, List.length_take]
        omega
      rw [ReadPhysicalRecord, if_pos hbuffer, if_neg (by simp [heof])]
      split <;> rfl
    · have hdrop : cut.drop (F.kBlockSize - o) <+: formatHeader F t data ++ data := by
        have := hcut.drop (F.kBlockSize - o)
        rwa [emitAt, ← htrailer, List.drop_left, htrailer] at this
      have hlt' : (cut.drop (F.kBlockSize - o)).length < kHeaderSize + data.length := by
        rw [emitAt, List.length_append, List.length_append, htrailer, length_formatHeader] at hlt
        rw [List.length_drop]
        omega
      rcases h.refill hshort hfull with ⟨r', hat, hread⟩ | ⟨-, hread⟩
      · have hends := hat.cut_here hdrop hlt' (by omega)
        rwa [Ends, ← hread] at hends
      · exact Or.inl hread
  · have hstart' : startOf F o = o := if_neg hshort
    have htrailer : trailerAt F o = [] := if_neg hshort
    rw [emitAt, htrailer, List.nil_append] at hcut hlt
    rw [List.length_append, length_formatHeader] at hlt
    rw [hstart'] at hdata
    exact h.cut_here hcut hlt (by omega)

/-! ## Records -/

open LogWriter in
theorem fragmentType_ne_zero (begin last : Bool) : fragmentType begin last ≠ .kZeroType := by
  cases begin <;> cases last <;> decide

/-- Where the reader ends there is no record. -/
theorem Ends.readFragments_eq (h : Ends F r) (in_fragmented_record : Bool) (scratch : List UInt8)
    (offset : UInt64) : (readFragments F r in_fragmented_record scratch offset).2 = none := by
  have hne := fun t => (F.number_ne t).1.symm
  have hbad := fun t => (F.number_ne t).2.symm
  rw [readFragments]
  rcases h with heof | ⟨hread, heof, hbuffer⟩
  · simp [heof, hne]
  · simp only [hread, hbad, F.eof_ne.symm, if_false, if_true]
    generalize hr' : ((ReadPhysicalRecord F r).1.partialRecord in_fragmented_record scratch
      "error in middle of record") = r'
    have hended : ReadPhysicalRecord F r' = (r', F.kEof, []) := by
      subst hr'
      apply ReadPhysicalRecord_of_ended
      · unfold partialRecord
        split <;> simp [heof]
      · unfold partialRecord
        split <;> simp [hbuffer]
    rw [readFragments, hended]
    simp [hne]

theorem number_eq_iff (t t' : RecordType) : F.number t = F.number t' ↔ t = t' :=
  ⟨F.number_inj t t', fun h => h ▸ rfl⟩

/-- The last fragment of a record completes it. -/
theorem readFragments_last {begin : Bool} {r' : LogReader}
    (hread : ReadPhysicalRecord F r = (r', F.number (LogWriter.fragmentType begin true), data))
    (scratch : List UInt8) (offset : UInt64) :
    ∃ offset', readFragments F r (!begin) scratch offset =
      ({ r' with last_record_offset := offset' },
        some ((if begin then [] else scratch) ++ data)) := by
  rw [readFragments, hread]
  cases begin with
  | true =>
    exact ⟨r.end_of_buffer_offset - r.buffer.length.toUInt64,
      by simp [LogWriter.fragmentType, partialRecord]⟩
  | false => exact ⟨offset, by simp [LogWriter.fragmentType, number_eq_iff]⟩

/-- Any other fragment is kept until the last one comes. -/
theorem readFragments_more {begin : Bool} {r' : LogReader}
    (hread : ReadPhysicalRecord F r = (r', F.number (LogWriter.fragmentType begin false), data))
    (scratch : List UInt8) (offset : UInt64) :
    ∃ offset', readFragments F r (!begin) scratch offset =
      readFragments F r' true ((if begin then [] else scratch) ++ data) offset' := by
  rw [readFragments, hread]
  cases begin with
  | true =>
    exact ⟨r.end_of_buffer_offset - r.buffer.length.toUInt64,
      by simp [LogWriter.fragmentType, number_eq_iff, partialRecord]⟩
  | false => exact ⟨offset, by simp [LogWriter.fragmentType, number_eq_iff]⟩

/-- **A record is read**, from any of its fragments on. -/
theorem readFragments_laid {begin : Bool} {left bytes : List UInt8} {o' : Nat}
    (h : Laid F o begin left bytes o') (hat : At F r o (bytes ++ rest)) (scratch : List UInt8)
    (offset : UInt64) :
    ∃ r', readFragments F r (!begin) scratch offset =
      (r', some ((if begin then [] else scratch) ++ left)) ∧ At F r' o' rest := by
  induction h generalizing r scratch offset with
  | last h =>
    obtain ⟨r', hread, hat'⟩ := hat.read_emitAt (fragmentType_ne_zero _ true) h
    obtain ⟨offset', heq⟩ := readFragments_last hread scratch offset
    exact ⟨_, heq, hat'.buffer, hat'.file, hat'.eof, hat'.initial⟩
  | @more o o' begin left bytes h hrest ih =>
    have htake : (left.take (availAt F o)).length ≤ availAt F o := List.length_take_le _ _
    rw [List.append_assoc] at hat
    obtain ⟨r', hread, hat'⟩ := hat.read_emitAt (fragmentType_ne_zero _ false) htake
    obtain ⟨offset', heq⟩ := readFragments_more hread scratch offset
    obtain ⟨r'', heq', hat''⟩ :=
      ih hat' ((if begin then [] else scratch) ++ left.take (availAt F o)) offset'
    rw [Bool.not_false, if_neg Bool.false_ne_true, List.append_assoc, List.take_append_drop] at heq'
    exact ⟨r'', heq.trans heq', hat''⟩

/-- A record that is cut off is not read. -/
theorem readFragments_cut {begin : Bool} {left bytes cut : List UInt8} {o' : Nat}
    (h : Laid F o begin left bytes o') (hat : At F r o cut) (hcut : cut <+: bytes)
    (hlt : cut.length < bytes.length) (scratch : List UInt8) (offset : UInt64) :
    (readFragments F r (!begin) scratch offset).2 = none := by
  induction h generalizing r scratch offset cut with
  | last h => exact (hat.read_cut hcut hlt h).readFragments_eq _ _ _
  | @more o o' begin left bytes h hrest ih =>
    have htake : (left.take (availAt F o)).length ≤ availAt F o := List.length_take_le _ _
    rcases Nat.lt_or_ge cut.length (emitAt F o (LogWriter.fragmentType begin false)
      (left.take (availAt F o))).length with hin | hbeyond
    · have hpre := List.prefix_of_prefix_length_le hcut (List.prefix_append _ bytes) hin.le
      exact (hat.read_cut hpre hin htake).readFragments_eq _ _ _
    · obtain ⟨cut', rfl⟩ :=
        List.prefix_of_prefix_length_le (List.prefix_append _ bytes) hcut hbeyond
      obtain ⟨r', hread, hat'⟩ := hat.read_emitAt (fragmentType_ne_zero _ false) htake
      obtain ⟨offset', heq⟩ := readFragments_more hread scratch offset
      rw [List.length_append, List.length_append] at hlt
      rw [heq]
      exact ih hat' ((List.prefix_append_right_inj _).1 hcut) (by omega) _ _

/-- A whole record is read, and the reader is behind it. -/
theorem ReadRecord_laid {record bytes : List UInt8} {o' : Nat} (h : Laid F o true record bytes o')
    (hat : At F r o (bytes ++ rest)) :
    ∃ r', ReadRecord F r = (r', some record) ∧ At F r' o' rest := by
  obtain ⟨r', hread, hat'⟩ := readFragments_laid h hat [] 0
  have hskip : ¬r.last_record_offset < r.initial_offset := by simp [hat.initial]
  exact ⟨r', by rw [ReadRecord, if_neg hskip]; exact hread, hat'⟩

theorem ReadRecord_cut {record bytes cut : List UInt8} {o' : Nat}
    (h : Laid F o true record bytes o') (hat : At F r o cut) (hcut : cut <+: bytes)
    (hlt : cut.length < bytes.length) : (ReadRecord F r).2 = none := by
  have hskip : ¬r.last_record_offset < r.initial_offset := by simp [hat.initial]
  rw [ReadRecord, if_neg hskip]
  exact readFragments_cut h hat hcut hlt [] 0

theorem At.ends (h : At F r o []) : Ends F r := by
  left
  by_cases hshort : F.kBlockSize - o < kHeaderSize
  · rcases Nat.eq_zero_or_pos (F.kBlockSize - o) with hzero | hpos
    · rcases h.refill hshort (by simp [hzero]) with ⟨r', hat, hread⟩ | ⟨-, hread⟩
      · have hlt := F.header_lt
        have heof : r'.eof = true := by
          rw [hat.eof]
          simp
          omega
        rw [hread, ReadPhysicalRecord_of_ended heof (by simp [hat.buffer])]
      · exact hread
    · have heof : r.eof = true := by simpa [h.eof] using hpos
      rw [ReadPhysicalRecord_of_ended heof (by simp [h.buffer])]
  · have hpos : 0 < kHeaderSize := by decide
    have heof : r.eof = true := by
      rw [h.eof]
      simp
      omega
    rw [ReadPhysicalRecord_of_ended heof (by simp [h.buffer])]

theorem ReadRecord_nil (h : At F r o []) : (ReadRecord F r).2 = none := by
  have hskip : ¬r.last_record_offset < r.initial_offset := by simp [h.initial]
  rw [ReadRecord, if_neg hskip]
  exact h.ends.readFragments_eq _ _ _

/-- A new reader is at the end of a block that was never there. -/
theorem at_new (file : SequentialFile) (checksum : Bool) :
    At F (new file checksum 0) F.kBlockSize (delivers F file) := by
  refine ⟨?_, ?_, ?_, rfl⟩ <;> simp [new]

theorem readAll_of_none (h : (ReadRecord F r).2 = none) : readAll F r = [] := by
  rw [readAll]
  split
  · rfl
  · next hsome => simp [h] at hsome

theorem readAll_of_some {r' : LogReader} {record : List UInt8}
    (h : ReadRecord F r = (r', some record)) : readAll F r = record :: readAll F r' := by
  have hreader : (ReadRecord F r).1 = r' := congrArg Prod.fst h
  rw [readAll]
  split
  · next hnone => simp [h] at hnone
  · next record' hsome =>
    rw [h] at hsome
    obtain rfl := Option.some.inj hsome
    simp only [hreader]

end LogReader

/-! ## Logs -/

/-- The records of a log, and the bytes of each. -/
inductive LaidAll : Nat → List (List UInt8) → List (List UInt8) → Prop
  | nil {o : Nat} : LaidAll o [] []
  | cons {o o' : Nat} {record bytes : List UInt8} {records texts : List (List UInt8)}
      (h : Laid F o true record bytes o') (hrest : LaidAll o' records texts) :
      LaidAll o (record :: records) (bytes :: texts)

variable {F}

theorem LaidAll.length_eq {o : Nat} {records texts : List (List UInt8)}
    (h : LaidAll F o records texts) : texts.length = records.length := by
  induction h with
  | nil => rfl
  | cons h hrest ih => rw [List.length_cons, List.length_cons, ih]

/-- So many records are within so many bytes, and not one more. -/
def Within (texts : List (List UInt8)) (size n : Nat) : Prop :=
  (texts.take n).flatten.length ≤ size ∧
    (n < texts.length → size < (texts.take (n + 1)).flatten.length)

open LogReader in
/-- **A log that is cut off** is read up to the last record that is there as a whole. -/
theorem readAll_laid {o : Nat} {r : LogReader} {records texts : List (List UInt8)}
    {cut : List UInt8} (h : LaidAll F o records texts) (hat : At F r o cut)
    (hcut : cut <+: texts.flatten) :
    ∃ n ≤ records.length, readAll F r = records.take n ∧ Within texts cut.length n := by
  induction h generalizing r cut with
  | nil =>
    obtain rfl := List.prefix_nil.1 hcut
    exact ⟨0, Nat.le_refl _, readAll_of_none (ReadRecord_nil hat), by simp [Within]⟩
  | @cons o o' record bytes records texts h hrest ih =>
    rw [List.flatten_cons] at hcut
    rcases Nat.lt_or_ge cut.length bytes.length with hlt | hge
    · have hpre := List.prefix_of_prefix_length_le hcut (List.prefix_append _ texts.flatten) hlt.le
      exact ⟨0, Nat.zero_le _, readAll_of_none (ReadRecord_cut h hat hpre hlt),
        by simp [Within, hlt]⟩
    · obtain ⟨cut', rfl⟩ := List.prefix_of_prefix_length_le (List.prefix_append _ _) hcut hge
      obtain ⟨r', hread, hat'⟩ := ReadRecord_laid h hat
      obtain ⟨n, hn, hreads, hfits, hmax⟩ := ih hat' ((List.prefix_append_right_inj _).1 hcut)
      refine ⟨n + 1, Nat.succ_le_succ hn, ?_, ?_, fun hlt => ?_⟩
      · rw [readAll_of_some hread, hreads, List.take_succ_cons]
      · simpa using hfits
      · have := hmax (Nat.lt_of_succ_lt_succ hlt)
        simpa using this

theorem length_flatten_take_le (texts : List (List UInt8)) {n m : Nat} (h : n ≤ m) :
    (texts.take n).flatten.length ≤ (texts.take m).flatten.length :=
  ((List.take_sublist_take_left h).flatten).length_le

theorem Within.eq {texts : List (List UInt8)} {size n m : Nat} (hn : Within texts size n)
    (hm : Within texts size m) (hn' : n ≤ texts.length) (hm' : m ≤ texts.length) : n = m := by
  rcases Nat.lt_trichotomy n m with hlt | heq | hgt
  · have := length_flatten_take_le texts (Nat.succ_le_of_lt hlt)
    exact absurd (hn.2 (hlt.trans_le hm')) (Nat.not_lt.2 (this.trans hm.1))
  · exact heq
  · have := length_flatten_take_le texts (Nat.succ_le_of_lt hgt)
    exact absurd (hm.2 (hgt.trans_le hn')) (Nat.not_lt.2 (this.trans hn.1))

/-- Only what is there counts. -/
theorem Within.min {texts : List (List UInt8)} {size n : Nat} (h : Within texts size n)
    (hn : n ≤ texts.length) : Within texts (min size texts.flatten.length) n := by
  have hle := length_flatten_take_le texts hn
  rw [List.take_length] at hle
  exact ⟨le_min h.1 hle, fun hlt => (min_le_left _ _).trans_lt (h.2 hlt)⟩

theorem within_cons {bytes : List UInt8} {texts : List (List UInt8)} {size n : Nat}
    (hle : bytes.length ≤ size) (h : Within texts (size - bytes.length) n) :
    Within (bytes :: texts) size (n + 1) := by
  refine ⟨?_, fun hlt => ?_⟩
  · have := h.1
    rw [List.take_succ_cons, List.flatten_cons, List.length_append]
    omega
  · have := h.2 (Nat.lt_of_succ_lt_succ hlt)
    rw [List.take_succ_cons, List.flatten_cons, List.length_append]
    omega

variable (F)

theorem exists_laidAll (o : Nat) (records : List (List UInt8)) :
    ∃ texts, LaidAll F o records texts := by
  induction records generalizing o with
  | nil => exact ⟨[], .nil⟩
  | cons record records ih =>
    obtain ⟨bytes, o', h⟩ := LogWriter.exists_laid F o true record
    obtain ⟨texts, hrest⟩ := ih o'
    exact ⟨bytes :: texts, .cons h hrest⟩

theorem laidAll_kBlockSize {records texts : List (List UInt8)} (h : LaidAll F 0 records texts) :
    LaidAll F F.kBlockSize records texts := by
  cases h with
  | nil => exact .nil
  | cons h hrest => exact .cons (laid_kBlockSize F h) hrest

theorem Laid.pos {F : LogFormat} {o o' : Nat} {begin : Bool} {left bytes : List UInt8}
    (h : Laid F o begin left bytes o') : bytes ≠ [] := by
  have hne : ∀ t data, emitAt F o t data ≠ [] := by
    intro t data hnil
    have hlen := congrArg List.length hnil
    rw [emitAt, List.length_append, List.length_append, length_formatHeader] at hlen
    simp [kHeaderSize] at hlen
  cases h with
  | last h => exact hne _ _
  | more h hrest => exact List.append_ne_nil_of_left_ne_nil (hne _ _) _

namespace LogWriter

/-- Records that are added one after another, and what `AddRecord` says of each. -/
def addAll (w : LogWriter) : List (List UInt8) → LogWriter × List Bool
  | [] => (w, [])
  | record :: records =>
    let (w', ok) := w.AddRecord F record
    let (w'', oks) := addAll w' records
    (w'', ok :: oks)

theorem addAll_snd (w : LogWriter) (record : List UInt8) (records : List (List UInt8)) :
    (w.addAll F (record :: records)).2 =
      (w.AddRecord F record).2 :: ((w.AddRecord F record).1.addAll F records).2 := rfl

/-- Nothing is added to a file that is full. -/
theorem addAll_of_full {w : LogWriter} (h : w.dest.room = some 0) (records : List (List UInt8)) :
    (w.addAll F records).1.dest = w.dest ∧
      (w.addAll F records).2 = List.replicate records.length false := by
  induction records generalizing w with
  | nil => exact ⟨rfl, rfl⟩
  | cons record records ih =>
    obtain ⟨bytes, o', hlaid, hdest, hok, -⟩ := addFragments_laid F w true record
    have hfile : (w.dest.Append bytes).1 = w.dest := by
      obtain ⟨⟨contents, room⟩, o⟩ := w
      obtain rfl : room = some 0 := h
      simp [WritableFile.Append]
    have hfails : (w.dest.Append bytes).2 = false := by
      simp [WritableFile.Append, h, hlaid.pos]
    rw [hfile] at hdest
    rw [hfails] at hok
    obtain ⟨hdest', hoks⟩ := ih (w := (w.AddRecord F record).1) (hdest ▸ h)
    refine ⟨hdest'.trans hdest, ?_⟩
    rw [addAll_snd, hoks, AddRecord, hok, List.length_cons, List.replicate_succ]

/-- **The writer lays its records**, and says of which there was room for. -/
theorem addAll_laid (w : LogWriter) (records : List (List UInt8)) :
    ∃ texts, LaidAll F w.block_offset records texts ∧
      (w.addAll F records).1.dest = (w.dest.Append texts.flatten).1 ∧
      ∃ n ≤ records.length, Within texts (w.dest.room.getD texts.flatten.length) n ∧
        (w.addAll F records).2 =
          List.replicate n true ++ List.replicate (records.length - n) false := by
  induction records generalizing w with
  | nil =>
    exact ⟨[], .nil, by simp [addAll, WritableFile.Append_nil], 0, Nat.le_refl _, by simp [Within],
      rfl⟩
  | cons record records ih =>
    obtain ⟨bytes, o', hlaid, hdest, hok, hoffset⟩ := addFragments_laid F w true record
    have hroom : (w.AddRecord F record).1.dest.room = w.dest.room.map (· - bytes.length) := by
      rw [AddRecord, hdest, WritableFile.Append]
      cases w.dest.room <;> rfl
    cases hfits : (w.dest.Append bytes).2 with
    | true =>
      rw [hfits] at hok
      obtain ⟨texts, hrest, hdest', n, hn, hwithin, hoks⟩ := ih (w.AddRecord F record).1
      rw [AddRecord, hoffset hok] at hrest
      refine ⟨bytes :: texts, .cons hlaid hrest, ?_, n + 1, Nat.succ_le_succ hn, ?_, ?_⟩
      · refine hdest'.trans ?_
        rw [AddRecord, hdest, WritableFile.Append_Append, List.flatten_cons]
      · rw [hroom] at hwithin
        cases hw : w.dest.room with
        | none =>
          rw [hw] at hwithin
          exact within_cons (by simp) (by simpa using hwithin)
        | some room =>
          rw [hw] at hwithin
          have hle : bytes.length ≤ room := by simpa [WritableFile.Append, hw] using hfits
          exact within_cons hle hwithin
      · have hsub : (record :: records).length - (n + 1) = records.length - n :=
          Nat.add_sub_add_right _ _ _
        rw [addAll_snd, hsub, List.replicate_succ, List.cons_append, hoks, AddRecord, hok]
    | false =>
      rw [hfits] at hok
      obtain ⟨texts, hrest⟩ := exists_laidAll F o' records
      cases hw : w.dest.room with
      | none => simp [WritableFile.Append, hw] at hfits
      | some room =>
        have hlt : room < bytes.length := by simpa [WritableFile.Append, hw] using hfits
        rw [hw, Option.map_some, Nat.sub_eq_zero_of_le hlt.le] at hroom
        obtain ⟨hdest', hoks⟩ := addAll_of_full F hroom records
        refine ⟨bytes :: texts, .cons hlaid hrest, ?_, 0, Nat.zero_le _, ?_, ?_⟩
        · refine hdest'.trans ?_
          rw [AddRecord, hdest, List.flatten_cons, ← WritableFile.Append_Append,
            WritableFile.Append_of_failed _ _ _ hfits]
        · simp [Within, hlt]
        · rw [addAll_snd, hoks, AddRecord, hok, List.length_cons, Nat.sub_zero, List.replicate_zero,
            List.nil_append, List.replicate_succ]

end LogWriter

open LogWriter LogReader in
/-- **What the writer has acknowledged is read back**, and nothing else: the file may run out of
room at any byte. -/
theorem readAll_addAll (room : Option Nat) (records : List (List UInt8)) (checksum : Bool) :
    ∃ n ≤ records.length,
      (addAll F ⟨⟨[], room⟩, 0⟩ records).2 =
        List.replicate n true ++ List.replicate (records.length - n) false ∧
      readAll F (new ⟨(addAll F ⟨⟨[], room⟩, 0⟩ records).1.dest.contents, none⟩ checksum 0) =
        records.take n := by
  obtain ⟨texts, hlaid, hdest, n, hn, hwithin, hoks⟩ := addAll_laid F ⟨⟨[], room⟩, 0⟩ records
  have hcut : (addAll F ⟨⟨[], room⟩, 0⟩ records).1.dest.contents =
      texts.flatten.take (room.getD texts.flatten.length) := by
    rw [hdest]
    cases room <;> simp [WritableFile.Append]
  obtain ⟨m, hm, hread, hwithin'⟩ := readAll_laid (laidAll_kBlockSize F hlaid)
    (at_new ⟨(addAll F ⟨⟨[], room⟩, 0⟩ records).1.dest.contents, none⟩ checksum)
    (hcut ▸ List.take_prefix _ _)
  have hlen := hlaid.length_eq
  have hseen : (addAll F ⟨⟨[], room⟩, 0⟩ records).1.dest.contents.length =
      min (room.getD texts.flatten.length) texts.flatten.length := by rw [hcut, List.length_take]
  obtain rfl : n = m := by
    refine Within.eq (hwithin.min (hlen ▸ hn)) ?_ (hlen ▸ hn) (hlen ▸ hm)
    rw [← hseen]
    exact hwithin'
  exact ⟨n, hn, hoks, hread⟩

end TriTip.leveldb
