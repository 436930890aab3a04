import TriTip.LevelDB.Crc32c

/-!
# The log

`log_writer.cc` and `log_reader.cc`. A record is cut into fragments that do not cross the blocks of
the file; each has a header with a checksum, its length and its type, and what is left of a block
that has no room for a header is filled with zeros. The writer may run out of room in its file, a
read may fail.

`log_format.h` and the masks of `crc32c.h` are parameters (`LogFormat`).
-/

namespace TriTip.leveldb

inductive Status
  | OK
  | NotFound
  | Corruption (msg : String)
  | IOError (msg : String)
  deriving DecidableEq

inductive RecordType
  | kZeroType | kFullType | kFirstType | kMiddleType | kLastType
  deriving DecidableEq

/-- Four bytes for the checksum, two for the length, one for the type. -/
def kHeaderSize : Nat := 7

/-- The sizes and numbers of the format, how a checksum is stored, and where texts stand in
memory. -/
structure LogFormat where
  kBlockSize : Nat
  number : RecordType → Nat
  kEof : Nat
  kBadRecord : Nat
  address : List UInt8 → Nat
  Mask : UInt32 → UInt32
  Unmask : UInt32 → UInt32
  header_lt : kHeaderSize < kBlockSize
  block_le : kBlockSize ≤ kHeaderSize + 0xffff
  number_lt : ∀ t, number t < 128
  number_inj : ∀ t t', number t = number t' → t = t'
  number_ne : ∀ t, number t ≠ kEof ∧ number t ≠ kBadRecord
  eof_ne : kEof ≠ kBadRecord
  unmask_mask : ∀ crc, Unmask (Mask crc) = crc

def LogFormat.Extend (F : LogFormat) (crc : UInt32) (data : List UInt8) : UInt32 :=
  crc32c.Extend (F.address data) crc data

theorem LogFormat.extend_append (F : LogFormat) (crc : UInt32) (a b : List UInt8) :
    F.Extend (F.Extend crc a) b = F.Extend crc (a ++ b) := crc32c.Extend_append _ _ _ crc a b

/-! ## Files -/

/-- A file with room for so many more bytes, if there is an end to it. -/
structure WritableFile where
  contents : List UInt8
  room : Option Nat

/-- What there is no room for is lost, and the call fails. -/
def WritableFile.Append (file : WritableFile) (data : List UInt8) : WritableFile × Bool :=
  match file.room with
  | none => (⟨file.contents ++ data, none⟩, true)
  | some room =>
    (⟨file.contents ++ data.take room, some (room - data.length)⟩, decide (data.length ≤ room))

/-- What is still to be read, and how many reads there are before one that fails, if one does. -/
structure SequentialFile where
  rest : List UInt8
  reads : Option Nat

def SequentialFile.Read (file : SequentialFile) (n : Nat) :
    Option (List UInt8 × SequentialFile) :=
  if file.reads = some 0 then none
  else some (file.rest.take n, ⟨file.rest.drop n, file.reads.map (· - 1)⟩)

def SequentialFile.Skip (file : SequentialFile) (n : Nat) : Option SequentialFile :=
  if file.reads = some 0 then none
  else some ⟨file.rest.drop n, file.reads.map (· - 1)⟩

variable (F : LogFormat)

/-! ## The writer -/

structure LogWriter where
  dest : WritableFile
  block_offset : Nat

/-- `type_crc_` -/
def type_crc (t : RecordType) : UInt32 := F.Extend 0 [UInt8.ofNat (F.number t)]

/-- The header of a fragment. -/
def formatHeader (t : RecordType) (data : List UInt8) : List UInt8 :=
  EncodeFixed32 (F.Mask (F.Extend (type_crc F t) data)) ++
    [UInt8.ofNat data.length, UInt8.ofNat (data.length / 256), UInt8.ofNat (F.number t)]

namespace LogWriter

def EmitPhysicalRecord (w : LogWriter) (t : RecordType) (data : List UInt8) : LogWriter × Bool :=
  -- Write the header and the payload
  let (dest, ok) := w.dest.Append (formatHeader F t data)
  let (dest, ok) := if ok then dest.Append data else (dest, false)
  (⟨dest, w.block_offset + (kHeaderSize + data.length)⟩, ok)

/-- Fill the trailer of a block without room for a header. -/
def switchBlock (w : LogWriter) : LogWriter :=
  let leftover := F.kBlockSize - w.block_offset
  if leftover < kHeaderSize then
    if 0 < leftover then ⟨(w.dest.Append (List.replicate leftover 0)).1, 0⟩
    else ⟨w.dest, 0⟩
  else w

def fragmentType (begin last : Bool) : RecordType :=
  if begin && last then .kFullType
  else if begin then .kFirstType
  else if last then .kLastType
  else .kMiddleType

theorem block_offset_switchBlock (w : LogWriter) : (w.switchBlock F).block_offset =
    if F.kBlockSize - w.block_offset < kHeaderSize then 0 else w.block_offset := by
  unfold switchBlock
  simp only
  split
  · split <;> rfl
  · rfl

theorem block_offset_EmitPhysicalRecord (w : LogWriter) (t : RecordType) (data : List UInt8) :
    (w.EmitPhysicalRecord F t data).1.block_offset = w.block_offset + (kHeaderSize + data.length) :=
  rfl

/-- A fragment that does not end the record takes something off it, or fills a block. -/
theorem measure_lt {size o o' left n taken : Nat} (hsize : kHeaderSize < size)
    (ho' : o' = if size - o < kHeaderSize then 0 else o)
    (hn : n = if left < size - o' - kHeaderSize then left else size - o' - kHeaderSize)
    (htaken : taken = min n left) (hleft : 0 < left - n) :
    2 * (left - n) + (if size - (o' + (kHeaderSize + taken)) = kHeaderSize then 1 else 0) <
      2 * left + if size - o = kHeaderSize then 1 else 0 := by
  have hheader : kHeaderSize = 7 := rfl
  split at ho' <;> split at hn <;> split <;> split <;> omega

/-- The loop of `AddRecord`, in which `left` is still to be written. -/
def addFragments (w : LogWriter) (begin : Bool) (left : List UInt8) : LogWriter × Bool :=
  let w' := w.switchBlock F
  let avail := F.kBlockSize - w'.block_offset - kHeaderSize
  let fragment_length := if left.length < avail then left.length else avail
  let last := decide (left.length = fragment_length)
  let emitted := w'.EmitPhysicalRecord F (fragmentType begin last) (left.take fragment_length)
  if emitted.2 ∧ 0 < left.length - fragment_length then
    addFragments emitted.1 false (left.drop fragment_length)
  else emitted
-- only a fragment whose header fills the block may be empty
termination_by 2 * left.length + if F.kBlockSize - w.block_offset = kHeaderSize then 1 else 0
decreasing_by
  next h =>
    rw [List.length_drop]
    exact measure_lt F.header_lt (block_offset_switchBlock F w) rfl List.length_take h.2

def AddRecord (w : LogWriter) (slice : List UInt8) : LogWriter × Bool :=
  addFragments F w true slice

end LogWriter

/-! ## The reader -/

structure LogReader where
  file : SequentialFile
  checksum : Bool
  buffer : List UInt8
  eof : Bool
  last_record_offset : UInt64
  end_of_buffer_offset : UInt64
  initial_offset : UInt64
  /-- What the reporter was told. -/
  reports : List (Nat × Status)

namespace LogReader

def new (file : SequentialFile) (checksum : Bool) (initial_offset : UInt64) : LogReader :=
  ⟨file, checksum, [], false, 0, 0, initial_offset, []⟩

variable (r : LogReader)

def ReportDrop (bytes : Nat) (reason : Status) : LogReader :=
  if r.initial_offset ≤ r.end_of_buffer_offset - r.buffer.length.toUInt64 - bytes.toUInt64 then
    { r with reports := r.reports ++ [(bytes, reason)] }
  else r

def ReportCorruption (bytes : Nat) (reason : String) : LogReader :=
  r.ReportDrop bytes (.Corruption reason)

/-- The buffer is dropped. -/
def clearBuffer : LogReader := { r with buffer := [] }

/-- `static_cast` of a `char`, which is signed. -/
def typeOf (c : UInt8) : Nat := if c < 128 then c.toNat else 2 ^ 32 - 256 + c.toNat

/-- A buffer that has room for a header, parsed. -/
def parseRecord : LogReader × Nat × List UInt8 :=
  let header := r.buffer
  let type := typeOf (header.getD 6 0)
  let length := (header.getD 4 0).toNat + 256 * (header.getD 5 0).toNat
  if header.length < kHeaderSize + length then
    (r.clearBuffer.ReportCorruption header.length "bad record length", F.kBadRecord, [])
  else if type = F.number .kZeroType ∧ length = 0 then (r.clearBuffer, F.kBadRecord, [])
  -- Check crc
  else if r.checksum ∧ F.Extend 0 ((header.drop 6).take (1 + length)) ≠
      F.Unmask (DecodeFixed32 header) then
    (r.clearBuffer.ReportCorruption header.length "checksum mismatch", F.kBadRecord, [])
  else
    let r := { r with buffer := header.drop (kHeaderSize + length) }
    -- Skip physical record that started before initial_offset_
    if r.end_of_buffer_offset - r.buffer.length.toUInt64 - kHeaderSize.toUInt64 -
        length.toUInt64 < r.initial_offset then (r, F.kBadRecord, [])
    else (r, type, (header.drop kHeaderSize).take length)

def ReadPhysicalRecord (r : LogReader) : LogReader × Nat × List UInt8 :=
  if r.buffer.length < kHeaderSize then
    if r.eof = false then
      -- Last read was a full read, so this is a trailer to skip
      match r.file.Read F.kBlockSize with
      | none =>
        let r := r.clearBuffer.ReportDrop F.kBlockSize (.IOError "read")
        ({ r with eof := true }, F.kEof, [])
      | some (data, file) =>
        ReadPhysicalRecord { r with
          file := file, buffer := data, eof := decide (data.length < F.kBlockSize)
          end_of_buffer_offset := r.end_of_buffer_offset + data.length.toUInt64 }
    else if r.buffer.length = 0 then (r, F.kEof, [])
    else
      (r.clearBuffer.ReportCorruption r.buffer.length "truncated record at end of file", F.kEof, [])
  else r.parseRecord F
termination_by if r.eof then 0 else if r.buffer.length < kHeaderSize then 2 else 1
decreasing_by
  next hshort heof =>
    have hlt := F.header_lt
    simp only [heof, hshort, Bool.false_eq_true, if_false, if_true]
    by_cases hlast : data.length < F.kBlockSize
    · simp [hlast]
    · have hfull : ¬data.length < kHeaderSize := by omega
      simp [hlast, hfull]

/-- What is still to come. -/
def left : Nat := r.buffer.length + r.file.rest.length

@[simp] theorem left_ReportDrop (bytes : Nat) (reason : Status) :
    (r.ReportDrop bytes reason).left = r.left := by
  unfold ReportDrop
  split <;> rfl

@[simp] theorem left_ReportCorruption (bytes : Nat) (reason : String) :
    (r.ReportCorruption bytes reason).left = r.left := left_ReportDrop r bytes _

theorem left_parseRecord_lt (h : ¬r.buffer.length < kHeaderSize) :
    (r.parseRecord F).1.left < r.left := by
  have hpos : 0 < kHeaderSize := by decide
  unfold parseRecord
  simp only
  split_ifs <;> simp only [left_ReportCorruption] <;>
    simp only [left, clearBuffer, List.length_drop, List.length_nil] <;> omega

/-- Something is taken off the file, except at its end. -/
theorem left_ReadPhysicalRecord (h : (ReadPhysicalRecord F r).2.1 ≠ F.kEof) :
    (ReadPhysicalRecord F r).1.left < r.left := by
  have hhead := F.header_lt
  induction r using ReadPhysicalRecord.induct F with
  | case1 r hshort heof hread =>
    rw [ReadPhysicalRecord, if_pos hshort, if_pos heof, hread] at h
    exact absurd rfl h
  | case2 r hshort heof data file hread ih =>
    rw [ReadPhysicalRecord, if_pos hshort, if_pos heof, hread] at h ⊢
    refine Nat.lt_of_lt_of_le (ih h) ?_
    unfold SequentialFile.Read at hread
    split at hread
    · cases hread
    · obtain ⟨rfl, rfl⟩ := Prod.mk.inj (Option.some.inj hread)
      simp only [left, List.length_take, List.length_drop]
      omega
  | case3 r hshort heof hnil =>
    rw [ReadPhysicalRecord, if_pos hshort, if_neg heof, if_pos hnil] at h
    exact absurd rfl h
  | case4 r hshort heof hnil =>
    rw [ReadPhysicalRecord, if_pos hshort, if_neg heof, if_neg hnil] at h
    exact absurd rfl h
  | case5 r hlong =>
    rw [ReadPhysicalRecord, if_neg hlong]
    exact left_parseRecord_lt F r hlong

/-- `block_start_location` -/
def block_start_location : UInt64 :=
  let kBlockSize := F.kBlockSize.toUInt64
  let offset_in_block := r.initial_offset % kBlockSize
  -- Don't search a block if we'd be in the trailer
  if kBlockSize - 6 < offset_in_block then r.initial_offset - offset_in_block + kBlockSize
  else r.initial_offset - offset_in_block

def SkipToInitialBlock : LogReader × Bool :=
  let start := r.block_start_location F
  let r := { r with end_of_buffer_offset := start }
  -- Skip to start of first block that can contain the initial record
  if 0 < start then
    match r.file.Skip start.toNat with
    | none => (r.ReportDrop start.toNat (.IOError "skip"), false)
    | some file => ({ r with file := file }, true)
  else (r, true)

/-- A record that has begun is given up. -/
def partialRecord (in_fragmented_record : Bool) (scratch : List UInt8) (reason : String) :
    LogReader :=
  if in_fragmented_record then r.ReportCorruption scratch.length reason else r

@[simp] theorem left_partialRecord (in_fragmented_record : Bool) (scratch : List UInt8)
    (reason : String) : (r.partialRecord in_fragmented_record scratch reason).left = r.left := by
  unfold partialRecord
  split
  · exact left_ReportCorruption r _ _
  · rfl

/-- The loop of `ReadRecord`: in a record that has begun, `scratch` is what there is of it. -/
def readFragments (r : LogReader) (in_fragmented_record : Bool) (scratch : List UInt8)
    (prospective_record_offset : UInt64) : LogReader × Option (List UInt8) :=
  let physical_record_offset := r.end_of_buffer_offset - r.buffer.length.toUInt64
  let read := ReadPhysicalRecord F r
  let r' := read.1
  let record_type := read.2.1
  let fragment := read.2.2
  if record_type = F.number .kFullType then
    -- an empty first fragment comes from earlier versions of the writer
    let r' := r'.partialRecord (in_fragmented_record && !scratch.isEmpty) scratch
      "partial record without end(1)"
    ({ r' with last_record_offset := physical_record_offset }, some fragment)
  else if record_type = F.number .kFirstType then
    readFragments (r'.partialRecord (in_fragmented_record && !scratch.isEmpty) scratch
      "partial record without end(2)") true fragment physical_record_offset
  else if record_type = F.number .kMiddleType then
    if in_fragmented_record then
      readFragments r' true (scratch ++ fragment) prospective_record_offset
    else
      readFragments (r'.ReportCorruption fragment.length "missing start of fragmented record(1)")
        false scratch prospective_record_offset
  else if record_type = F.number .kLastType then
    if in_fragmented_record then
      ({ r' with last_record_offset := prospective_record_offset }, some (scratch ++ fragment))
    else
      readFragments (r'.ReportCorruption fragment.length "missing start of fragmented record(2)")
        false scratch prospective_record_offset
  else if record_type = F.kEof then
    (r'.partialRecord in_fragmented_record scratch "partial record without end(3)", none)
  else if record_type = F.kBadRecord then
    readFragments (r'.partialRecord in_fragmented_record scratch "error in middle of record")
      false (if in_fragmented_record then [] else scratch) prospective_record_offset
  else
    readFragments (r'.ReportCorruption
        (fragment.length + if in_fragmented_record then scratch.length else 0)
        ("unknown record type " ++ toString record_type))
      false [] prospective_record_offset
termination_by r.left
decreasing_by
  all_goals
    have hlt : record_type ≠ F.kEof → r'.left < r.left := left_ReadPhysicalRecord F r
    have hne : record_type ≠ F.kEof := by simp_all [F.number_ne, F.eof_ne.symm]
    simpa using hlt hne

def ReadRecord (r : LogReader) : LogReader × Option (List UInt8) :=
  if r.last_record_offset < r.initial_offset then
    match r.SkipToInitialBlock F with
    | (r, false) => (r, none)
    | (r, true) => readFragments F r false [] 0
  else readFragments F r false [] 0

theorem left_readFragments_lt (r : LogReader) (in_fragmented_record : Bool) (scratch : List UInt8)
    (offset : UInt64)
    (h : (readFragments F r in_fragmented_record scratch offset).2.isSome = true) :
    (readFragments F r in_fragmented_record scratch offset).1.left < r.left := by
  induction hn : r.left using Nat.strong_induction_on
    generalizing r in_fragmented_record scratch offset with
  | _ n ih =>
    subst hn
    have hlt := left_ReadPhysicalRecord F r
    rw [readFragments] at h ⊢
    simp only at h ⊢
    generalize ReadPhysicalRecord F r = read at hlt h ⊢
    obtain ⟨r', type, fragment⟩ := read
    simp only at hlt h ⊢
    have hgoesOn : ∀ r'', r''.left = r'.left → type ≠ F.kEof → ∀ begun scratch offset,
        (readFragments F r'' begun scratch offset).2.isSome = true →
          (readFragments F r'' begun scratch offset).1.left < r.left := by
      intro r'' heq hne begun scratch offset hsome
      have hle := hlt hne
      exact (ih _ (heq ▸ hle) r'' begun scratch offset hsome rfl).trans (heq ▸ hle)
    have hne : ∀ t, type = F.number t → type ≠ F.kEof := fun t ht => ht ▸ (F.number_ne t).1
    split_ifs at h ⊢ with hfull hfirst hmiddle hbegun hlast hbegun heof hbad
    · exact (left_partialRecord r' _ _ _).symm ▸ hlt (hne _ hfull)
    · exact hgoesOn _ (left_partialRecord r' _ _ _) (hne _ hfirst) _ _ _ h
    · exact hgoesOn _ rfl (hne _ hmiddle) _ _ _ h
    · exact hgoesOn _ (left_ReportCorruption r' _ _) (hne _ hmiddle) _ _ _ h
    · exact hlt (hne _ hlast)
    · exact hgoesOn _ (left_ReportCorruption r' _ _) (hne _ hlast) _ _ _ h
    · exact absurd h (by simp)
    · exact hgoesOn _ (left_partialRecord r' _ _ _) (hbad ▸ F.eof_ne.symm) _ _ _ h
    · exact hgoesOn _ (left_partialRecord r' _ _ _) (hbad ▸ F.eof_ne.symm) _ _ _ h
    · exact hgoesOn _ (left_ReportCorruption r' _ _) heof _ _ _ h
    · exact hgoesOn _ (left_ReportCorruption r' _ _) heof _ _ _ h

theorem left_SkipToInitialBlock_le : (r.SkipToInitialBlock F).1.left ≤ r.left := by
  unfold SkipToInitialBlock
  simp only
  generalize r.block_start_location F = start
  split
  · cases hskip : r.file.Skip start.toNat with
    | none =>
      simp only [left_ReportDrop]
      exact Nat.le_refl _
    | some file =>
      unfold SequentialFile.Skip at hskip
      split at hskip
      · cases hskip
      · obtain rfl := Option.some.inj hskip
        simp only [left, List.length_drop]
        omega
  · exact Nat.le_refl _

theorem left_ReadRecord_lt (h : (ReadRecord F r).2.isSome = true) :
    (ReadRecord F r).1.left < r.left := by
  unfold ReadRecord at h ⊢
  split at h
  · next hskip =>
    rw [if_pos hskip]
    have hle := left_SkipToInitialBlock_le F r
    split at h
    · cases h
    · next r' heq =>
      rw [heq] at hle
      exact (left_readFragments_lt F r' false [] 0 h).trans_le hle
  · next hskip =>
    rw [if_neg hskip]
    exact left_readFragments_lt F r false [] 0 h

/-- `while (reader.ReadRecord(&record, &scratch))` -/
def readAll (r : LogReader) : List (List UInt8) :=
  match h : (ReadRecord F r).2 with
  | none => []
  | some record =>
    have := left_ReadRecord_lt F r (by rw [h]; rfl)
    record :: readAll (ReadRecord F r).1
termination_by r.left

end LogReader

end TriTip.leveldb
