import TriTip.Util.ParseHex

/-!
# Salvage

`CDBEnv::Salvage` of `db.cpp` reads the records of a damaged database from the text that Berkeley DB
dumps. The loop over the records ends at `DATA=END`, but the test that keeps this line from being
taken for a key is for `DATA_END`: the end of every dump becomes a record (`Salvage_end`).
-/

namespace TriTip

/-- What is left of a `stringstream`, and whether its end was met. The fail bit, which nothing asks
for, is only ever set together with the other one. -/
structure IStream where
  rest : List UInt8
  eof : Bool

def newline : UInt8 := '\n'.toUInt8

/-- The stream and the string behind a `getline`. At the end of the stream the string stays. -/
def getline (s : IStream) (str : List UInt8) : IStream × List UInt8 :=
  if s.eof then (s, str)
  else
    match s.rest.dropWhile (· ≠ newline) with
    | [] => (⟨[], true⟩, s.rest)
    | _ :: rest => (⟨rest, false⟩, s.rest.takeWhile (· ≠ newline))

/-- What there is to read, with the end. -/
def IStream.left (s : IStream) : Nat := if s.eof then 0 else s.rest.length + 1

theorem getline_left_lt {s : IStream} (h : s.eof = false) (str : List UInt8) :
    (getline s str).1.left < s.left := by
  have hleft : s.left = s.rest.length + 1 := by rw [IStream.left, if_neg (by simp [h])]
  have hlength := List.length_dropWhile_le (p := (· ≠ newline)) s.rest
  rw [getline, if_neg (by simp [h]), hleft]
  split
  · exact Nat.succ_pos _
  · next c rest hrest =>
    rw [hrest, List.length_cons] at hlength
    exact Nat.succ_lt_succ hlength

theorem getline_left_le (s : IStream) (str : List UInt8) : (getline s str).1.left ≤ s.left := by
  cases h : s.eof with
  | false => exact (getline_left_lt h str).le
  | true => rw [getline, if_pos h]

namespace Salvage

/-- `HEADER=END` -/
def headerEnd : List UInt8 := ['H', 'E', 'A', 'D', 'E', 'R', '=', 'E', 'N', 'D'].map Char.toUInt8

/-- `DATA=END` -/
def dataEnd : List UInt8 := ['D', 'A', 'T', 'A', '=', 'E', 'N', 'D'].map Char.toUInt8

/-- `DATA_END`, which the lines of the keys are compared with. -/
def data_END : List UInt8 := ['D', 'A', 'T', 'A', '_', 'E', 'N', 'D'].map Char.toUInt8

def skipHeader (strDump : IStream) (strLine : List UInt8) : IStream :=
  if h : strDump.eof = false ∧ strLine ≠ headerEnd then
    have := getline_left_lt h.1 strLine
    skipHeader (getline strDump strLine).1 (getline strDump strLine).2
  else strDump
termination_by strDump.left

def readPairs (strDump : IStream) (keyHex valueHex : List UInt8)
    (vResult : List (List UInt8 × List UInt8)) : List (List UInt8 × List UInt8) :=
  if h : strDump.eof = false ∧ keyHex ≠ dataEnd then
    have hkey := getline_left_lt h.1 keyHex
    let r := getline strDump keyHex
    if r.2 ≠ data_END then
      have := (getline_left_le (getline strDump keyHex).1 valueHex).trans_lt hkey
      let r' := getline r.1 valueHex
      readPairs r'.1 r.2 r'.2 (vResult ++ [(ParseHex r.2, ParseHex r'.2)])
    else readPairs r.1 r.2 valueHex vResult
  else vResult
termination_by strDump.left

end Salvage

/-- What is returned, and `vResult` behind the call, where `db.verify` returns `result` and has
written `strDump`. -/
def Salvage (DB_VERIFY_BAD result : Int) (fAggressive : Bool) (strDump : List UInt8)
    (vResult : List (List UInt8 × List UInt8)) : Bool × List (List UInt8 × List UInt8) :=
  if result = DB_VERIFY_BAD ∧ ¬ fAggressive then (false, vResult)
  else if result ≠ 0 ∧ result ≠ DB_VERIFY_BAD then (false, vResult)
  else
    let strDump := Salvage.skipHeader ⟨strDump, false⟩ []
    (result = 0, Salvage.readPairs strDump [] [] vResult)

/-- A record in a dump. -/
structure DumpRecord where
  keyHex : List UInt8
  valueHex : List UInt8
  key : List UInt8
  value : List UInt8
  hexLine_key : HexLine keyHex key
  hexLine_value : HexLine valueHex value

/-- Lines up to `HEADER=END`, two lines for each record, and `DATA=END`, with a newline behind it or
without. -/
structure Dump where
  header : List (List UInt8)
  records : List DumpRecord
  endsLine : Bool
  mem_header : ∀ line ∈ header, newline ∉ line ∧ line ≠ Salvage.headerEnd

namespace Dump

def recordsText (records : List DumpRecord) : List UInt8 :=
  records.flatMap fun r => r.keyHex ++ newline :: (r.valueHex ++ [newline])

def endText (endsLine : Bool) : List UInt8 :=
  Salvage.dataEnd ++ if endsLine then [newline] else []

def text (d : Dump) : List UInt8 :=
  d.header.flatMap (· ++ [newline]) ++
    (Salvage.headerEnd ++ newline :: (recordsText d.records ++ endText d.endsLine))

def pairs (d : Dump) : List (List UInt8 × List UInt8) := d.records.map fun r => (r.key, r.value)

end Dump

section getline

variable {line : List UInt8} (hline : newline ∉ line)
include hline

theorem ne_newline_of_mem : ∀ c ∈ line, decide (c ≠ newline) = true := by
  intro c hc
  rw [decide_eq_true_iff]
  rintro rfl
  exact hline hc

theorem getline_line (rest str : List UInt8) :
    getline ⟨line ++ newline :: rest, false⟩ str = (⟨rest, false⟩, line) := by
  have hpos := ne_newline_of_mem hline
  rw [getline, if_neg Bool.false_ne_true]
  simp only [List.dropWhile_append_of_pos hpos, List.takeWhile_append_of_pos hpos]
  simp

/-- The last line has no end of its own. -/
theorem getline_last (str : List UInt8) : getline ⟨line, false⟩ str = (⟨[], true⟩, line) := by
  rw [getline, if_neg Bool.false_ne_true]
  simp only [List.dropWhile_eq_nil_iff.mpr (ne_newline_of_mem hline)]

end getline

theorem newline_notMem_of_hexLine {line bytes : List UInt8} (h : HexLine line bytes) :
    newline ∉ line := by
  intro hmem
  rcases h.mem newline hmem with hc | hc
  · exact absurd hc (by decide)
  · exact absurd hc (by decide)

/-- A hexadecimal line is not one of the words with a `T`. -/
theorem ne_of_hexLine {line bytes word : List UInt8} (h : HexLine line bytes)
    (hword : 'T'.toUInt8 ∈ word) : line ≠ word := by
  rintro rfl
  rcases h.mem _ hword with hc | hc
  · exact absurd hc (by decide)
  · exact absurd hc (by decide)

namespace Salvage

theorem skipHeader_eq {header : List (List UInt8)}
    (hheader : ∀ line ∈ header, newline ∉ line ∧ line ≠ headerEnd) (rest : List UInt8)
    {strLine : List UInt8} (hne : strLine ≠ headerEnd) :
    skipHeader ⟨header.flatMap (· ++ [newline]) ++ (headerEnd ++ newline :: rest), false⟩ strLine =
      ⟨rest, false⟩ := by
  induction header generalizing strLine with
  | nil =>
    have hend : newline ∉ headerEnd := by decide
    rw [List.flatMap_nil, List.nil_append, skipHeader, dif_pos ⟨rfl, hne⟩]
    simp only [getline_line hend]
    rw [skipHeader, dif_neg (by simp)]
  | cons line header ih =>
    obtain ⟨⟨hline, hline'⟩, hheader⟩ := List.forall_mem_cons.mp hheader
    rw [List.flatMap_cons, List.append_assoc, List.append_assoc, List.singleton_append, skipHeader,
      dif_pos ⟨rfl, hne⟩]
    simp only [getline_line hline]
    exact ih hheader hline'

/-- The pairs of lines give the records, whatever the lines before were. -/
theorem readPairs_records (records : List DumpRecord) (tail : List UInt8)
    {keyHex : List UInt8} (hkey : keyHex ≠ dataEnd) (valueHex : List UInt8)
    (vResult : List (List UInt8 × List UInt8)) :
    ∃ keyHex' valueHex', keyHex' ≠ dataEnd ∧
      readPairs ⟨Dump.recordsText records ++ tail, false⟩ keyHex valueHex vResult =
        readPairs ⟨tail, false⟩ keyHex' valueHex'
          (vResult ++ records.map fun r => (r.key, r.value)) := by
  induction records generalizing keyHex valueHex vResult with
  | nil => exact ⟨keyHex, valueHex, hkey, by rw [List.map_nil, List.append_nil]; rfl⟩
  | cons r records ih =>
    have hkeyEnd : r.keyHex ≠ dataEnd := ne_of_hexLine r.hexLine_key (by decide)
    have hkeyTest : r.keyHex ≠ data_END := ne_of_hexLine r.hexLine_key (by decide)
    have htext : Dump.recordsText (r :: records) ++ tail =
        r.keyHex ++ newline :: (r.valueHex ++ newline :: (Dump.recordsText records ++ tail)) := by
      simp [Dump.recordsText]
    rw [htext, readPairs, dif_pos ⟨rfl, hkey⟩]
    simp only [getline_line (newline_notMem_of_hexLine r.hexLine_key),
      getline_line (newline_notMem_of_hexLine r.hexLine_value), if_pos hkeyTest,
      r.hexLine_key.ParseHex, r.hexLine_value.ParseHex]
    obtain ⟨keyHex', valueHex', hne, hread⟩ :=
      ih hkeyEnd r.valueHex (vResult ++ [(r.key, r.value)])
    refine ⟨keyHex', valueHex', hne, ?_⟩
    rw [hread, List.map_cons, List.append_assoc, List.singleton_append]

/-- The last line is taken for a key, with what there is for a value. -/
theorem readPairs_end (endsLine : Bool) {keyHex : List UInt8} (hkey : keyHex ≠ dataEnd)
    (valueHex : List UInt8) (vResult : List (List UInt8 × List UInt8)) :
    readPairs ⟨Dump.endText endsLine, false⟩ keyHex valueHex vResult =
      vResult ++ [([0xDA], if endsLine then [] else ParseHex valueHex)] := by
  have hne : dataEnd ≠ data_END := by decide
  have hparse : ParseHex dataEnd = [0xDA] := by decide
  rw [readPairs, dif_pos ⟨rfl, hkey⟩]
  cases endsLine with
  | true =>
    have hline : getline ⟨Dump.endText true, false⟩ keyHex = (⟨[], false⟩, dataEnd) :=
      getline_line (by decide) [] keyHex
    have hempty : getline ⟨[], false⟩ valueHex = (⟨[], true⟩, []) := rfl
    simp only [hline, hempty, if_pos hne, hparse]
    rw [readPairs, dif_neg (by simp)]
    rfl
  | false =>
    have hline : getline ⟨Dump.endText false, false⟩ keyHex = (⟨[], true⟩, dataEnd) :=
      getline_last (by decide) keyHex
    have hempty : getline ⟨[], true⟩ valueHex = (⟨[], true⟩, valueHex) := rfl
    simp only [hline, hempty, if_pos hne, hparse]
    rw [readPairs, dif_neg (by simp)]
    rfl

end Salvage

/-- The records of the dump are appended, and nothing else. -/
def AppendsRecords (DB_VERIFY_BAD result : Int) (fAggressive : Bool) (d : Dump)
    (vResult : List (List UInt8 × List UInt8)) : Prop :=
  (Salvage DB_VERIFY_BAD result fAggressive d.text vResult).2 = vResult ++ d.pairs

/-- Behind the records of the dump there is one for its end. -/
theorem Salvage_eq {DB_VERIFY_BAD result : Int} {fAggressive : Bool} (hbad : DB_VERIFY_BAD ≠ 0)
    (hresult : result = 0 ∨ result = DB_VERIFY_BAD ∧ fAggressive = true) (d : Dump)
    (vResult : List (List UInt8 × List UInt8)) :
    ∃ value, Salvage DB_VERIFY_BAD result fAggressive d.text vResult =
      (decide (result = 0), vResult ++ d.pairs ++ [([0xDA], value)]) := by
  have hheader : ([] : List UInt8) ≠ Salvage.headerEnd := by decide
  have hdata : ([] : List UInt8) ≠ Salvage.dataEnd := by decide
  have haggressive : ¬ (result = DB_VERIFY_BAD ∧ ¬ fAggressive = true) := by
    rintro ⟨rfl, h⟩
    exact hresult.elim hbad fun hresult => h hresult.2
  obtain ⟨keyHex, valueHex, hkey, hrecords⟩ := Salvage.readPairs_records d.records
    (Dump.endText d.endsLine) hdata [] vResult
  refine ⟨if d.endsLine then [] else ParseHex valueHex, ?_⟩
  rw [Salvage, if_neg haggressive, if_neg (by omega), Dump.text,
    Salvage.skipHeader_eq d.mem_header _ hheader]
  simp only [hrecords, Salvage.readPairs_end _ hkey, Dump.pairs]

theorem not_appendsRecords {DB_VERIFY_BAD result : Int} {fAggressive : Bool}
    (hbad : DB_VERIFY_BAD ≠ 0)
    (hresult : result = 0 ∨ result = DB_VERIFY_BAD ∧ fAggressive = true) (d : Dump)
    (vResult : List (List UInt8 × List UInt8)) :
    ¬ AppendsRecords DB_VERIFY_BAD result fAggressive d vResult := by
  intro h
  obtain ⟨value, hsalvage⟩ := Salvage_eq hbad hresult d vResult
  rw [AppendsRecords, hsalvage] at h
  exact List.cons_ne_nil _ _ (List.append_right_eq_self.mp h)

/-- A dump without records. -/
def emptyDump : Dump where
  header := []
  records := []
  endsLine := true
  mem_header := by simp

/-- No dump at all gives its records, and one more for `DATA=END` is always there. -/
theorem Salvage_end {DB_VERIFY_BAD result : Int} {fAggressive : Bool} (hbad : DB_VERIFY_BAD ≠ 0)
    (hresult : result = 0 ∨ result = DB_VERIFY_BAD ∧ fAggressive = true) (d : Dump)
    (vResult : List (List UInt8 × List UInt8)) :
    (∃ value, (Salvage DB_VERIFY_BAD result fAggressive d.text vResult).2 =
      vResult ++ d.pairs ++ [([0xDA], value)]) ∧
    ¬ AppendsRecords DB_VERIFY_BAD result fAggressive d vResult := by
  obtain ⟨value, hsalvage⟩ := Salvage_eq hbad hresult d vResult
  exact ⟨⟨value, by rw [hsalvage]⟩, not_appendsRecords hbad hresult d vResult⟩

theorem Salvage_end_empty :
    (∃ value, (Salvage (-30970) 0 true emptyDump.text []).2 =
      [] ++ emptyDump.pairs ++ [([0xDA], value)]) ∧
    ¬ AppendsRecords (-30970) 0 true emptyDump [] :=
  Salvage_end (by decide) (Or.inl rfl) emptyDump []

theorem Salvage_extra :
    ¬ ∀ (DB_VERIFY_BAD result : Int) (fAggressive : Bool) (d : Dump)
      (vResult : List (List UInt8 × List UInt8)), DB_VERIFY_BAD ≠ 0 →
      (result = 0 ∨ result = DB_VERIFY_BAD ∧ fAggressive = true) →
      AppendsRecords DB_VERIFY_BAD result fAggressive d vResult := by
  intro h
  exact not_appendsRecords (by decide) (Or.inl rfl) emptyDump []
    (h (-30970) 0 true emptyDump [] (by decide) (Or.inl rfl))

end TriTip
