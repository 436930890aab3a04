import TriTip.Json.Reader
import TriTip.Json.Writer

/-!
# Tokens that the generator writes

What `add_esc_chars` makes of a string is a token for `lex_escape_ch_p` up to the closing quote, and
`substitute_esc_chars` gives the string back (`string_p_outputStr`, `get_str_outputStr`), whatever
the locale takes for printable. A number is read to its end if no digit, point or exponent follows.
-/

namespace TriTip

variable {ρ : Type} {P : Platform ρ}

/-! ## Strings -/

/-- A character that stands for itself. -/
def Plain (c : UInt8) : Prop := c ≠ '"'.toUInt8 ∧ c ≠ '\\'.toUInt8

theorem confix_p_cons {c : UInt8} (hc : Plain c) (text : List UInt8) :
    confix_p (c :: text) = confix_p text := by
  have hlex : lex_escape_ch_p (c :: text) = some text := by
    rw [lex_escape_ch_p, if_pos hc.2]
  rw [confix_p, if_neg hc.1]
  split
  · next h =>
    rw [hlex] at h
    cases h
  · next text' h =>
    obtain rfl := Option.some.inj (hlex.symm.trans h)
    rfl

/-- A letter behind a backslash that does not start a number. -/
theorem confix_p_escape {letter : UInt8} (hoct : isodigit letter = false)
    (hx : ¬(letter = 'x'.toUInt8 ∨ letter = 'X'.toUInt8)) (text : List UInt8) :
    confix_p ('\\'.toUInt8 :: letter :: text) = confix_p text := by
  have hnarrow : narrow_p 8 3 isodigit (letter :: text) = none := by
    rw [narrow_p, if_pos (Or.inl ?_)]
    rw [List.take_succ_cons, List.takeWhile_cons_of_neg (by simp [hoct])]
  have hlex : lex_escape_ch_p ('\\'.toUInt8 :: letter :: text) = some text := by
    rw [lex_escape_ch_p, if_neg (by simp), escaped_p, hnarrow]
    exact if_neg hx
  rw [confix_p, if_neg (by decide)]
  split
  · next h =>
    rw [hlex] at h
    cases h
  · next text' h =>
    obtain rfl := Option.some.inj (hlex.symm.trans h)
    rfl

theorem substitute_esc_chars_cons {c : UInt8} (hc : Plain c) (text : List UInt8) :
    substitute_esc_chars (c :: text) = c :: substitute_esc_chars text := by
  cases text with
  | nil => simp [substitute_esc_chars]
  | cons d text => rw [substitute_esc_chars, if_neg hc.2]

theorem substitute_esc_chars_escape (c2 : UInt8) (text : List UInt8) :
    substitute_esc_chars ('\\'.toUInt8 :: c2 :: text) =
      (append_esc_char_and_incr_iter c2 text).1 ++
        substitute_esc_chars (append_esc_char_and_incr_iter c2 text).2 := by
  rw [substitute_esc_chars, if_pos rfl]

/-- How a character can be written. -/
theorem add_esc_char_cases (c : UInt8) :
    (∃ letter, add_esc_char c = some ['\\'.toUInt8, letter] ∧ letters.lookup letter = some c ∧
      isodigit letter = false ∧ ¬(letter = 'x'.toUInt8 ∨ letter = 'X'.toUInt8)) ∨
    add_esc_char c = none ∧ Plain c := by
  cases h : escapes.lookup c with
  | some letter =>
    refine Or.inl ⟨letter, by rw [add_esc_char, h]; rfl, ?_⟩
    obtain ⟨pre, post, heq, -⟩ := List.lookup_eq_some_iff.1 h
    have hmem : (c, letter) ∈ escapes := by
      rw [heq]
      simp
    have hall : ∀ e ∈ escapes, letters.lookup e.2 = some e.1 ∧ isodigit e.2 = false ∧
        ¬(e.2 = 'x'.toUInt8 ∨ e.2 = 'X'.toUInt8) := by
      rw [← List.forall_iff_forall_mem]
      decide
    exact hall _ hmem
  | none =>
    refine Or.inr ⟨by rw [add_esc_char, h]; rfl, ?_, ?_⟩
    · rintro rfl
      exact absurd h (by decide)
    · rintro rfl
      exact absurd h (by decide)

theorem plain_to_hex_char : ∀ n < 16, Plain (to_hex_char n) := by
  unfold Plain
  decide +kernel

theorem hex_to_num_to_hex_char : ∀ n < 16, (hex_to_num (to_hex_char n)).toNat = n := by
  decide +kernel

/-- Four digits give the number back, cut to a character. -/
theorem hex_str_to_char_four {n : Nat} (hn : n < 16 ^ 4) :
    hex_str_to_char [to_hex_char (n / 16 ^ 3 % 16), to_hex_char (n / 16 ^ 2 % 16),
      to_hex_char (n / 16 % 16), to_hex_char (n % 16)] = n.toUInt8 := by
  have hdigit : ∀ m, (hex_to_num (to_hex_char (m % 16))).toNat = m % 16 := fun m =>
    hex_to_num_to_hex_char _ (Nat.mod_lt _ (by decide))
  rw [hex_str_to_char, ← Radix.foldl_eq_value]
  simp only [List.map_cons, List.map_nil, hdigit, List.foldl_cons, List.foldl_nil]
  congr 1
  omega

theorem confix_p_non_printable (n : Nat) (text : List UInt8) :
    confix_p (non_printable_to_string n ++ text) = confix_p text := by
  have hplain : ∀ m, Plain (to_hex_char (m % 16)) := fun m =>
    plain_to_hex_char _ (Nat.mod_lt _ (by decide))
  have hu : chars "\\u" = ['\\'.toUInt8, 'u'.toUInt8] := rfl
  simp only [non_printable_to_string, hu, List.cons_append, List.nil_append]
  rw [confix_p_escape (by decide) (by decide), confix_p_cons (hplain _), confix_p_cons (hplain _),
    confix_p_cons (hplain _), confix_p_cons (hplain _)]

theorem substitute_esc_chars_non_printable (c : UInt8) (text : List UInt8) :
    substitute_esc_chars (non_printable_to_string c.toNat ++ text) =
      c :: substitute_esc_chars text := by
  have hu : chars "\\u" = ['\\'.toUInt8, 'u'.toUInt8] := rfl
  have hlookup : letters.lookup 'u'.toUInt8 = none := by decide
  simp only [non_printable_to_string, hu, List.cons_append, List.nil_append]
  rw [substitute_esc_chars_escape, append_esc_char_and_incr_iter, hlookup]
  rw [if_neg fun h => absurd h.1 (by decide), if_pos ⟨rfl, by simp⟩]
  simp only [List.take_succ_cons, List.take_zero, List.drop_succ_cons, List.drop_zero]
  rw [hex_str_to_char_four (Nat.lt_trans c.toNat_lt (by decide))]
  simp

/-- The text of one character. -/
theorem confix_p_add_esc_chars (s text : List UInt8) :
    confix_p (add_esc_chars P s ++ '"'.toUInt8 :: text) = some text := by
  induction s with
  | nil =>
    rw [add_esc_chars, List.flatMap_nil, List.nil_append, confix_p, if_pos rfl]
  | cons c s ih =>
    rw [add_esc_chars, List.flatMap_cons, List.append_assoc]
    rcases add_esc_char_cases c with ⟨letter, h, -, hoct, hx⟩ | ⟨h, hplain⟩
    · rw [h]
      exact (confix_p_escape hoct hx _).trans ih
    · rw [h]
      simp only
      split
      · exact (confix_p_cons hplain _).trans ih
      · exact (confix_p_non_printable _ _).trans ih

theorem substitute_add_esc_chars (s : List UInt8) :
    substitute_esc_chars (add_esc_chars P s) = s := by
  induction s with
  | nil => simp [add_esc_chars, substitute_esc_chars]
  | cons c s ih =>
    rw [add_esc_chars, List.flatMap_cons]
    change substitute_esc_chars (_ ++ add_esc_chars P s) = _
    rcases add_esc_char_cases c with ⟨letter, h, hletter, -, -⟩ | ⟨h, hplain⟩
    · rw [h]
      simp only [List.cons_append, List.nil_append]
      rw [substitute_esc_chars_escape, append_esc_char_and_incr_iter, hletter]
      simp only [List.cons_append, List.nil_append, ih]
    · rw [h]
      simp only
      split
      · exact (substitute_esc_chars_cons hplain _).trans (congrArg _ ih)
      · rw [substitute_esc_chars_non_printable, ih]

/-- **A string is a token**, up to its closing quote. -/
theorem string_p_outputStr (s text : List UInt8) :
    string_p (Generator.outputStr P s ++ text) = some (Generator.outputStr P s, text) := by
  have hch : ch_p '"'.toUInt8 (Generator.outputStr P s ++ text) =
      some ((), add_esc_chars P s ++ '"'.toUInt8 :: text) := by
    simp [Generator.outputStr, ch_p]
  rw [string_p, hch]
  simp only [confix_p_add_esc_chars, Option.map_some]
  rw [List.length_append, Nat.add_sub_cancel, List.take_left]

theorem get_str_outputStr (s : List UInt8) : get_str (Generator.outputStr P s) = s := by
  rw [get_str, Generator.outputStr, List.tail_cons, List.dropLast_concat, substitute_add_esc_chars]

/-! ## Numbers -/

/-- No number goes on there. -/
def Stops (rest : List UInt8) : Prop :=
  ∀ c ∈ rest.head?, isdigit c = false ∧ c ≠ '.'.toUInt8 ∧ c ≠ 'e'.toUInt8 ∧ c ≠ 'E'.toUInt8

variable {digits rest : List UInt8}

theorem takeWhile_stops (hdigits : ∀ c ∈ digits, isdigit c = true) (hrest : Stops rest) :
    (digits ++ rest).takeWhile isdigit = digits ∧ (digits ++ rest).dropWhile isdigit = rest := by
  rw [List.takeWhile_append_of_pos hdigits, List.dropWhile_append_of_pos hdigits]
  cases rest with
  | nil => simp
  | cons c rest =>
    have hc : ¬isdigit c = true := by
      rw [(hrest c rfl).1]
      exact Bool.false_ne_true
    rw [List.takeWhile_cons_of_neg hc, List.dropWhile_cons_of_neg hc, List.append_nil]
    exact ⟨rfl, rfl⟩

theorem exponent_p_stops (hrest : Stops rest) : exponent_p rest = some (none, rest) := by
  cases rest with
  | nil => rfl
  | cons c rest =>
    obtain ⟨-, -, he, hE⟩ := hrest c rfl
    exact if_neg fun h => h.elim he hE

/-- An integer with a sign or none in front. -/
def signed (negative : Bool) (digits : List UInt8) : List UInt8 :=
  (if negative then ['-'.toUInt8] else []) ++ digits

theorem takeSign_signed (negative : Bool) (hne : digits ≠ [])
    (hdigits : ∀ c ∈ digits, isdigit c = true) (text : List UInt8) :
    takeSign (signed negative digits ++ text) = (negative, digits ++ text) := by
  cases negative with
  | true => rfl
  | false => exact takeSign_digits hne hdigits

/-- An integer is not a real number. -/
theorem strict_real_p_signed (negative : Bool) (hne : digits ≠ [])
    (hdigits : ∀ c ∈ digits, isdigit c = true) (hrest : Stops rest) :
    strict_real_p (signed negative digits ++ rest) = none := by
  obtain ⟨htake, hdrop⟩ := takeWhile_stops hdigits hrest
  rw [strict_real_p, takeSign_signed negative hne hdigits]
  simp only [htake, hdrop]
  cases rest with
  | nil => rfl
  | cons c rest =>
    simp only [if_neg (hrest c rfl).2.1, if_neg hne, exponent_p_stops hrest]

theorem int64_p_signed (negative : Bool) (hne : digits ≠ [])
    (hdigits : ∀ c ∈ digits, isdigit c = true) (hrest : Stops rest) :
    int64_p (signed negative digits ++ rest) =
      if int64_most negative < decimalValue digits then none
      else
        some (.ofInt (if negative then -decimalValue digits else decimalValue digits), rest) := by
  obtain ⟨htake, hdrop⟩ := takeWhile_stops hdigits hrest
  rw [int64_p, takeSign_signed negative hne hdigits]
  simp only [htake, hdrop, hne, false_or]

theorem uint64_p_digits (hne : digits ≠ []) (hdigits : ∀ c ∈ digits, isdigit c = true)
    (hrest : Stops rest) (hlt : decimalValue digits < 2 ^ 64) :
    uint64_p (digits ++ rest) = some ((decimalValue digits).toUInt64, rest) := by
  obtain ⟨htake, hdrop⟩ := takeWhile_stops hdigits hrest
  rw [uint64_p, htake, hdrop, if_neg (not_or.2 ⟨hne, Nat.not_le.2 hlt⟩)]

theorem printed_ne_nil (n : Nat) : printed 10 n ≠ [] := by
  rw [printed_ten]
  simp

/-- The text of a real number, in pieces. -/
def realText (P : Platform ρ) (d : ρ) : RealText :=
  ⟨(P.fixed8 d).1, printed 10 (P.fixed8 d).2.1, printed08 (P.fixed8 d).2.2, none⟩

theorem strict_real_p_output_real (d : ρ) (hrest : Stops rest) :
    strict_real_p (Generator.output_real P d ++ rest) = some (realText P d, rest) := by
  have hsplit : Generator.output_real P d ++ rest =
      signed (P.fixed8 d).1 (printed 10 (P.fixed8 d).2.1) ++
        ('.'.toUInt8 :: (printed08 (P.fixed8 d).2.2 ++ rest)) := by
    simp [Generator.output_real, signed]
  have hwhole : ∀ c ∈ printed 10 (P.fixed8 d).2.1, isdigit c = true := isdigit_printed _
  obtain ⟨htake, hdrop⟩ := takeWhile_stops (isdigit_printed08 (P.fixed8 d).2.2) hrest
  have hdot : ¬isdigit '.'.toUInt8 = true := by decide
  rw [hsplit, strict_real_p, takeSign_signed _ (printed_ne_nil _) hwhole]
  simp only [List.takeWhile_append_of_pos hwhole, List.dropWhile_append_of_pos hwhole,
    List.takeWhile_cons_of_neg hdot, List.dropWhile_cons_of_neg hdot, List.append_nil, htake, hdrop,
    if_true, printed_ne_nil, false_and, if_false, exponent_p_stops hrest]
  rfl

theorem output_int_eq (i : Int64) (is_uint64 : Bool) :
    Generator.output_int i is_uint64 =
      if is_uint64 then printed 10 i.toUInt64.toNat
      else signed (i.toInt < 0) (printed 10 i.toInt.natAbs) := by
  unfold Generator.output_int signed
  by_cases h : i.toInt < 0 <;> simp [h]

theorem toNat_toUInt64 (i : Int64) :
    (i.toUInt64.toNat : Int) = if i.toInt < 0 then i.toInt + 2 ^ 64 else i.toInt := by
  have hlt : i.toUInt64.toNat < 2 ^ 64 := i.toUInt64.toNat_lt
  have hbmod : i.toInt = (i.toUInt64.toNat : Int).bmod (2 ^ 64) := BitVec.toInt_eq_toNat_bmod _
  rw [Int.bmod_def] at hbmod
  split <;> omega

/-- What `int64` has room for is read as it is. -/
theorem int64_p_output_int (i : Int64) {is_uint64 : Bool} (h : is_uint64 = true → 0 ≤ i.toInt)
    (hrest : Stops rest) :
    int64_p (Generator.output_int i is_uint64 ++ rest) = some (i, rest) := by
  have hle := i.le_toInt
  have hlt := i.toInt_lt
  rw [output_int_eq]
  cases is_uint64 with
  | true =>
    have hnat := toNat_toUInt64 i
    rw [if_neg (Int.not_lt.2 (h rfl))] at hnat
    have := int64_p_signed false (printed_ne_nil i.toUInt64.toNat) (isdigit_printed _) hrest
    rw [decimalValue_printed, if_neg (Nat.not_lt.2 ?_), hnat] at this
    · simpa [signed] using this
    · rw [int64_most, if_neg Bool.false_ne_true]
      omega
  | false =>
    rw [if_neg Bool.false_ne_true, int64_p_signed _ (printed_ne_nil _) (isdigit_printed _) hrest,
      decimalValue_printed, if_neg (Nat.not_lt.2 ?_)]
    · by_cases hneg : i.toInt < 0
      · have habs : -(i.toInt.natAbs : Int) = i.toInt := by omega
        rw [if_pos (by simpa using hneg), habs, Int64.ofInt_toInt]
      · have habs : (i.toInt.natAbs : Int) = i.toInt := by omega
        rw [if_neg (by simpa using hneg), habs, Int64.ofInt_toInt]
    · rw [int64_most]
      by_cases hneg : i.toInt < 0
      · rw [if_pos (by simpa using hneg)]
        omega
      · rw [if_neg (by simpa using hneg)]
        omega

/-- What only `uint64` has room for. -/
theorem int64_p_output_uint {i : Int64} (h : i.toInt < 0) (hrest : Stops rest) :
    int64_p (Generator.output_int i true ++ rest) = none := by
  have hnat := toNat_toUInt64 i
  have hle := i.le_toInt
  rw [if_pos h] at hnat
  have := int64_p_signed false (printed_ne_nil i.toUInt64.toNat) (isdigit_printed _) hrest
  rw [decimalValue_printed, if_pos ?_] at this
  · simpa [output_int_eq, signed] using this
  · rw [int64_most, if_neg Bool.false_ne_true]
    omega

theorem uint64_p_output_uint (i : Int64) (hrest : Stops rest) :
    uint64_p (Generator.output_int i true ++ rest) = some (i.toUInt64, rest) := by
  have hlt : i.toUInt64.toNat < 2 ^ 64 := i.toUInt64.toNat_lt
  rw [output_int_eq, if_pos rfl, uint64_p_digits (printed_ne_nil _) (isdigit_printed _) hrest]
  · rw [decimalValue_printed]
    simp
  · rwa [decimalValue_printed]

end TriTip
