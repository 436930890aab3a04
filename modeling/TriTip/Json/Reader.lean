import TriTip.Json.Value
import TriTip.Lib.Phrase
import TriTip.Net.MessageHeader
import TriTip.Util.Decimal

/-!
# Reading JSON

The grammar of `json_spirit_reader_template.h` and its semantic actions. The tokens are those of the
parser library that the grammar is written with: `lex_escape_ch_p`, `strict_real_p`, integers that
have room in 64 bits, each behind blanks. The actions build the value through a pointer to the
container under construction and a stack of pointers to those around it; an assertion that fails
aborts. A grammar that goes down further than the text is long aborts as well.
-/

namespace TriTip

variable {ρ : Type} (P : Platform ρ)

/-! ## Strings -/

def hex_to_num (c : UInt8) : UInt8 :=
  if '0'.toUInt8 ≤ c ∧ c ≤ '9'.toUInt8 then c - '0'.toUInt8
  else if 'a'.toUInt8 ≤ c ∧ c ≤ 'f'.toUInt8 then c - 'a'.toUInt8 + 10
  else if 'A'.toUInt8 ≤ c ∧ c ≤ 'F'.toUInt8 then c - 'A'.toUInt8 + 10
  else 0

/-- The number of hexadecimal digits, cut to a character. -/
def hex_str_to_char (digits : List UInt8) : UInt8 :=
  (Radix.value 16 (digits.map fun c => (hex_to_num c).toNat)).toUInt8

/-- The letters behind a backslash that stand for a character. -/
def letters : List (UInt8 × UInt8) :=
  [('t'.toUInt8, '\t'.toUInt8), ('b'.toUInt8, 8), ('f'.toUInt8, 12), ('n'.toUInt8, '\n'.toUInt8),
    ('r'.toUInt8, '\r'.toUInt8), ('\\'.toUInt8, '\\'.toUInt8), ('/'.toUInt8, '/'.toUInt8),
    ('"'.toUInt8, '"'.toUInt8)]

/-- What the text behind a backslash adds, and what is left of it. -/
def append_esc_char_and_incr_iter (c2 : UInt8) (rest : List UInt8) : List UInt8 × List UInt8 :=
  match letters.lookup c2 with
  | some c => ([c], rest)
  | none =>
    if c2 = 'x'.toUInt8 ∧ 2 ≤ rest.length then ([hex_str_to_char (rest.take 2)], rest.drop 2)
    else if c2 = 'u'.toUInt8 ∧ 4 ≤ rest.length then ([hex_str_to_char (rest.take 4)], rest.drop 4)
    else ([], rest)

theorem length_append_esc_char_and_incr_iter (c2 : UInt8) (rest : List UInt8) :
    (append_esc_char_and_incr_iter c2 rest).2.length ≤ rest.length := by
  unfold append_esc_char_and_incr_iter
  split
  · exact le_rfl
  · split
    · simp
    · split <;> simp

def substitute_esc_chars : List UInt8 → List UInt8
  | [] => []
  | [c] => [c]
  | c :: c2 :: rest =>
    if c = '\\'.toUInt8 then
      have := length_append_esc_char_and_incr_iter c2 rest
      let r := append_esc_char_and_incr_iter c2 rest
      r.1 ++ substitute_esc_chars r.2
    else c :: substitute_esc_chars (c2 :: rest)
termination_by text => text.length
decreasing_by
  · simp only [List.length_cons]
    omega
  · simp

/-- A text between quotes. -/
def get_str (text : List UInt8) : List UInt8 := substitute_esc_chars text.tail.dropLast

/-! ## Tokens -/

def ch_p (c : UInt8) : List UInt8 → Option (Unit × List UInt8)
  | [] => none
  | d :: rest => if d = c then some ((), rest) else none

def str_p (str : List UInt8) (text : List UInt8) : Option (Unit × List UInt8) :=
  if str.isPrefixOf text then some ((), text.drop str.length) else none

def isodigit (c : UInt8) : Bool := '0'.toUInt8 ≤ c ∧ c ≤ '7'.toUInt8

def isxdigit (c : UInt8) : Bool := hex_to_num c ≠ 0 ∨ c = '0'.toUInt8

/-- So many digits at most, of a number that has room in a signed character. -/
def narrow_p (radix most : Nat) (digit : UInt8 → Bool) (text : List UInt8) :
    Option (List UInt8) :=
  let digits := (text.take most).takeWhile digit
  if digits = [] ∨ 127 < Radix.value radix (digits.map fun c => (hex_to_num c).toNat) then none
  else some (text.drop digits.length)

/-- What goes with a backslash. -/
def escaped_p (text : List UInt8) : Option (List UInt8) :=
  match narrow_p 8 3 isodigit text with
  | some rest => some rest
  | none =>
    match text with
    | [] => none
    | c :: rest =>
      if c = 'x'.toUInt8 ∨ c = 'X'.toUInt8 then narrow_p 16 2 isxdigit rest else some rest

/-- A character, or a backslash and what goes with it. -/
def lex_escape_ch_p : List UInt8 → Option (List UInt8)
  | [] => none
  | c :: text => if c ≠ '\\'.toUInt8 then some text else escaped_p text

theorem length_narrow_p {radix most : Nat} {digit : UInt8 → Bool} {text rest : List UInt8}
    (h : narrow_p radix most digit text = some rest) : rest.length ≤ text.length := by
  unfold narrow_p at h
  simp only at h
  split at h
  · cases h
  · obtain rfl := Option.some.inj h
    simp

theorem length_escaped_p {text rest : List UInt8} (h : escaped_p text = some rest) :
    rest.length ≤ text.length := by
  unfold escaped_p at h
  split at h
  · next hn =>
    obtain rfl := Option.some.inj h
    exact length_narrow_p hn
  · split at h
    · cases h
    · rw [List.length_cons]
      split at h
      · exact Nat.le_succ_of_le (length_narrow_p h)
      · obtain rfl := Option.some.inj h
        exact Nat.le_succ _

theorem length_lex_escape_ch_p {text rest : List UInt8} (h : lex_escape_ch_p text = some rest) :
    rest.length < text.length := by
  cases text with
  | nil => cases h
  | cons c text =>
    rw [lex_escape_ch_p] at h
    rw [List.length_cons]
    split at h
    · obtain rfl := Option.some.inj h
      exact Nat.lt_succ_self _
    · exact Nat.lt_succ_of_le (length_escaped_p h)

/-- `*(lex_escape_ch_p - '"') >> '"'`: what is behind the quote. -/
def confix_p (text : List UInt8) : Option (List UInt8) :=
  match text with
  | [] => none
  | c :: rest =>
    if c = '"'.toUInt8 then some rest
    else
      match h : lex_escape_ch_p (c :: rest) with
      | none => none
      | some text' =>
        have := length_lex_escape_ch_p h
        confix_p text'
termination_by text.length
decreasing_by exact this

/-- A string with its quotes. -/
def string_p (text : List UInt8) : Option (List UInt8 × List UInt8) :=
  match ch_p '"'.toUInt8 text with
  | none => none
  | some (_, body) => (confix_p body).map fun rest => (text.take (text.length - rest.length), rest)

def uint64_p (text : List UInt8) : Option (UInt64 × List UInt8) :=
  let digits := text.takeWhile isdigit
  if digits = [] ∨ 2 ^ 64 ≤ decimalValue digits then none
  else some ((decimalValue digits).toUInt64, text.dropWhile isdigit)

/-- The largest magnitude of an `int64`. -/
def int64_most (negative : Bool) : Nat := if negative then 2 ^ 63 else 2 ^ 63 - 1

def int64_p (text : List UInt8) : Option (Int64 × List UInt8) :=
  let (negative, s) := takeSign text
  let digits := s.takeWhile isdigit
  if digits = [] ∨ int64_most negative < decimalValue digits then none
  else
    some (.ofInt (if negative then -decimalValue digits else decimalValue digits),
      s.dropWhile isdigit)

/-- The exponent of a real number, if there is one; its digits have to be there. -/
def exponent_p : List UInt8 → Option (Option (Bool × List UInt8) × List UInt8)
  | [] => some (none, [])
  | c :: text =>
    if c = 'e'.toUInt8 ∨ c = 'E'.toUInt8 then
      let (negative, s) := takeSign text
      if s.takeWhile isdigit = [] then none
      else some (some (negative, s.takeWhile isdigit), s.dropWhile isdigit)
    else some (none, c :: text)

/-- A real number has a point or an exponent. -/
def strict_real_p (text : List UInt8) : Option (RealText × List UInt8) :=
  let (negative, s) := takeSign text
  let whole := s.takeWhile isdigit
  match s.dropWhile isdigit with
  | [] => none
  | c :: s' =>
    if c = '.'.toUInt8 then
      let places := s'.takeWhile isdigit
      if whole = [] ∧ places = [] then none
      else (exponent_p (s'.dropWhile isdigit)).map fun e => (⟨negative, whole, places, e.1⟩, e.2)
    else if whole = [] then none
    else
      match exponent_p (c :: s') with
      | some (some e, rest) => some (⟨negative, whole, [], some e⟩, rest)
      | _ => none

/-! ## Semantic actions -/

/-- A value under construction. The pointers are paths from its root, `none` is the null pointer. -/
structure Semantic_actions (ρ : Type) where
  value_ : Value ρ
  current_p_ : Option (List Nat)
  stack_ : List (List Nat)
  name_ : List UInt8

namespace Semantic_actions

def init (value : Value ρ) : Semantic_actions ρ := ⟨value, none, [], []⟩

/-- The value that `current_p_` points to. -/
def current (s : Semantic_actions ρ) : Option (Value ρ) :=
  s.current_p_.bind fun p => s.value_.get? p

/-- The new pointer as well; none where an assertion fails. -/
def add_to_current (value : Value ρ) (s : Semantic_actions ρ) :
    Option (Semantic_actions ρ × List Nat) :=
  match s.current_p_ with
  | none => some ({ s with value_ := value, current_p_ := some [] }, [])
  | some p =>
    (s.value_.get? p).bind fun current =>
      if current.isCompound then
        some ({ s with value_ := s.value_.modify p (·.push s.name_ value) }, p ++ [current.size])
      else none

def add (value : Value ρ) (s : Semantic_actions ρ) : Option (Semantic_actions ρ) :=
  (s.add_to_current value).map Prod.fst

def begin_compound (empty : Value ρ) (s : Semantic_actions ρ) : Option (Semantic_actions ρ) :=
  match s.current_p_ with
  | none => s.add empty
  | some p =>
    (s.add_to_current empty).map fun r =>
      { r.1 with stack_ := s.stack_ ++ [p], current_p_ := some r.2 }

def end_compound (s : Semantic_actions ρ) : Option (Semantic_actions ρ) :=
  if s.current_p_ ≠ some [] then
    s.stack_.getLast?.map fun p =>
      { s with current_p_ := some p, stack_ := s.stack_.dropLast }
  else some s

def new_name (text : List UInt8) (s : Semantic_actions ρ) : Option (Semantic_actions ρ) :=
  s.current.bind fun current =>
    if current.type = .obj_type then some { s with name_ := get_str text } else none

end Semantic_actions

/-! ## The grammar -/

namespace Json_grammar

open Phrase Phrase.Rule Semantic_actions

abbrev Rule (ρ : Type) := Phrase.Rule UInt8 (Semantic_actions ρ) String

/-- A token behind blanks. -/
def lexeme {β : Type} (read : List UInt8 → Option (β × List UInt8))
    (action : β → Semantic_actions ρ → Option (Semantic_actions ρ)) : Rule ρ :=
  token isspace read action

def string_ (action : List UInt8 → Semantic_actions ρ → Option (Semantic_actions ρ)) : Rule ρ :=
  lexeme string_p action

def number_ : Rule ρ :=
  (lexeme strict_real_p fun d => add (.real (P.round d))).alt
    ((lexeme int64_p fun i => add (.int i false)).alt
      (lexeme uint64_p fun ui => add (.int ui.toInt64 true)))

/-- A token that no action belongs to. -/
def punct (c : Char) : Rule ρ := lexeme (ch_p c.toUInt8) fun _ => some

/-- `body >> *( ',' >> body )` -/
def sequence_ (body : Rule ρ) : Rule ρ :=
  body.seq fun s text => ((punct ',').seq body).rounds (text.length + 1) s text

def pair_ (value_ : Rule ρ) : Rule ρ :=
  (string_ new_name).seq
    (((punct ':').alt (raise "no colon in pair")).seq (value_.alt (raise "not a value")))

def object_ (value_ : Rule ρ) : Rule ρ :=
  (lexeme (ch_p '{'.toUInt8) fun _ => begin_compound (.obj [])).seq
    ((sequence_ (pair_ value_)).opt.seq
      ((lexeme (ch_p '}'.toUInt8) fun _ => end_compound).alt (raise "not an object")))

def array_ (value_ : Rule ρ) : Rule ρ :=
  (lexeme (ch_p '['.toUInt8) fun _ => begin_compound (.array [])).seq
    ((sequence_ value_).opt.seq
      ((lexeme (ch_p ']'.toUInt8) fun _ => end_compound).alt (raise "not an array")))

/-- A value of at most this depth. -/
def value_ : Nat → Rule ρ
  | 0 => fun s _ => (s, .aborted)
  | depth + 1 =>
    (string_ fun text => add (.str (get_str text))).alt
      ((number_ P).alt
        ((object_ (value_ depth)).alt
          ((array_ (value_ depth)).alt
            ((lexeme (str_p (chars "true")) fun _ => add (.bool true)).alt
              ((lexeme (str_p (chars "false")) fun _ => add (.bool false)).alt
                (lexeme (str_p (chars "null")) fun _ => add .null))))))

def json_ (depth : Nat) : Rule ρ := (value_ P depth).alt (raise "not a value")

end Json_grammar

open Phrase in
/-- `read_string`: whether a value was read, and what `value` is afterwards. -/
def read_string (s : List UInt8) (value : Value ρ) : Option (Bool × Value ρ) :=
  match Json_grammar.json_ P (s.length + 1) (.init value) s with
  | (actions, .hit _) => some (true, actions.value_)
  | (actions, .thrown _) => some (false, actions.value_)
  | (_, .miss) => none
  | (_, .aborted) => none

end TriTip
