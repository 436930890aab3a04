import TriTip.Json.Value
import TriTip.Net.MessageHeader
import TriTip.Store.Salvage
import TriTip.Util.Money

/-!
# Writing JSON

`add_esc_chars` and `Generator` of `json_spirit_writer_template.h`. What the generator puts into the
stream is a list of characters; with `pretty` each element has a line of its own, indented by its
depth.
-/

namespace TriTip

variable {ρ : Type} (P : Platform ρ) (pretty : Bool)

def to_hex_char (c : Nat) : UInt8 :=
  if c < 10 then '0'.toUInt8 + c.toUInt8 else 'A'.toUInt8 - 10 + c.toUInt8

def non_printable_to_string (c : Nat) : List UInt8 :=
  chars "\\u" ++ [to_hex_char (c / 16 ^ 3 % 16), to_hex_char (c / 16 ^ 2 % 16),
    to_hex_char (c / 16 % 16), to_hex_char (c % 16)]

/-- What an escape is for, and the letter behind the backslash. -/
def escapes : List (UInt8 × UInt8) :=
  [('"'.toUInt8, '"'.toUInt8), ('\\'.toUInt8, '\\'.toUInt8), (8, 'b'.toUInt8), (12, 'f'.toUInt8),
    ('\n'.toUInt8, 'n'.toUInt8), ('\r'.toUInt8, 'r'.toUInt8), ('\t'.toUInt8, 't'.toUInt8)]

def add_esc_char (c : UInt8) : Option (List UInt8) :=
  (escapes.lookup c).map fun letter => ['\\'.toUInt8, letter]

def add_esc_chars (s : List UInt8) : List UInt8 :=
  s.flatMap fun c =>
    match add_esc_char c with
    | some text => text
    | none => if P.iswprint c then [c] else non_printable_to_string c.toNat

namespace Generator

def indent (indentation_level : Nat) : List UInt8 :=
  if pretty then (List.replicate indentation_level (chars "    ")).flatten else []

def space : List UInt8 := if pretty then [' '.toUInt8] else []

def new_line : List UInt8 := if pretty then [newline] else []

/-- A string, between quotes. -/
def outputStr (s : List UInt8) : List UInt8 :=
  '"'.toUInt8 :: (add_esc_chars P s ++ ['"'.toUInt8])

def output_int (i : Int64) (is_uint64 : Bool) : List UInt8 :=
  if is_uint64 then printed 10 i.toUInt64.toNat
  else if i.toInt < 0 then '-'.toUInt8 :: printed 10 i.toInt.natAbs
  else printed 10 i.toInt.natAbs

def output_real (d : ρ) : List UInt8 :=
  let (negative, whole, places) := P.fixed8 d
  (if negative then ['-'.toUInt8] else []) ++ (printed 10 whole ++ '.'.toUInt8 :: printed08 places)

/-- The elements of a container, with a comma behind each but the last. -/
def items (indentation_level : Nat) : List (List UInt8) → List UInt8
  | [] => []
  | text :: rest =>
    indent pretty indentation_level ++ (text ++
      ((if rest.isEmpty then [] else [','.toUInt8]) ++
        (new_line pretty ++ items indentation_level rest)))

def output_array_or_obj (texts : List (List UInt8)) (start_char end_char : UInt8)
    (indentation_level : Nat) : List UInt8 :=
  start_char :: (new_line pretty ++ (items pretty (indentation_level + 1) texts ++
    (indent pretty indentation_level ++ [end_char])))

mutual

def output : Value ρ → Nat → List UInt8
  | .obj pairs, level =>
    output_array_or_obj pretty (outputPairs pairs (level + 1)) '{'.toUInt8 '}'.toUInt8 level
  | .array elements, level =>
    output_array_or_obj pretty (outputElements elements (level + 1)) '['.toUInt8 ']'.toUInt8 level
  | .str s, _ => outputStr P s
  | .bool b, _ => if b then chars "true" else chars "false"
  | .int i is_uint64, _ => output_int i is_uint64
  | .real d, _ => output_real P d
  | .null, _ => chars "null"

def outputElements : List (Value ρ) → Nat → List (List UInt8)
  | [], _ => []
  | value :: elements, level => output value level :: outputElements elements level

def outputPairs : List (List UInt8 × Value ρ) → Nat → List (List UInt8)
  | [], _ => []
  | pair :: pairs, level => outputPair pair level :: outputPairs pairs level

def outputPair : List UInt8 × Value ρ → Nat → List UInt8
  | (name, value), level =>
    outputStr P name ++ (space pretty ++ ':'.toUInt8 :: (space pretty ++ output value level))

end

end Generator

def write_string (value : Value ρ) : List UInt8 := Generator.output P pretty value 0

end TriTip
