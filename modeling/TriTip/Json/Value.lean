import TriTip.Util.Decimal

/-!
# JSON values

`Value_impl` of `json_spirit_value.h` with `Config_vector`: an object is the vector of its pairs, in
the order in which they were added. A real number is a parameter; `Platform` says what the library
makes of one, how it is printed and which one a numeral is rounded to.

A `Value_type*` into a value under construction is the list of the places to go down, from the
root. `modify_concat_push` says how a change below the newest element looks from the container.
-/

namespace TriTip

/-- The text of a real number: sign, whole part, places behind the point, exponent. -/
structure RealText where
  negative : Bool
  whole : List UInt8
  places : List UInt8
  exponent : Option (Bool × List UInt8)
  deriving DecidableEq

/-- Characters and floating point numbers, as the libraries have them. -/
structure Platform (ρ : Type) where
  iswprint : UInt8 → Bool
  /-- `std::fixed` and `std::setprecision(8)`: the sign, the whole part and the eight places -/
  fixed8 : ρ → Bool × Nat × Fin (10 ^ 8)
  /-- the number that a text is rounded to -/
  round : RealText → ρ

inductive Value (ρ : Type) where
  | obj (pairs : List (List UInt8 × Value ρ))
  | array (elements : List (Value ρ))
  | str (s : List UInt8)
  | bool (b : Bool)
  | int (i : Int64) (is_uint64 : Bool)
  | real (d : ρ)
  | null

inductive Value_type
  | obj_type | array_type | str_type | bool_type | int_type | real_type | null_type
  deriving DecidableEq

namespace Value

variable {ρ : Type}

/-- `Value::type`. -/
def type : Value ρ → Value_type
  | obj _ => .obj_type
  | array _ => .array_type
  | str _ => .str_type
  | bool _ => .bool_type
  | int _ _ => .int_type
  | real _ => .real_type
  | null => .null_type

/-- An array or an object. -/
def isCompound : Value ρ → Bool
  | obj _ => true
  | array _ => true
  | _ => false

/-- `push_back`, under a name if it is an object. -/
def push : Value ρ → List UInt8 → Value ρ → Value ρ
  | obj pairs, name, child => obj (pairs ++ [(name, child)])
  | array elements, _, child => array (elements ++ [child])
  | v, _, _ => v

def size : Value ρ → Nat
  | obj pairs => pairs.length
  | array elements => elements.length
  | _ => 0

/-! ## Pointers into a value -/

def child? (i : Nat) : Value ρ → Option (Value ρ)
  | obj pairs => pairs[i]?.map Prod.snd
  | array elements => elements[i]?
  | _ => none

def modifyChild (i : Nat) (f : Value ρ → Value ρ) : Value ρ → Value ρ
  | obj pairs => obj (pairs.modify i fun p => (p.1, f p.2))
  | array elements => array (elements.modify i f)
  | v => v

/-- What a pointer points to. -/
def get? : List Nat → Value ρ → Option (Value ρ)
  | [], v => some v
  | i :: p, v => (v.child? i).bind (get? p)

/-- The value with what a pointer points to changed. -/
def modify : List Nat → (Value ρ → Value ρ) → Value ρ → Value ρ
  | [], f, v => f v
  | i :: p, f, v => v.modifyChild i (modify p f)

variable {v w child : Value ρ} {p : List Nat} {f g : Value ρ → Value ρ} {name : List UInt8}

theorem child?_modifyChild (i : Nat) (f : Value ρ → Value ρ) (v : Value ρ) :
    (v.modifyChild i f).child? i = (v.child? i).map f := by
  cases v <;> simp [modifyChild, child?, Function.comp_def]

theorem modifyChild_modifyChild (i : Nat) (f g : Value ρ → Value ρ) (v : Value ρ) :
    (v.modifyChild i f).modifyChild i g = v.modifyChild i fun c => g (f c) := by
  cases v <;> simp [modifyChild, List.modify_modify_eq, Function.comp_def]

/-- A pointer to what has been changed points to the new value. -/
theorem get?_modify (h : v.get? p = some w) (f : Value ρ → Value ρ) :
    (v.modify p f).get? p = some (f w) := by
  induction p generalizing v with
  | nil =>
    obtain rfl := Option.some.inj h
    rfl
  | cons i p ih =>
    obtain ⟨c, hc, hw⟩ := Option.bind_eq_some_iff.1 h
    rw [modify, get?, child?_modifyChild, hc]
    exact ih hw

theorem modify_modify (p : List Nat) (f g : Value ρ → Value ρ) (v : Value ρ) :
    (v.modify p f).modify p g = v.modify p fun c => g (f c) := by
  induction p generalizing v with
  | nil => rfl
  | cons i p ih =>
    simp only [modify, modifyChild_modifyChild, ih]

theorem get?_append (p q : List Nat) (v : Value ρ) :
    v.get? (p ++ q) = (v.get? p).bind (get? q) := by
  induction p generalizing v with
  | nil => rfl
  | cons i p ih =>
    rw [List.cons_append, get?, get?, Option.bind_assoc]
    simp only [ih]

theorem modify_append (p q : List Nat) (f : Value ρ → Value ρ) (v : Value ρ) :
    v.modify (p ++ q) f = v.modify p (modify q f) := by
  induction p generalizing v with
  | nil => rfl
  | cons i p ih =>
    have hp : modify (p ++ q) f = modify p (modify q f) := funext ih
    rw [List.cons_append, modify, modify, hp]

/-! ## The newest element of a container -/

theorem modifyChild_congr {i : Nat} (h : v.child? i = some w) (hfg : f w = g w) :
    v.modifyChild i f = v.modifyChild i g := by
  cases v with
  | obj pairs =>
    obtain ⟨e, he, rfl⟩ := Option.map_eq_some_iff.1 h
    refine congrArg obj (List.ext_getElem? fun j => ?_)
    rw [List.getElem?_modify, List.getElem?_modify]
    by_cases hij : i = j
    · subst hij
      simp [he, hfg]
    · simp only [if_neg hij]
  | array elements =>
    refine congrArg array (List.ext_getElem? fun j => ?_)
    rw [List.getElem?_modify, List.getElem?_modify]
    by_cases hij : i = j
    · subst hij
      have h' : elements[i]? = some w := h
      simp [h', hfg]
    · simp only [if_neg hij]
  | _ => rfl

/-- Changes that agree on what a pointer points to are the same. -/
theorem modify_congr (h : v.get? p = some w) (hfg : f w = g w) : v.modify p f = v.modify p g := by
  induction p generalizing v with
  | nil =>
    obtain rfl := Option.some.inj h
    exact hfg
  | cons i p ih =>
    obtain ⟨c, hc, hw⟩ := Option.bind_eq_some_iff.1 h
    exact modifyChild_congr hc (ih hw)

theorem child?_push (h : v.isCompound) : (v.push name child).child? v.size = some child := by
  cases v with
  | obj pairs => simp [push, size, child?]
  | array elements => simp [push, size, child?]
  | _ => simp [isCompound] at h

theorem modifyChild_push (f : Value ρ → Value ρ) (v : Value ρ) :
    (v.push name child).modifyChild v.size f = v.push name (f child) := by
  cases v <;> simp [push, size, modifyChild, List.modify_eq_take_cons_drop]

/-- What is newest in a container, through a pointer to the container. -/
theorem get?_concat_push (h : v.get? p = some w) (hw : w.isCompound) :
    (v.modify p (·.push name child)).get? (p ++ [w.size]) = some child := by
  rw [get?_append, get?_modify h, Option.bind_some, get?, child?_push hw]
  rfl

/-- **A change below the newest element** is one of the element that was put there. -/
theorem modify_concat_push (h : v.get? p = some w) (f : Value ρ → Value ρ) :
    (v.modify p (·.push name child)).modify (p ++ [w.size]) f =
      v.modify p (·.push name (f child)) := by
  rw [modify_append, modify_modify]
  exact modify_congr h (modifyChild_push f w)

/-! ## Values as trees -/

@[elab_as_elim]
theorem induct {motive : Value ρ → Prop}
    (obj : ∀ pairs, (∀ p ∈ pairs, motive p.2) → motive (.obj pairs))
    (array : ∀ elements, (∀ v ∈ elements, motive v) → motive (.array elements))
    (str : ∀ s, motive (.str s)) (bool : ∀ b, motive (.bool b))
    (int : ∀ i is_uint64, motive (.int i is_uint64)) (real : ∀ d, motive (.real d))
    (null : motive .null) : ∀ v, motive v
  | .obj pairs => obj pairs fun p _ => induct obj array str bool int real null p.2
  | .array elements => array elements fun v _ => induct obj array str bool int real null v
  | .str s => str s
  | .bool b => bool b
  | .int i is_uint64 => int i is_uint64
  | .real d => real d
  | .null => null
termination_by v => v
decreasing_by
  · next hp =>
    have hsize := List.sizeOf_lt_of_mem hp
    obtain ⟨name, v⟩ := p
    simp only [Value.obj.sizeOf_spec, Prod.mk.sizeOf_spec] at hsize ⊢
    omega
  · next hv =>
    have hsize := List.sizeOf_lt_of_mem hv
    simp only [Value.array.sizeOf_spec]
    omega

mutual

/-- The marks of the integers and the real numbers changed. -/
def map (int : Int64 → Bool → Bool) (real : ρ → ρ) : Value ρ → Value ρ
  | .obj pairs => .obj (mapPairs int real pairs)
  | .array elements => .array (mapElements int real elements)
  | .str s => .str s
  | .bool b => .bool b
  | .int i is_uint64 => .int i (int i is_uint64)
  | .real d => .real (real d)
  | .null => .null

def mapElements (int : Int64 → Bool → Bool) (real : ρ → ρ) : List (Value ρ) → List (Value ρ)
  | [] => []
  | value :: elements => map int real value :: mapElements int real elements

def mapPairs (int : Int64 → Bool → Bool) (real : ρ → ρ) :
    List (List UInt8 × Value ρ) → List (List UInt8 × Value ρ)
  | [] => []
  | pair :: pairs => mapPair int real pair :: mapPairs int real pairs

def mapPair (int : Int64 → Bool → Bool) (real : ρ → ρ) :
    List UInt8 × Value ρ → List UInt8 × Value ρ
  | (name, value) => (name, map int real value)

end

variable {int : Int64 → Bool → Bool} {real : ρ → ρ}

theorem mapElements_eq (elements : List (Value ρ)) :
    mapElements int real elements = elements.map (map int real) := by
  induction elements with
  | nil => rfl
  | cons v elements ih => rw [mapElements, ih, List.map_cons]

theorem mapPairs_eq (pairs : List (List UInt8 × Value ρ)) :
    mapPairs int real pairs = pairs.map fun p => (p.1, p.2.map int real) := by
  induction pairs with
  | nil => rfl
  | cons p pairs ih => rw [mapPairs, ih, List.map_cons, mapPair]

end Value

end TriTip
