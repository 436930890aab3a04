import Mathlib.Data.List.GetD
import Mathlib.Data.List.TakeWhile

/-!
# Alphabets

A character for each number below a size, and the numbers of characters, `-1` for those that have
none. Several characters may have one number. A decoder reads the digits at the front of a string
(`Alphabet.digits`) and stops at the rest.
-/

structure Alphabet (α : Type*) where
  size : Nat
  char : Nat → α
  entry : α → Int
  entry_char : ∀ x < size, entry (char x) = x
  entry_lt : ∀ c, entry c ≠ -1 → (entry c).toNat < size

namespace Alphabet

/-- A fact about the entry of a table for every byte. -/
theorem forall_entry {β : Type*} {t : List β} {d : β} {P : UInt8 → β → Prop}
    (hlength : t.length = 256) (h : ∀ x ∈ t.zipIdx, P (UInt8.ofNat x.2) x.1) (c : UInt8) :
    P c (t.getD c.toNat d) := by
  have hc : c.toNat < t.length := hlength ▸ c.toNat_lt
  have hentry := h (t[c.toNat], c.toNat) (by simp [List.mem_zipIdx_iff_getElem?, hc])
  rw [UInt8.ofNat_toNat] at hentry
  rwa [List.getD_eq_getElem _ _ hc]

variable {α σ : Type*} (A : Alphabet α) {c : α} {l : List Nat} {s t : List α} {x : Nat}

def isDigit (c : α) : Bool := A.entry c != -1

def number (c : α) : Nat := (A.entry c).toNat

/-- The characters of numbers. -/
def text (l : List Nat) : List α := l.map A.char

/-- The numbers of the characters before the first one that has none. -/
def digits (s : List α) : List Nat := (s.takeWhile A.isDigit).map A.number

def rest (s : List α) : List α := s.dropWhile A.isDigit

variable {A}

theorem isDigit_iff : A.isDigit c = true ↔ A.entry c ≠ -1 := by
  simp [isDigit]

theorem isDigit_char (hx : x < A.size) : A.isDigit (A.char x) = true := by
  rw [isDigit_iff, A.entry_char x hx]
  omega

@[simp] theorem number_char (hx : x < A.size) : A.number (A.char x) = x := by
  rw [number, A.entry_char x hx, Int.toNat_natCast]

@[simp] theorem digits_nil : A.digits [] = [] := rfl

@[simp] theorem rest_nil : A.rest [] = [] := rfl

theorem digits_cons (hc : A.entry c ≠ -1) : A.digits (c :: s) = A.number c :: A.digits s := by
  rw [digits, List.takeWhile_cons_of_pos (isDigit_iff.mpr hc), List.map_cons, digits]

theorem rest_cons (hc : A.entry c ≠ -1) : A.rest (c :: s) = A.rest s := by
  rw [rest, List.dropWhile_cons_of_pos (isDigit_iff.mpr hc), rest]

theorem digits_cons_of_entry (hc : A.entry c = -1) : A.digits (c :: s) = [] := by
  rw [digits, List.takeWhile_cons_of_neg (by simpa [isDigit] using hc), List.map_nil]

theorem digits_cons_eq_nil_iff : A.digits (c :: s) = [] ↔ A.entry c = -1 := by
  by_cases hc : A.entry c = -1
  · exact iff_of_true (digits_cons_of_entry hc) hc
  · rw [digits_cons hc]
    exact iff_of_false (List.cons_ne_nil _ _) hc

theorem rest_cons_of_entry (hc : A.entry c = -1) : A.rest (c :: s) = c :: s := by
  rw [rest, List.dropWhile_cons_of_neg (by simpa [isDigit] using hc)]

/-- The rest does not start with a digit. -/
theorem digits_rest : A.digits (A.rest s) = [] := by
  rw [digits, rest, List.map_eq_nil_iff, List.takeWhile_eq_nil_iff]
  intro h
  exact List.dropWhile_get_zero_not A.isDigit s h

/-- What does not start with a digit is all rest. -/
theorem rest_eq_self (h : A.digits s = []) : A.rest s = s := by
  cases s with
  | nil => rfl
  | cons c s => exact rest_cons_of_entry (digits_cons_eq_nil_iff.mp h)

theorem digits_lt : ∀ x ∈ A.digits s, x < A.size := by
  intro x hx
  obtain ⟨c, hc, rfl⟩ := List.mem_map.mp hx
  exact A.entry_lt c (isDigit_iff.mp (List.mem_takeWhile_imp hc))

theorem length_digits_add : (A.digits s).length + (A.rest s).length = s.length := by
  rw [digits, List.length_map, rest, ← List.length_append, List.takeWhile_append_dropWhile]

section text

variable (hl : ∀ x ∈ l, x < A.size)
include hl

theorem isDigit_text : ∀ c ∈ A.text l, A.isDigit c = true := by
  intro c hc
  obtain ⟨x, hx, rfl⟩ := List.mem_map.mp hc
  exact isDigit_char (hl x hx)

theorem digits_text_append : A.digits (A.text l ++ t) = l ++ A.digits t := by
  rw [digits, List.takeWhile_append_of_pos (isDigit_text hl), List.map_append, text, List.map_map]
  have hmap : l.map (A.number ∘ A.char) = l.map id :=
    List.map_congr_left fun x hx => number_char (hl x hx)
  rw [hmap, List.map_id, digits]

theorem rest_text_append : A.rest (A.text l ++ t) = A.rest t := by
  rw [rest, List.dropWhile_append_of_pos (isDigit_text hl), rest]

end text

/-- Where every digit is written as `f` of the character that was read, so are they all. -/
theorem text_digits (f : α → α) (hf : ∀ c, A.isDigit c = true → A.char (A.number c) = f c) :
    A.text (A.digits s) = (s.takeWhile A.isDigit).map f := by
  rw [text, digits, List.map_map]
  apply List.map_congr_left
  intro c hc
  exact hf c (List.mem_takeWhile_imp hc)

/-- A loop that goes on to the first character that is no digit. -/
theorem loop_eq {f : σ → Nat → σ} (loop : σ → List α → σ × List α)
    (hnil : ∀ st, loop st [] = (st, []))
    (hcons : ∀ st c p, loop st (c :: p) =
      if A.entry c = -1 then (st, c :: p) else loop (f st (A.entry c).toNat) p) (st : σ) :
    loop st s = ((A.digits s).foldl f st, A.rest s) := by
  induction s generalizing st with
  | nil => exact hnil st
  | cons c s ih =>
    by_cases hc : A.entry c = -1
    · rw [hcons, if_pos hc, digits_cons_of_entry hc, rest_cons_of_entry hc, List.foldl_nil]
    · rw [hcons, if_neg hc, ih, digits_cons hc, rest_cons hc, List.foldl_cons, number]

end Alphabet
