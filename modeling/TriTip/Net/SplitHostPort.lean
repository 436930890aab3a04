import TriTip.Util.Decimal

/-!
# Hosts and ports

`SplitHostPort` of `netbase.cpp`. The port goes through `strtol`, which takes blanks, a sign and
numbers of any size, and then into an `int`, which drops the high bits of a `long`; a port is
therefore also found where the text is no port number (`SplitHostPort_iff`).
-/

namespace TriTip

/-- `find_last_of` of one character. -/
def find_last_of (c : UInt8) : List UInt8 → Option Nat
  | [] => none
  | c' :: s =>
    match find_last_of c s with
    | some i => some (i + 1)
    | none => if c' = c then some 0 else none

/-- One pair of brackets around the host is left out. -/
def withoutBrackets (str : List UInt8) : List UInt8 :=
  if str.length > 0 ∧ str.getD 0 0 = '['.toUInt8 ∧ str.getD (str.length - 1) 0 = ']'.toUInt8 then
    (str.drop 1).take (str.length - 2)
  else str

/-- `portOut` and `hostOut`. -/
def SplitHostPort (str : List UInt8) (portOut : Int) : Int × List UInt8 :=
  match find_last_of ':'.toUInt8 str with
  | none => (portOut, withoutBrackets str)
  | some colon =>
    let fBracketed := str.getD 0 0 = '['.toUInt8 ∧ str.getD (colon - 1) 0 = ']'.toUInt8
    let fMultiColon := find_last_of ':'.toUInt8 (str.take colon) ≠ none
    if colon = 0 ∨ fBracketed ∨ ¬ fMultiColon then
      let (l, endp) := strtol (str.drop (colon + 1))
      -- the `long` is stored in an `int`
      let n := l.bmod (2 ^ 32)
      if AtEnd endp ∧ n ≥ 0 then
        (if n > 0 ∧ n < 0x10000 then n else portOut, withoutBrackets (str.take colon))
      else (portOut, withoutBrackets str)
    else (portOut, withoutBrackets str)

/-- A colon behind this text is before a port. -/
def Separates (host : List UInt8) : Prop :=
  host = [] ∨ (host.head? = some '['.toUInt8 ∧ host.getLast? = some ']'.toUInt8) ∨
    ':'.toUInt8 ∉ host

instance (host : List UInt8) : Decidable (Separates host) :=
  inferInstanceAs (Decidable (_ ∨ _ ∨ _))

variable {c : UInt8} {str host text : List UInt8} {portOut : Int}

theorem find_last_of_eq_none_iff : find_last_of c str = none ↔ c ∉ str := by
  induction str with
  | nil => simp [find_last_of]
  | cons c' str ih =>
    rw [find_last_of, List.mem_cons, not_or, ← ih]
    cases find_last_of c str with
    | none => simp [eq_comm]
    | some i => simp

theorem find_last_of_append (hc : c ∉ text) :
    find_last_of c (host ++ c :: text) = some host.length := by
  induction host with
  | nil => rw [List.nil_append, find_last_of, find_last_of_eq_none_iff.mpr hc]; simp
  | cons c' host ih => rw [List.cons_append, find_last_of, ih, List.length_cons]

theorem exists_last_colon (h : c ∈ str) : ∃ host text, str = host ++ c :: text ∧ c ∉ text := by
  induction str with
  | nil => cases h
  | cons c' str ih =>
    by_cases hstr : c ∈ str
    · obtain ⟨host, text, rfl, htext⟩ := ih hstr
      exact ⟨c' :: host, text, rfl, htext⟩
    · obtain rfl := (List.mem_cons.mp h).resolve_right hstr
      exact ⟨[], str, rfl, hstr⟩

theorem last_colon_unique {host' text' : List UInt8} (htext : c ∉ text) (htext' : c ∉ text')
    (h : host ++ c :: text = host' ++ c :: text') : host = host' ∧ text = text' := by
  have hlength := congrArg (find_last_of c) h
  rw [find_last_of_append htext, find_last_of_append htext', Option.some.injEq] at hlength
  obtain ⟨hhost, hrest⟩ := List.append_inj h hlength
  exact ⟨hhost, (List.cons.inj hrest).2⟩

/-- The tests of the code for the colon at the end of `host`. -/
theorem separates_iff :
    (host.length = 0 ∨
      ((host ++ ':'.toUInt8 :: text).getD 0 0 = '['.toUInt8 ∧
        (host ++ ':'.toUInt8 :: text).getD (host.length - 1) 0 = ']'.toUInt8) ∨
      ¬ find_last_of ':'.toUInt8 host ≠ none) ↔ Separates host := by
  rw [not_not, find_last_of_eq_none_iff, Separates]
  cases host with
  | nil => simp
  | cons c' host =>
    have hlast : host.length < (c' :: host).length := Nat.lt_succ_self _
    rw [List.getLast?_eq_getElem?, List.length_cons, Nat.add_sub_cancel,
      List.getD_append _ _ _ _ hlast, List.getD_eq_getElem _ _ hlast,
      List.getElem?_eq_getElem hlast]
    simp

theorem SplitHostPort_of_colon (htext : ':'.toUInt8 ∉ text) (portOut : Int) :
    SplitHostPort (host ++ ':'.toUInt8 :: text) portOut =
      if Separates host then
        if AtEnd (strtol text).2 ∧ (strtol text).1.bmod (2 ^ 32) ≥ 0 then
          (if (strtol text).1.bmod (2 ^ 32) > 0 ∧ (strtol text).1.bmod (2 ^ 32) < 0x10000 then
            (strtol text).1.bmod (2 ^ 32)
          else portOut, withoutBrackets host)
        else (portOut, withoutBrackets (host ++ ':'.toUInt8 :: text))
      else (portOut, withoutBrackets (host ++ ':'.toUInt8 :: text)) := by
  have hdrop : (host ++ ':'.toUInt8 :: text).drop (host.length + 1) = text := by
    rw [List.drop_length_add_append]
    rfl
  rw [SplitHostPort, find_last_of_append htext]
  simp only [List.take_left, hdrop, separates_iff]

theorem SplitHostPort_of_no_colon (h : ':'.toUInt8 ∉ str) (portOut : Int) :
    SplitHostPort str portOut = (portOut, withoutBrackets str) := by
  rw [SplitHostPort, find_last_of_eq_none_iff.mpr h]

/-- The `int` of what `strtol` returns is a port if and only if the number fits into a `long` and
its low bits are the port. -/
theorem narrowed_iff {m p : Int} (hp : 1 ≤ p) (hp' : p ≤ 65535) :
    (saturate m).bmod (2 ^ 32) = p ↔ (-2 ^ 63 ≤ m ∧ m < 2 ^ 63) ∧ m % 2 ^ 32 = p := by
  rw [Int.bmod_def, saturate]
  omega

/-- A numeral with the low bits of a port sets the port. -/
theorem SplitHostPort_of_numeral {m : Int} (htext : ':'.toUInt8 ∉ text) (hhost : Separates host)
    (hm : Numeral text m) (hlow : -2 ^ 63 ≤ m) (hhigh : m < 2 ^ 63) (hp : 1 ≤ m % 2 ^ 32)
    (hp' : m % 2 ^ 32 ≤ 65535) (portOut : Int) :
    SplitHostPort (host ++ ':'.toUInt8 :: text) portOut =
      (m % 2 ^ 32, withoutBrackets host) := by
  obtain ⟨rest, hstrtol, hrest⟩ := hm.strtol_eq
  have hn := (narrowed_iff hp hp').mpr ⟨⟨hlow, hhigh⟩, rfl⟩
  rw [SplitHostPort_of_colon htext, if_pos hhost, hstrtol]
  simp only [hn]
  rw [if_pos ⟨hrest, by omega⟩, if_pos ⟨by omega, by omega⟩]

/-- Nothing else does. -/
theorem exists_numeral_of_changed (h : (SplitHostPort str portOut).1 ≠ portOut) :
    ∃ host text m, str = host ++ ':'.toUInt8 :: text ∧ ':'.toUInt8 ∉ text ∧ Separates host ∧
      Numeral text m ∧ (-2 ^ 63 ≤ m ∧ m < 2 ^ 63) ∧ 1 ≤ m % 2 ^ 32 ∧ m % 2 ^ 32 ≤ 65535 := by
  by_cases hcolon : ':'.toUInt8 ∈ str
  · obtain ⟨host, text, rfl, htext⟩ := exists_last_colon hcolon
    rw [SplitHostPort_of_colon htext] at h
    split at h
    · next hhost =>
      split at h
      · next hn =>
        simp only [ne_eq, ite_eq_right_iff, Classical.not_imp] at h
        obtain ⟨⟨hpos, hlt⟩, -⟩ := h
        have h0 : (strtol text).1 ≠ 0 := by
          intro h0
          rw [h0] at hpos
          exact absurd hpos (by decide)
        obtain ⟨m, hm, hsaturate⟩ := numeral_of_strtol hn.1 h0
        obtain ⟨hfits, hmod⟩ := (narrowed_iff (by omega) (by omega)).mp
          (congrArg (Int.bmod · (2 ^ 32)) hsaturate.symm)
        exact ⟨host, text, m, rfl, htext, hhost, hm, hfits, by omega, by omega⟩
      · exact absurd rfl h
    · exact absurd rfl h
  · rw [SplitHostPort_of_no_colon hcolon] at h
    exact absurd rfl h

/-- A port that is set is the number behind the colon, and the host is what is before it. -/
def PortMeant (str : List UInt8) (portOut : Int) : Prop :=
  (SplitHostPort str portOut).1 ≠ portOut →
    ∃ host text, str = host ++ ':'.toUInt8 :: text ∧ ':'.toUInt8 ∉ text ∧
      text ≠ [] ∧ (∀ c ∈ text, isdigit c = true) ∧
      decimalValue text = (SplitHostPort str portOut).1 ∧
      1 ≤ (SplitHostPort str portOut).1 ∧ (SplitHostPort str portOut).1 ≤ 65535 ∧
      (SplitHostPort str portOut).2 = withoutBrackets host

/-- Where the low 32 bits of the number behind the colon are another port, the text is digits
only and the number has no more bits. -/
def PlainPort (str : List UInt8) (portOut : Int) : Prop :=
  ∀ host text m, str = host ++ ':'.toUInt8 :: text → ':'.toUInt8 ∉ text → Separates host →
    Numeral text m → -2 ^ 63 ≤ m → m < 2 ^ 63 → 1 ≤ m % 2 ^ 32 → m % 2 ^ 32 ≤ 65535 →
    m % 2 ^ 32 ≠ portOut → (∀ c ∈ text, isdigit c = true) ∧ m < 2 ^ 32

theorem SplitHostPort_iff (str : List UInt8) (portOut : Int) :
    PortMeant str portOut ↔ PlainPort str portOut := by
  constructor
  · rintro h host text m rfl htext hhost hm hlow hhigh hp hp' hne
    have hset := SplitHostPort_of_numeral htext hhost hm hlow hhigh hp hp' portOut
    unfold PortMeant at h
    rw [hset] at h
    obtain ⟨host', text', hsplit, htext', -, hdigits, hvalue, -⟩ := h hne
    obtain ⟨-, rfl⟩ := last_colon_unique htext htext' hsplit
    have hplain := hm.eq_decimalValue hdigits
    exact ⟨hdigits, by omega⟩
  · intro h hne
    obtain ⟨host, text, m, rfl, htext, hhost, hm, ⟨hlow, hhigh⟩, hp, hp'⟩ :=
      exists_numeral_of_changed hne
    rw [SplitHostPort_of_numeral htext hhost hm hlow hhigh hp hp' portOut] at hne ⊢
    obtain ⟨hdigits, hlt⟩ := h host text m rfl htext hhost hm hlow hhigh hp hp' hne
    have hplain := hm.eq_decimalValue hdigits
    exact ⟨host, text, rfl, htext, hm.ne_nil, hdigits, by omega, hp, hp', rfl⟩

/-- `h:4294967376` has port 80. -/
theorem SplitHostPort_wide :
    ¬ ∀ (str : List UInt8) (portOut : Int), PortMeant str portOut := by
  intro h
  let text := ['4', '2', '9', '4', '9', '6', '7', '3', '7', '6'].map Char.toUInt8
  have hsplit : SplitHostPort (['h'.toUInt8] ++ ':'.toUInt8 :: text) 8333 =
      (80, ['h'.toUInt8]) := by
    decide +kernel
  have hmeant := h (['h'.toUInt8] ++ ':'.toUInt8 :: text) 8333
  unfold PortMeant at hmeant
  rw [hsplit] at hmeant
  obtain ⟨host, text', hstr, htext', -, -, hvalue, -⟩ := hmeant (by decide)
  obtain ⟨-, rfl⟩ := last_colon_unique (by decide) htext' hstr
  exact absurd hvalue (by decide)

end TriTip
