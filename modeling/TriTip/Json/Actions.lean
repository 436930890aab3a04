import TriTip.Json.Reader

/-!
# What the semantic actions build

Between the tokens `current_p_` is null or points to a container (`Ready`). `added` is a value put
where it points, `inside` a container that is being filled there; `end_compound_inside` leaves what
adding the filled container at once would have. So the grammar adds one value (`ends_value_`),
whatever the text is, and no assertion fails.
-/

namespace TriTip

variable {ρ : Type}

namespace Semantic_actions

variable {s : Semantic_actions ρ} {v w : Value ρ} {name : List UInt8}

/-- There is a container to add to, or nothing at all yet. -/
def Ready (s : Semantic_actions ρ) : Prop :=
  ∀ p, s.current_p_ = some p → ∃ v, s.value_.get? p = some v ∧ v.isCompound = true

def rename (name : List UInt8) (s : Semantic_actions ρ) : Semantic_actions ρ :=
  { s with name_ := name }

/-- After a value was added. -/
def added (v : Value ρ) (s : Semantic_actions ρ) : Semantic_actions ρ :=
  match s.current_p_ with
  | none => { s with value_ := v, current_p_ := some [] }
  | some p => { s with value_ := s.value_.modify p (·.push s.name_ v) }

/-- While a container is filled that is going to be added. -/
def inside (v : Value ρ) (name : List UInt8) (s : Semantic_actions ρ) : Semantic_actions ρ :=
  match s.current_p_ with
  | none => ⟨v, some [], s.stack_, name⟩
  | some p =>
    ⟨s.value_.modify p (·.push s.name_ v), some (p ++ [((s.value_.get? p).map Value.size).getD 0]),
      s.stack_ ++ [p], name⟩

theorem init_ready (v : Value ρ) : Ready (init v) := by
  intro p hp
  cases hp

@[simp] theorem rename_inside (v : Value ρ) (name name' : List UInt8) (s : Semantic_actions ρ) :
    (s.inside v name).rename name' = s.inside v name' := by
  unfold inside
  split <;> rfl

theorem add_eq (h : s.Ready) (v : Value ρ) : s.add v = some (s.added v) := by
  obtain ⟨value, _ | p, stack, name⟩ := s
  · rfl
  · obtain ⟨w, hw, hc⟩ := h p rfl
    simp only [add, add_to_current, hw, Option.bind_some, if_pos hc, Option.map_some, added]

theorem begin_compound_eq (h : s.Ready) (v : Value ρ) :
    s.begin_compound v = some (s.inside v s.name_) := by
  obtain ⟨value, _ | p, stack, name⟩ := s
  · rfl
  · obtain ⟨w, hw, hc⟩ := h p rfl
    simp only [begin_compound, add_to_current, hw, Option.bind_some, if_pos hc, Option.map_some,
      inside, Option.getD_some]

theorem inside_ready (h : s.Ready) (hv : v.isCompound = true) (name : List UInt8) :
    (s.inside v name).Ready := by
  obtain ⟨value, _ | p, stack, name'⟩ := s
  · intro q hq
    obtain rfl := Option.some.inj hq
    exact ⟨v, rfl, hv⟩
  · obtain ⟨w, hw, hc⟩ := h p rfl
    intro q hq
    obtain rfl := Option.some.inj hq
    refine ⟨v, ?_, hv⟩
    simp only [inside, hw, Option.map_some, Option.getD_some]
    exact Value.get?_concat_push hw hc

/-- The container that is filled. -/
theorem current_inside (h : s.Ready) (v : Value ρ) (name : List UInt8) :
    (s.inside v name).current = some v := by
  obtain ⟨value, _ | p, stack, name'⟩ := s
  · rfl
  · obtain ⟨w, hw, hc⟩ := h p rfl
    simp only [current, inside, hw, Option.map_some, Option.getD_some, Option.bind_some]
    exact Value.get?_concat_push hw hc

theorem added_inside (h : s.Ready) (v w : Value ρ) (name : List UInt8) :
    (s.inside v name).added w = s.inside (v.push name w) name := by
  obtain ⟨value, _ | p, stack, name'⟩ := s
  · rfl
  · obtain ⟨u, hu, -⟩ := h p rfl
    simp only [added, inside, hu, Option.map_some, Option.getD_some]
    rw [Value.modify_concat_push hu fun c => c.push name w]

/-- **A container that was filled** is in the value as if it had been added then. -/
theorem end_compound_inside (v : Value ρ) (name : List UInt8) (s : Semantic_actions ρ) :
    (s.inside v name).end_compound = some ((s.added v).rename name) := by
  obtain ⟨value, _ | p, stack, name'⟩ := s
  · rfl
  · simp [end_compound, inside, added, rename]

theorem new_name_inside (h : s.Ready) (pairs : List (List UInt8 × Value ρ)) (text : List UInt8) :
    (s.inside (.obj pairs) name).new_name text = some (s.inside (.obj pairs) (get_str text)) := by
  have htype : (Value.obj pairs).type = .obj_type := rfl
  rw [new_name, current_inside h, Option.bind_some, if_pos htype]
  exact congrArg some (rename_inside _ name _ s)

theorem exists_rename (v : Value ρ) (s : Semantic_actions ρ) :
    ∃ name, s.added v = (s.added v).rename name :=
  ⟨(s.added v).name_, rfl⟩

end Semantic_actions

/-! ## The values that are read -/

/-- An integer is unsigned only if it has to be. -/
inductive Value.Canonical : Value ρ → Prop
  | obj {pairs : List (List UInt8 × Value ρ)} (h : ∀ p ∈ pairs, Canonical p.2) :
    Canonical (.obj pairs)
  | array {elements : List (Value ρ)} (h : ∀ v ∈ elements, Canonical v) :
    Canonical (.array elements)
  | str (s : List UInt8) : Canonical (.str s)
  | bool (b : Bool) : Canonical (.bool b)
  | int {i : Int64} {is_uint64 : Bool} (h : is_uint64 = true → i.toInt < 0) :
    Canonical (.int i is_uint64)
  | real (d : ρ) : Canonical (.real d)
  | null : Canonical .null

namespace Json_grammar

open Phrase Semantic_actions Value

/-- What is read is taken from the text. -/
def Shortens {β : Type} (read : List UInt8 → Option (β × List UInt8)) : Prop :=
  ∀ text b rest, read text = some (b, rest) → rest.length < text.length

theorem length_dropWhile_lt {digit : UInt8 → Bool} {text : List UInt8}
    (h : text.takeWhile digit ≠ []) : (text.dropWhile digit).length < text.length := by
  have hlen := congrArg List.length (List.takeWhile_append_dropWhile (p := digit) (l := text))
  have hpos := List.length_pos_iff.2 h
  rw [List.length_append] at hlen
  omega

theorem length_takeSign (text : List UInt8) : (takeSign text).2.length ≤ text.length := by
  obtain ⟨sign, hsign, -⟩ := takeSign_spec text
  have hlen := congrArg List.length hsign
  rw [List.length_append] at hlen
  omega

theorem shortens_ch_p (c : UInt8) : Shortens (ch_p c) := by
  intro text b rest h
  cases text with
  | nil => cases h
  | cons d text =>
    rw [ch_p] at h
    split at h
    · obtain ⟨-, rfl⟩ := Prod.mk.inj (Option.some.inj h)
      exact Nat.lt_succ_self _
    · cases h

theorem shortens_str_p {str : List UInt8} (hstr : str ≠ []) : Shortens (str_p str) := by
  intro text b rest h
  rw [str_p] at h
  split at h
  · next hpre =>
    obtain ⟨-, rfl⟩ := Prod.mk.inj (Option.some.inj h)
    have hle := (List.isPrefixOf_iff_prefix.1 hpre).length_le
    have hpos := List.length_pos_iff.2 hstr
    rw [List.length_drop]
    omega
  · cases h

theorem length_confix_p {text rest : List UInt8} (h : confix_p text = some rest) :
    rest.length < text.length := by
  induction hn : text.length using Nat.strong_induction_on generalizing text with
  | _ n ih =>
    subst hn
    cases text with
    | nil =>
      rw [confix_p] at h
      cases h
    | cons c text =>
      rw [confix_p] at h
      split at h
      · obtain rfl := Option.some.inj h
        exact Nat.lt_succ_self _
      · split at h
        · cases h
        · next text' htext' =>
          have hlt := length_lex_escape_ch_p htext'
          exact Nat.lt_trans (ih _ hlt h rfl) hlt

theorem shortens_string_p : Shortens string_p := by
  intro text b rest h
  rw [string_p] at h
  split at h
  · cases h
  · next body hbody =>
    obtain ⟨rest', hrest', heq⟩ := Option.map_eq_some_iff.1 h
    obtain ⟨-, rfl⟩ := Prod.mk.inj heq
    exact Nat.lt_trans (length_confix_p hrest') (shortens_ch_p _ _ _ _ hbody)

theorem shortens_uint64_p : Shortens uint64_p := by
  intro text b rest h
  rw [uint64_p] at h
  split at h
  · cases h
  · next hdigits =>
    obtain ⟨-, rfl⟩ := Prod.mk.inj (Option.some.inj h)
    exact length_dropWhile_lt (not_or.1 hdigits).1

theorem shortens_int64_p : Shortens int64_p := by
  intro text b rest h
  rw [int64_p] at h
  simp only at h
  split at h
  · cases h
  · next hdigits =>
    obtain ⟨-, rfl⟩ := Prod.mk.inj (Option.some.inj h)
    exact Nat.lt_of_lt_of_le (length_dropWhile_lt (not_or.1 hdigits).1) (length_takeSign text)

theorem length_exponent_p {text rest : List UInt8} {e : Option (Bool × List UInt8)}
    (h : exponent_p text = some (e, rest)) :
    rest.length ≤ text.length ∧ (e ≠ none → rest.length < text.length) := by
  cases text with
  | nil =>
    obtain ⟨rfl, rfl⟩ := Prod.mk.inj (Option.some.inj h)
    simp
  | cons c text =>
    rw [exponent_p] at h
    split at h
    · simp only at h
      split at h
      · cases h
      · obtain ⟨-, rfl⟩ := Prod.mk.inj (Option.some.inj h)
        have hdrop := (List.dropWhile_sublist isdigit (l := (takeSign text).2)).length_le
        have hsign := length_takeSign text
        rw [List.length_cons]
        omega
    · obtain ⟨rfl, rfl⟩ := Prod.mk.inj (Option.some.inj h)
      simp

theorem shortens_strict_real_p : Shortens strict_real_p := by
  intro text b rest h
  have hsign := length_takeSign text
  rw [strict_real_p] at h
  simp only at h
  have hdrop := (List.dropWhile_sublist isdigit (l := (takeSign text).2)).length_le
  split at h
  · cases h
  · next c s' hs' =>
    rw [hs', List.length_cons] at hdrop
    split at h
    · split at h
      · cases h
      · obtain ⟨e, he, heq⟩ := Option.map_eq_some_iff.1 h
        obtain ⟨-, rfl⟩ := Prod.mk.inj heq
        have hle := (length_exponent_p he).1
        have hplaces := (List.dropWhile_sublist isdigit (l := s')).length_le
        omega
    · split at h
      · cases h
      · split at h
        · next e rest' he =>
          obtain ⟨-, rfl⟩ := Prod.mk.inj (Option.some.inj h)
          have hlt := (length_exponent_p he).2 (Option.some_ne_none e)
          rw [List.length_cons] at hlt
          omega
        · cases h

/-! ## The grammar on any text -/

variable {P : Platform ρ} {s : Semantic_actions ρ} {text : List UInt8}
  {Hit : Semantic_actions ρ → List UInt8 → Prop} {Miss : Semantic_actions ρ → Prop}

theorem ends_lexeme {β : Type} {read : List UInt8 → Option (β × List UInt8)}
    {action : β → Semantic_actions ρ → Option (Semantic_actions ρ)} (hread : Shortens read)
    (hmiss : read (text.dropWhile isspace) = none → Miss s)
    (hhit : ∀ b rest, read (text.dropWhile isspace) = some (b, rest) → rest.length < text.length →
      ∃ s', action b s = some s' ∧ Hit s' rest) :
    Ends Hit Miss (lexeme read action s text) := by
  apply ends_token hmiss
  intro b rest hb
  have hdrop := (List.dropWhile_sublist isspace (l := text)).length_le
  exact hhit b rest hb (Nat.lt_of_lt_of_le (hread _ _ _ hb) hdrop)

/-- One value was added, of what is in front of the text. -/
def Adds (s : Semantic_actions ρ) (text : List UInt8) (s' : Semantic_actions ρ)
    (rest : List UInt8) : Prop :=
  (∃ v name, v.Canonical ∧ s' = (s.added v).rename name) ∧ rest.length < text.length

/-- A token that stands for a value. -/
theorem ends_scalar {β : Type} {read : List UInt8 → Option (β × List UInt8)} {value : β → Value ρ}
    (hread : Shortens read) (hs : s.Ready)
    (hmiss : read (text.dropWhile isspace) = none → Miss s)
    (hvalue : ∀ b rest, read (text.dropWhile isspace) = some (b, rest) → (value b).Canonical) :
    Ends (Adds s text) Miss (lexeme read (fun b => add (value b)) s text) := by
  apply ends_lexeme hread
  · exact hmiss
  · intro b rest hb hlt
    obtain ⟨name, hname⟩ := exists_rename (value b) s
    exact ⟨_, add_eq hs _, ⟨⟨value b, name, hvalue b rest hb, hname⟩, hlt⟩⟩

/-- What `int64_p` has refused is an integer with the highest bit set. -/
theorem toInt_of_uint64_p {text rest : List UInt8} {ui : UInt64}
    (h : uint64_p text = some (ui, rest))
    (hmiss : int64_p text = none) : ui.toInt64.toInt < 0 := by
  rw [uint64_p] at h
  split at h
  · cases h
  · next hdigits =>
    obtain ⟨rfl, -⟩ := Prod.mk.inj (Option.some.inj h)
    obtain ⟨hne, hlt⟩ := not_or.1 hdigits
    have hsign : takeSign text = (false, text) := by
      have hdigit : ∀ c ∈ text.takeWhile isdigit, isdigit c = true :=
        fun c => List.mem_takeWhile_imp
      have htake : takeSign (text.takeWhile isdigit ++ text.dropWhile isdigit) =
          (false, text.takeWhile isdigit ++ text.dropWhile isdigit) := takeSign_digits hne hdigit
      rwa [List.takeWhile_append_dropWhile] at htake
    rw [int64_p, hsign] at hmiss
    simp only [hne, false_or, ite_eq_left_iff, reduceCtorEq, imp_false, not_not] at hmiss
    have hge : 2 ^ 63 - 1 < decimalValue (text.takeWhile isdigit) := hmiss
    generalize decimalValue (text.takeWhile isdigit) = n at hlt hge
    have htoInt : (Nat.toUInt64 n).toInt64.toInt = (n : Int).bmod (2 ^ 64) :=
      BitVec.toInt_ofNat' (n := 64) n
    rw [htoInt, Int.bmod_def]
    omega

theorem ends_number_ (hs : s.Ready) : Ends (Adds s text) (· = s) (number_ P s text) := by
  apply ends_alt
  refine ends_scalar shortens_strict_real_p hs (fun _ => ?_) fun d _ _ => .real (P.round d)
  apply ends_alt
  refine ends_scalar shortens_int64_p hs (fun hint => ?_) fun i _ _ => .int fun h => nomatch h
  refine ends_scalar shortens_uint64_p hs (fun _ => rfl) fun ui _ hui => .int fun _ => ?_
  exact toInt_of_uint64_p hui hint

/-- A list of bodies with commas between them. -/
theorem ends_sequence_ {body : Rule ρ} {I : Semantic_actions ρ → Prop} {n : Nat}
    (hbody : ∀ s text, I s → text.length < n →
      Ends (fun s' rest => I s' ∧ rest.length < text.length) (· = s) (body s text))
    (hI : I s) (hn : text.length < n) :
    Ends (fun s' rest => I s' ∧ rest.length < text.length) (· = s) (sequence_ body s text) := by
  apply ends_seq
  apply (hbody s text hI hn).mono
  · rintro s₁ rest₁ ⟨hI₁, hlt₁⟩
    apply ends_rounds (fun s' rest => I s' ∧ rest.length < text.length) ?_ _ _ _
      (Nat.lt_succ_self _) ⟨hI₁, hlt₁⟩
    rintro s₂ text₂ ⟨hI₂, hlt₂⟩
    apply ends_seq
    apply ends_lexeme (shortens_ch_p _) fun _ => ⟨hI₂, hlt₂⟩
    intro _ rest₃ _ hlt₃
    refine ⟨s₂, rfl, ?_⟩
    apply (hbody s₂ rest₃ hI₂ (by omega)).mono
    · rintro s₄ rest₄ ⟨hI₄, hlt₄⟩
      exact ⟨⟨hI₄, by omega⟩, by omega⟩
    · rintro s₄ rfl
      exact ⟨hI₂, hlt₂⟩
  · intro s' hs'
    exact hs'

/-- A container is filled between its brackets. -/
theorem ends_compound {body : Rule ρ} {start stop : UInt8} {message : String}
    {C : Value ρ → Prop} {empty : Value ρ} (hs : s.Ready)
    (hC : ∀ v, C v → v.Canonical ∧ v.isCompound = true) (hempty : C empty)
    (hbody : ∀ v name rest, C v → rest.length < text.length →
      Ends (fun s' rest' => (∃ v name, C v ∧ s' = s.inside v name) ∧ rest'.length < rest.length)
        (· = s.inside v name) (body (s.inside v name) rest)) :
    Ends (Adds s text) (· = s)
      (((lexeme (ch_p start) fun _ => begin_compound empty).seq
        ((sequence_ body).opt.seq
          ((lexeme (ch_p stop) fun _ => end_compound).alt (Rule.raise message)))) s text) := by
  apply ends_seq
  refine ends_lexeme (shortens_ch_p _) (fun _ => rfl) fun _ rest₁ _ hlt₁ => ?_
  refine ⟨_, begin_compound_eq hs empty, ?_⟩
  apply ends_seq
  apply ends_opt
  have hclose : ∀ v name (rest : List UInt8), C v → rest.length < text.length →
      Ends (Adds s text) (· = s)
        (((lexeme (ch_p stop) fun _ => end_compound).alt (Rule.raise message))
          (s.inside v name) rest) := by
    intro v name rest hv hlt
    apply ends_alt
    apply ends_lexeme (shortens_ch_p _) fun _ => trivial
    intro _ rest' _ hlt'
    exact ⟨_, end_compound_inside v name s, ⟨v, name, (hC v hv).1, rfl⟩, by omega⟩
  apply Ends.mono (ends_sequence_ (I := fun s' => ∃ v name, C v ∧ s' = s.inside v name)
    (n := text.length) ?_ ⟨empty, _, hempty, rfl⟩ hlt₁)
  · rintro s' rest ⟨⟨v, name, hv, rfl⟩, hlt⟩
    exact hclose v name rest hv (by omega)
  · rintro s' rfl
    exact hclose empty _ rest₁ hempty hlt₁
  · rintro s' rest ⟨v, name, hv, rfl⟩ hlt
    exact hbody v name rest hv hlt

theorem canonical_push {v w : Value ρ} (hv : v.Canonical) (hw : w.Canonical)
    (name : List UInt8) : (v.push name w).Canonical := by
  cases hv with
  | obj h =>
    apply Canonical.obj
    intro p hp
    rcases List.mem_append.1 hp with hp | hp
    · exact h p hp
    · rwa [List.mem_singleton.1 hp]
  | array h =>
    apply Canonical.array
    intro u hu
    rcases List.mem_append.1 hu with hu | hu
    · exact h u hu
    · rwa [List.mem_singleton.1 hu]
  | str s => exact .str s
  | bool b => exact .bool b
  | int h => exact .int h
  | real d => exact .real d
  | null => exact .null

/-- What is known of a value rule inside a container. -/
def Inner (body : Rule ρ) (text : List UInt8) : Prop :=
  ∀ s rest, s.Ready → rest.length < text.length → Ends (Adds s rest) (· = s) (body s rest)

theorem ends_array {body : Rule ρ} (hbody : Inner body text) (hs : s.Ready) :
    Ends (Adds s text) (· = s) (array_ body s text) := by
  apply ends_compound (C := fun v => v.Canonical ∧ ∃ elements, v = .array elements) hs
  · rintro v ⟨hv, elements, rfl⟩
    exact ⟨hv, rfl⟩
  · exact ⟨.array fun _ h => (nomatch h), [], rfl⟩
  · rintro v name rest ⟨hv, elements, rfl⟩ hlt
    apply (hbody _ rest (inside_ready hs rfl name) hlt).mono
    · rintro s' rest' ⟨⟨w, name', hw, rfl⟩, hlt'⟩
      rw [added_inside hs, rename_inside]
      exact ⟨⟨_, name', ⟨canonical_push hv hw name, _, rfl⟩, rfl⟩, hlt'⟩
    · rintro s' rfl
      rfl

theorem ends_object {body : Rule ρ} (hbody : Inner body text) (hs : s.Ready) :
    Ends (Adds s text) (· = s) (object_ body s text) := by
  apply ends_compound (C := fun v => v.Canonical ∧ ∃ pairs, v = .obj pairs) hs
  · rintro v ⟨hv, pairs, rfl⟩
    exact ⟨hv, rfl⟩
  · exact ⟨.obj fun _ h => (nomatch h), [], rfl⟩
  · rintro v name rest ⟨hv, pairs, rfl⟩ hlt
    apply ends_seq
    refine ends_lexeme shortens_string_p (fun _ => rfl) fun quoted rest₁ _ hlt₁ => ?_
    refine ⟨_, new_name_inside hs pairs quoted, ?_⟩
    apply ends_seq
    apply ends_alt
    refine ends_lexeme (shortens_ch_p _) (fun _ => trivial) fun _ rest₂ _ hlt₂ => ?_
    refine ⟨_, rfl, ?_⟩
    apply ends_alt
    apply (hbody _ rest₂ (inside_ready hs rfl _) (by omega)).mono
    · rintro s' rest' ⟨⟨w, name', hw, rfl⟩, hlt'⟩
      rw [added_inside hs, rename_inside]
      exact ⟨⟨_, name', ⟨canonical_push hv hw _, _, rfl⟩, rfl⟩, by omega⟩
    · rintro s' rfl
      trivial

/-- **What the grammar does with any text.** It adds one value, or misses without a trace, or
throws; no assertion fails, and the depth is enough. -/
theorem ends_value_ (P : Platform ρ) (depth : Nat) (s : Semantic_actions ρ) (text : List UInt8)
    (hs : s.Ready) (hdepth : text.length < depth) :
    Ends (Adds s text) (· = s) (value_ P depth s text) := by
  induction depth generalizing s text with
  | zero => exact absurd hdepth (Nat.not_lt_zero _)
  | succ depth ih =>
    apply ends_alt
    refine ends_scalar shortens_string_p hs (fun _ => ?_) fun text _ _ => .str (get_str text)
    apply ends_alt
    apply (ends_number_ hs).mono (fun _ _ h => h)
    rintro s₁ rfl
    apply ends_alt
    apply (ends_object ?_ hs).mono (fun _ _ h => h)
    · rintro s₂ rfl
      apply ends_alt
      apply (ends_array ?_ hs).mono (fun _ _ h => h)
      · rintro s₃ rfl
        apply ends_alt
        refine ends_scalar (shortens_str_p (by decide)) hs (fun _ => ?_) fun _ _ _ => .bool true
        apply ends_alt
        refine ends_scalar (shortens_str_p (by decide)) hs (fun _ => ?_) fun _ _ _ => .bool false
        exact ends_scalar (shortens_str_p (by decide)) hs (fun _ => rfl) fun _ _ _ => .null
      · intro s' rest hs' hlt
        exact ih s' rest hs' (by omega)
    · intro s' rest hs' hlt
      exact ih s' rest hs' (by omega)

end Json_grammar

end TriTip
