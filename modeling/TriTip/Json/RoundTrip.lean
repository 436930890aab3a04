import TriTip.Json.Actions
import TriTip.Json.Strings

/-!
# JSON that is written is read back

`read_string_write_string`: the reader gives back every value that the generator writes, formatted
or not, with the real numbers rounded to eight places and an unsigned integer that `int64` has room
for without its mark. `read_string_total`: on any text the reader ends without a failed assertion,
and what it has read is what it reads again after writing it.
-/

namespace TriTip

variable {ρ : Type}

namespace Value

/-- What reading gives for a value that was written. -/
def reread (P : Platform ρ) : Value ρ → Value ρ :=
  map (fun i is_uint64 => is_uint64 && i.toInt < 0) fun d => P.round (realText P d)

/-- A value with its real numbers rounded to eight places. -/
def rounded (P : Platform ρ) : Value ρ → Value ρ :=
  map (fun _ is_uint64 => is_uint64) fun d => P.round (realText P d)

/-- The marks of what was read stay as they are. -/
theorem Canonical.reread_eq {P : Platform ρ} {v : Value ρ} (h : v.Canonical) :
    v.reread P = v.rounded P := by
  induction v using Value.induct with
  | obj pairs ih =>
    cases h with
    | obj h =>
      simp only [reread, rounded, map, mapPairs_eq, obj.injEq, List.map_inj_left, Prod.mk.injEq,
        true_and]
      exact fun p hp => ih p hp (h p hp)
  | array elements ih =>
    cases h with
    | array h =>
      simp only [reread, rounded, map, mapElements_eq, array.injEq, List.map_inj_left]
      exact fun v hv => ih v hv (h v hv)
  | int i is_uint64 =>
    cases h with
    | int h =>
      cases is_uint64 with
      | true => simp [reread, rounded, map, h rfl]
      | false => rfl
  | str s => rfl
  | bool b => rfl
  | real d => rfl
  | null => rfl

end Value

namespace Generator

variable {P : Platform ρ} {pretty : Bool}

theorem outputElements_eq (elements : List (Value ρ)) (level : Nat) :
    outputElements P pretty elements level = elements.map fun v => output P pretty v level := by
  induction elements with
  | nil => rfl
  | cons v elements ih => rw [outputElements, ih, List.map_cons]

theorem outputPairs_eq (pairs : List (List UInt8 × Value ρ)) (level : Nat) :
    outputPairs P pretty pairs level = pairs.map fun p => outputPair P pretty p level := by
  induction pairs with
  | nil => rfl
  | cons p pairs ih => rw [outputPairs, ih, List.map_cons]

theorem isspace_indent (level : Nat) : ∀ c ∈ indent pretty level, isspace c = true := by
  intro c hc
  unfold indent at hc
  split at hc
  · obtain ⟨l, hl, hc⟩ := List.mem_flatten.1 hc
    obtain rfl := List.eq_of_mem_replicate hl
    have hall : ∀ c ∈ chars "    ", isspace c = true := by
      rw [← List.forall_iff_forall_mem]
      decide
    exact hall c hc
  · cases hc

theorem isspace_new_line : ∀ c ∈ new_line pretty, isspace c = true := by
  intro c hc
  unfold new_line at hc
  split at hc
  · obtain rfl := List.mem_singleton.1 hc
    decide
  · cases hc

theorem isspace_space : ∀ c ∈ space pretty, isspace c = true := by
  intro c hc
  unfold space at hc
  split at hc
  · obtain rfl := List.mem_singleton.1 hc
    decide
  · cases hc

end Generator

/-- A text that starts with a character that is no blank. -/
def Starts (text : List UInt8) : Prop := ∃ c rest, text = c :: rest ∧ isspace c = false

theorem dropWhile_blanks {blanks text : List UInt8} (hblanks : ∀ c ∈ blanks, isspace c = true)
    (htext : Starts text) (rest : List UInt8) :
    (blanks ++ (text ++ rest)).dropWhile isspace = text ++ rest := by
  obtain ⟨c, t, rfl, hc⟩ := htext
  rw [List.dropWhile_append_of_pos hblanks, List.cons_append,
    List.dropWhile_cons_of_neg (by simp [hc])]

namespace Generator

variable {P : Platform ρ} {pretty : Bool}

theorem starts_outputStr (s : List UInt8) : Starts (outputStr P s) :=
  ⟨'"'.toUInt8, _, rfl, by decide⟩

theorem not_isspace_of_isdigit {c : UInt8} (h : isdigit c = true) : isspace c = false := by
  rw [← Bool.not_eq_true]
  exact fun hspace => not_isdigit_of_isspace hspace h

/-- A number starts with a sign or a digit. -/
theorem exists_signed_cons (negative : Bool) {digits : List UInt8} (hne : digits ≠ [])
    (hdigits : ∀ c ∈ digits, isdigit c = true) (text : List UInt8) :
    ∃ c t, signed negative digits ++ text = c :: t ∧ isspace c = false ∧ c ≠ '"'.toUInt8 := by
  cases negative with
  | true => exact ⟨'-'.toUInt8, _, rfl, by decide, by decide⟩
  | false =>
    cases digits with
    | nil => exact absurd rfl hne
    | cons c digits =>
      have hc := hdigits c List.mem_cons_self
      refine ⟨c, _, rfl, not_isspace_of_isdigit hc, ?_⟩
      rintro rfl
      exact absurd hc (by decide)

theorem exists_output_int_cons (i : Int64) (is_uint64 : Bool) (text : List UInt8) :
    ∃ c t, output_int i is_uint64 ++ text = c :: t ∧ isspace c = false ∧ c ≠ '"'.toUInt8 := by
  rw [output_int_eq]
  split
  · have := exists_signed_cons false (printed_ne_nil i.toUInt64.toNat) (isdigit_printed _) text
    simpa [signed] using this
  · exact exists_signed_cons _ (printed_ne_nil _) (isdigit_printed _) text

theorem output_real_eq (d : ρ) :
    output_real P d = signed (P.fixed8 d).1 (printed 10 (P.fixed8 d).2.1) ++
      ('.'.toUInt8 :: printed08 (P.fixed8 d).2.2) := by
  simp [output_real, signed]

theorem exists_output_real_cons (d : ρ) (text : List UInt8) :
    ∃ c t, output_real P d ++ text = c :: t ∧ isspace c = false ∧ c ≠ '"'.toUInt8 := by
  rw [output_real_eq, List.append_assoc]
  exact exists_signed_cons _ (printed_ne_nil _) (isdigit_printed _) _

theorem starts_output (v : Value ρ) (level : Nat) : Starts (output P pretty v level) := by
  cases v with
  | obj pairs =>
    rw [output]
    exact ⟨'{'.toUInt8, _, rfl, by decide⟩
  | array elements =>
    rw [output]
    exact ⟨'['.toUInt8, _, rfl, by decide⟩
  | str s =>
    rw [output]
    exact starts_outputStr s
  | bool b =>
    rw [output]
    cases b with
    | true => exact ⟨'t'.toUInt8, _, rfl, by decide⟩
    | false => exact ⟨'f'.toUInt8, _, rfl, by decide⟩
  | int i is_uint64 =>
    obtain ⟨c, t, heq, hc, -⟩ := exists_output_int_cons i is_uint64 []
    rw [List.append_nil] at heq
    rw [output, heq]
    exact ⟨c, t, rfl, hc⟩
  | real d =>
    obtain ⟨c, t, heq, hc, -⟩ := exists_output_real_cons (P := P) d []
    rw [List.append_nil] at heq
    rw [output, heq]
    exact ⟨c, t, rfl, hc⟩
  | null =>
    rw [output]
    exact ⟨'n'.toUInt8, _, rfl, by decide⟩

end Generator

namespace Json_grammar

open Phrase Semantic_actions Generator

variable {P : Platform ρ} {pretty : Bool} {s s' : Semantic_actions ρ} {text rest : List UInt8}

/-! ## Tokens of a known text -/

theorem lexeme_of_read {β : Type} {read : List UInt8 → Option (β × List UInt8)} {b : β}
    {action : β → Semantic_actions ρ → Option (Semantic_actions ρ)}
    (h : read (text.dropWhile isspace) = some (b, rest)) (ha : action b s = some s') :
    lexeme read action s text = (s', .hit rest) :=
  token_of_read h ha

theorem lexeme_of_unread {β : Type} {read : List UInt8 → Option (β × List UInt8)}
    {action : β → Semantic_actions ρ → Option (Semantic_actions ρ)}
    (h : read (text.dropWhile isspace) = none) : lexeme read action s text = (s, .miss) :=
  token_of_unread h

section Miss

variable {c : UInt8} {t : List UInt8}

theorem ch_p_of_ne {d : UInt8} (h : c ≠ d) : ch_p d (c :: t) = none := if_neg h

theorem string_p_of_ne (h : c ≠ '"'.toUInt8) : string_p (c :: t) = none := by
  rw [string_p, ch_p_of_ne h]

theorem str_p_of_ne {str : List UInt8} (hne : str ≠ []) (h : str.head? ≠ some c) :
    str_p str (c :: t) = none := by
  cases str with
  | nil => exact absurd rfl hne
  | cons d str =>
    rw [str_p, if_neg]
    rw [List.isPrefixOf_iff_prefix, List.cons_prefix_cons]
    exact fun h' => h (congrArg some h'.1)

theorem str_p_append (str rest : List UInt8) : str_p str (str ++ rest) = some ((), rest) := by
  rw [str_p, if_pos (List.isPrefixOf_iff_prefix.2 (List.prefix_append _ _)), List.drop_left]

/-- Not the beginning of a number. -/
def NotNumber (c : UInt8) : Prop :=
  isdigit c = false ∧ c ≠ '-'.toUInt8 ∧ c ≠ '+'.toUInt8 ∧ c ≠ '.'.toUInt8

instance (c : UInt8) : Decidable (NotNumber c) := inferInstanceAs (Decidable (_ ∧ _ ∧ _ ∧ _))

theorem takeSign_of_not_number (h : NotNumber c) : takeSign (c :: t) = (false, c :: t) := by
  rw [takeSign, if_neg h.2.1, if_neg h.2.2.1]

theorem number_of_not_number (htext : text.dropWhile isspace = c :: t) (h : NotNumber c) :
    number_ P s text = (s, .miss) := by
  have hdigit : ¬isdigit c = true := by simp [h.1]
  have hreal : strict_real_p (c :: t) = none := by
    rw [strict_real_p, takeSign_of_not_number h]
    simp [List.takeWhile_cons_of_neg hdigit, List.dropWhile_cons_of_neg hdigit, h.2.2.2]
  have hint : int64_p (c :: t) = none := by
    rw [int64_p, takeSign_of_not_number h]
    simp [List.takeWhile_cons_of_neg hdigit]
  have huint : uint64_p (c :: t) = none := by
    rw [uint64_p]
    simp [List.takeWhile_cons_of_neg hdigit]
  rw [← htext] at hreal hint huint
  rw [number_, alt_of_miss (lexeme_of_unread hreal), alt_of_miss (lexeme_of_unread hint),
    lexeme_of_unread huint]

theorem object_of_ne {body : Rule ρ} (htext : text.dropWhile isspace = c :: t)
    (h : c ≠ '{'.toUInt8) : object_ body s text = (s, .miss) := by
  apply seq_of_miss
  apply lexeme_of_unread
  rw [htext, ch_p_of_ne h]

theorem array_of_ne {body : Rule ρ} (htext : text.dropWhile isspace = c :: t)
    (h : c ≠ '['.toUInt8) : array_ body s text = (s, .miss) := by
  apply seq_of_miss
  apply lexeme_of_unread
  rw [htext, ch_p_of_ne h]

theorem string_of_ne {action : List UInt8 → Semantic_actions ρ → Option (Semantic_actions ρ)}
    (htext : text.dropWhile isspace = c :: t) (h : c ≠ '"'.toUInt8) :
    string_ action s text = (s, .miss) := by
  apply lexeme_of_unread
  rw [htext, string_p_of_ne h]

/-- No value begins with a closing bracket. -/
theorem value_of_closing {depth : Nat} (htext : text.dropWhile isspace = ']'.toUInt8 :: t) :
    value_ P (depth + 1) s text = (s, .miss) := by
  have hstr : ∀ {str : List UInt8}, str ≠ [] → str.head? ≠ some ']'.toUInt8 →
      str_p str (text.dropWhile isspace) = none := by
    intro str hne h
    rw [htext, str_p_of_ne hne h]
  rw [value_, alt_of_miss (string_of_ne htext (by decide)),
    alt_of_miss (number_of_not_number htext (by decide)),
    alt_of_miss (object_of_ne htext (by decide)), alt_of_miss (array_of_ne htext (by decide)),
    alt_of_miss (lexeme_of_unread (hstr (by decide) (by decide))),
    alt_of_miss (lexeme_of_unread (hstr (by decide) (by decide))),
    lexeme_of_unread (hstr (by decide) (by decide))]

end Miss

/-! ## Lists with commas -/

/-- What follows an element, where `todo` is still to come. -/
def following (pretty : Bool) (level : Nat) (todo : List (List UInt8)) (tail : List UInt8) :
    List UInt8 :=
  (if todo.isEmpty then [] else [','.toUInt8]) ++ (new_line pretty ++ (items pretty level todo ++
    tail))

theorem items_cons (level : Nat) (t : List UInt8) (todo : List (List UInt8)) (tail : List UInt8) :
    items pretty level (t :: todo) ++ tail =
      indent pretty level ++ (t ++ following pretty level todo tail) := by
  simp [items, following]

theorem stops_of_head {c : UInt8} (hc : isdigit c = false ∧ c ≠ '.'.toUInt8 ∧ c ≠ 'e'.toUInt8 ∧
    c ≠ 'E'.toUInt8) : Stops (c :: text) := by
  intro d hd
  obtain rfl := Option.some.inj hd
  exact hc

section Sequence

variable {β : Type} {textOf : β → List UInt8} {body : Rule ρ}
  {I : List β → Semantic_actions ρ → Prop} {level n : Nat} {close : UInt8} {tail : List UInt8}

/-- A body reads the text of an element, wherever it stands. -/
def ReadsElement (body : Rule ρ) (textOf : β → List UInt8) (I : List β → Semantic_actions ρ → Prop)
    (n : Nat) (b : β) : Prop :=
  ∀ done s text rest, I done s → text.dropWhile isspace = textOf b ++ rest → Stops rest →
    text.length < n → ∃ s', body s text = (s', .hit rest) ∧ I (done ++ [b]) s'

theorem stops_following (htail : Stops (new_line pretty ++ tail)) (todo : List (List UInt8))  :
    Stops (following pretty level todo tail) := by
  cases todo with
  | nil => simpa [following, items] using htail
  | cons t todo => exact stops_of_head (by decide)

theorem rounds_following (htail : (new_line pretty ++ tail).dropWhile isspace = close :: rest)
    (hclose : close ≠ ','.toUInt8) (hstops : Stops (new_line pretty ++ tail)) (todo : List β)
    (hbody : ∀ b ∈ todo, Starts (textOf b) ∧ ReadsElement body textOf I n b) (done : List β)
    (m : Nat) (hI : I done s) (hm : (following pretty level (todo.map textOf) tail).length < m)
    (hn : (following pretty level (todo.map textOf) tail).length < n) :
    ∃ s', ((punct ',').seq body).rounds m s (following pretty level (todo.map textOf) tail) =
      (s', .hit (new_line pretty ++ tail)) ∧ I (done ++ todo) s' := by
  induction todo generalizing s done m with
  | nil =>
    obtain ⟨m, rfl⟩ := Nat.exists_eq_succ_of_ne_zero (Nat.ne_of_gt (Nat.zero_lt_of_lt hm))
    have hnil : following pretty level ([].map textOf) tail = new_line pretty ++ tail := by
      simp [following, items]
    refine ⟨s, ?_, by rwa [List.append_nil]⟩
    rw [hnil]
    apply rounds_of_miss
    apply seq_of_miss
    apply lexeme_of_unread
    rw [htail, ch_p_of_ne hclose]
  | cons b todo ih =>
    obtain ⟨m, rfl⟩ := Nat.exists_eq_succ_of_ne_zero (Nat.ne_of_gt (Nat.zero_lt_of_lt hm))
    obtain ⟨⟨hstart, hreads⟩, htodo⟩ := List.forall_mem_cons.1 hbody
    have hcons : following pretty level ((b :: todo).map textOf) tail =
        ','.toUInt8 :: ((new_line pretty ++ indent pretty level) ++ (textOf b ++
          following pretty level (todo.map textOf) tail)) := by
      rw [List.map_cons, following, items_cons]
      simp
    rw [hcons] at hm hn ⊢
    simp only [List.length_cons, List.length_append] at hm hn
    have hcomma : punct ',' s (','.toUInt8 :: ((new_line pretty ++ indent pretty level) ++
        (textOf b ++ following pretty level (todo.map textOf) tail))) = (s, .hit _) :=
      lexeme_of_read (b := ()) rfl rfl
    have hblanks : ∀ c ∈ new_line pretty ++ indent pretty level, isspace c = true := by
      intro c hc
      rcases List.mem_append.1 hc with hc | hc
      · exact isspace_new_line c hc
      · exact isspace_indent level c hc
    have hstop : Stops (following pretty level (todo.map textOf) tail) := stops_following hstops _
    obtain ⟨s', hs', hI'⟩ := hreads done s _ _ hI (dropWhile_blanks hblanks hstart _) hstop (by
      simp only [List.length_append]
      omega)
    obtain ⟨s'', hs'', hI''⟩ := ih htodo (done ++ [b]) m hI' (by omega) (by omega)
    refine ⟨s'', ?_, by rwa [List.append_assoc] at hI''⟩
    rw [rounds_of_hit ((seq_of_hit hcomma).trans hs'), hs'']

/-- **A list of elements is read** one after another, up to what closes it. -/
theorem sequence_items (htail : (new_line pretty ++ tail).dropWhile isspace = close :: rest)
    (hclose : close ≠ ','.toUInt8) (hstops : Stops (new_line pretty ++ tail)) {b : β}
    {todo : List β}
    (hbody : ∀ c ∈ b :: todo, Starts (textOf c) ∧ ReadsElement body textOf I n c)
    {text : List UInt8}
    (hI : I [] s) (htext : text = new_line pretty ++ (items pretty level ((b :: todo).map textOf) ++
      tail)) (hn : text.length < n) :
    ∃ s', sequence_ body s text = (s', .hit (new_line pretty ++ tail)) ∧ I (b :: todo) s' := by
  obtain ⟨⟨hstart, hreads⟩, htodo⟩ := List.forall_mem_cons.1 hbody
  have hcons : text = (new_line pretty ++ indent pretty level) ++ (textOf b ++
      following pretty level (todo.map textOf) tail) := by
    rw [htext, List.map_cons, items_cons, List.append_assoc]
  have hblanks : ∀ c ∈ new_line pretty ++ indent pretty level, isspace c = true := by
    intro c hc
    rcases List.mem_append.1 hc with hc | hc
    · exact isspace_new_line c hc
    · exact isspace_indent level c hc
  have hstop : Stops (following pretty level (todo.map textOf) tail) := stops_following hstops _
  have hlen := congrArg List.length hcons
  simp only [List.length_append] at hlen
  obtain ⟨s', hs', hI'⟩ := hreads [] s text _ hI (by rw [hcons, dropWhile_blanks hblanks hstart])
    hstop hn
  have hlt : (following pretty level (todo.map textOf) tail).length < n := by omega
  obtain ⟨s'', hs'', hI''⟩ := rounds_following htail hclose hstops todo htodo [b] _ hI'
    (Nat.lt_succ_self _) hlt
  exact ⟨s'', (seq_of_hit hs').trans hs'', hI''⟩

/-- **A container is read** from its opening bracket to the closing one. -/
theorem compound_items {start stop : UInt8} {v : List β → Value ρ} {message : String} {bs : List β}
    (hs : s.Ready) (hstop : isspace stop = false) (hcomma : stop ≠ ','.toUInt8)
    (hstops : ∀ rest : List UInt8, Stops (stop :: rest))
    (hmiss : ∀ s text t, text.dropWhile isspace = stop :: t → body s text = (s, .miss))
    (hbody : ∀ b ∈ bs, Starts (textOf b) ∧
      ReadsElement body textOf (fun done s' => ∃ name, s' = s.inside (v done) name) n b)
    {text : List UInt8} (htext : text.dropWhile isspace =
      output_array_or_obj pretty (bs.map textOf) start stop level ++ rest) (hn : text.length ≤ n) :
    ∃ name, ((lexeme (ch_p start) fun _ => begin_compound (v [])).seq
      ((sequence_ body).opt.seq
        ((lexeme (ch_p stop) fun _ => end_compound).alt (Rule.raise message)))) s text =
      ((s.added (v bs)).rename name, .hit rest) := by
  have hblanks : ∀ c ∈ new_line pretty ++ indent pretty level, isspace c = true := by
    intro c hc
    rcases List.mem_append.1 hc with hc | hc
    · exact isspace_new_line c hc
    · exact isspace_indent level c hc
  have htail : (new_line pretty ++ (indent pretty level ++ stop :: rest)).dropWhile isspace =
      stop :: rest := by
    have := dropWhile_blanks hblanks ⟨stop, [], rfl, hstop⟩ rest
    simpa using this
  have hstops' : Stops (new_line pretty ++ (indent pretty level ++ stop :: rest)) := by
    cases pretty with
    | true => exact stops_of_head (by decide)
    | false => simpa [new_line, indent] using hstops rest
  have htext' : text.dropWhile isspace = start :: (new_line pretty ++
      (items pretty (level + 1) (bs.map textOf) ++ (indent pretty level ++ stop :: rest))) := by
    rw [htext]
    simp [output_array_or_obj]
  have hlen := (List.dropWhile_sublist isspace (l := text)).length_le
  rw [htext', List.length_cons] at hlen
  have hopen : lexeme (ch_p start) (fun _ => begin_compound (v [])) s text =
      (s.inside (v []) s.name_, .hit (new_line pretty ++
        (items pretty (level + 1) (bs.map textOf) ++ (indent pretty level ++ stop :: rest)))) := by
    refine lexeme_of_read (b := ()) ?_ (begin_compound_eq hs _)
    rw [htext', ch_p, if_pos rfl]
  have hclose : ∀ name, ((lexeme (ch_p stop) fun _ => end_compound).alt (Rule.raise message))
      (s.inside (v bs) name) (new_line pretty ++ (indent pretty level ++ stop :: rest)) =
      ((s.added (v bs)).rename name, .hit rest) := by
    intro name
    apply alt_of_hit
    refine lexeme_of_read (b := ()) ?_ (end_compound_inside _ name s)
    rw [htail, ch_p, if_pos rfl]
  rw [seq_of_hit hopen]
  cases bs with
  | nil =>
    refine ⟨s.name_, ?_⟩
    have hnone : sequence_ body (s.inside (v []) s.name_)
        (new_line pretty ++ (indent pretty level ++ stop :: rest)) =
        (s.inside (v []) s.name_, .miss) :=
      seq_of_miss (hmiss _ _ _ htail)
    exact (seq_of_hit (opt_of_miss hnone)).trans (hclose _)
  | cons b bs =>
    obtain ⟨s', hs', name, rfl⟩ := sequence_items htail hcomma hstops' hbody ⟨s.name_, rfl⟩ rfl
      (Nat.lt_of_lt_of_le hlen hn)
    exact ⟨name, (seq_of_hit (opt_of_hit hs')).trans (hclose name)⟩

end Sequence

/-! ## Values -/

/-- The grammar reads a value that was written at any depth of indentation. -/
def Reads (P : Platform ρ) (pretty : Bool) (v : Value ρ) : Prop :=
  ∀ level depth s text rest, Ready s → text.dropWhile isspace = output P pretty v level ++ rest →
    Stops rest → text.length < depth →
    ∃ name, value_ P depth s text = ((s.added (v.reread P)).rename name, .hit rest)

/-- A token that stands for a value is read as that value. -/
theorem scalar_of_read {β : Type} {read : List UInt8 → Option (β × List UInt8)} {b : β}
    {v : β → Value ρ} (hs : s.Ready) (h : read (text.dropWhile isspace) = some (b, rest)) :
    lexeme read (fun b => add (v b)) s text = (s.added (v b), .hit rest) :=
  lexeme_of_read h (add_eq hs _)

theorem number_int (hs : s.Ready) {i : Int64} {is_uint64 : Bool}
    (htext : text.dropWhile isspace = output_int i is_uint64 ++ rest) (hrest : Stops rest) :
    number_ P s text = (s.added ((Value.int i is_uint64).reread P), .hit rest) := by
  have hreal : strict_real_p (text.dropWhile isspace) = none := by
    rw [htext, output_int_eq]
    split
    · have := strict_real_p_signed false (printed_ne_nil i.toUInt64.toNat) (isdigit_printed _) hrest
      simpa [signed] using this
    · exact strict_real_p_signed _ (printed_ne_nil _) (isdigit_printed _) hrest
  rw [number_, alt_of_miss (lexeme_of_unread hreal)]
  by_cases h : is_uint64 = true ∧ i.toInt < 0
  · obtain ⟨rfl, hneg⟩ := h
    have hint : int64_p (text.dropWhile isspace) = none := by
      rw [htext, int64_p_output_uint hneg hrest]
    have huint : uint64_p (text.dropWhile isspace) = some (i.toUInt64, rest) := by
      rw [htext, uint64_p_output_uint i hrest]
    rw [alt_of_miss (lexeme_of_unread hint), scalar_of_read hs huint]
    simp [Value.reread, Value.map, hneg]
  · have hmark : (is_uint64 && decide (i.toInt < 0)) = false := by
      rw [← Bool.not_eq_true]
      simpa using h
    have hint : int64_p (text.dropWhile isspace) = some (i, rest) := by
      rw [htext, int64_p_output_int i (fun hu => Int.not_lt.1 fun hneg => h ⟨hu, hneg⟩) hrest]
    rw [alt_of_hit (scalar_of_read hs hint)]
    simp only [Value.reread, Value.map, hmark]

theorem number_real (hs : s.Ready) {d : ρ}
    (htext : text.dropWhile isspace = output_real P d ++ rest) (hrest : Stops rest) :
    number_ P s text = (s.added ((Value.real d).reread P), .hit rest) := by
  have hreal : strict_real_p (text.dropWhile isspace) = some (realText P d, rest) := by
    rw [htext, strict_real_p_output_real d hrest]
  rw [number_, alt_of_hit (scalar_of_read hs hreal)]
  rfl

/-- An object with the pairs that have been read. -/
def objOf (P : Platform ρ) (done : List (List UInt8 × Value ρ)) : Value ρ :=
  .obj (done.map fun p => (p.1, p.2.reread P))

/-- An array with the elements that have been read. -/
def arrayOf (P : Platform ρ) (done : List (Value ρ)) : Value ρ := .array (done.map (Value.reread P))

theorem reads_pair {p : List UInt8 × Value ρ} (hp : Reads P pretty p.2) (level depth : Nat)
    (hs : s.Ready) :
    ReadsElement (pair_ (value_ P depth)) (fun p => outputPair P pretty p level)
      (fun done s' => ∃ name, s' = s.inside (objOf P done) name) depth p := by
  obtain ⟨name, value⟩ := p
  rintro done _ text rest ⟨name', rfl⟩ htext hrest hlen
  obtain ⟨after, hafter⟩ : ∃ t, t = space pretty ++ (output P pretty value level ++ rest) :=
    ⟨_, rfl⟩
  have hsplit : text.dropWhile isspace =
      outputStr P name ++ (space pretty ++ ([':'.toUInt8] ++ after)) := by
    rw [htext, hafter]
    simp [outputPair]
  have hle := (List.dropWhile_sublist isspace (l := text)).length_le
  rw [hsplit] at hle
  simp only [List.length_append, List.length_singleton] at hle
  generalize hpairs : done.map (fun p => (p.1, p.2.reread P)) = pairs
  rw [objOf, hpairs]
  have hname : string_ new_name (s.inside (.obj pairs) name') text =
      (s.inside (.obj pairs) name, .hit (space pretty ++ ([':'.toUInt8] ++ after))) := by
    refine lexeme_of_read (b := outputStr P name) ?_ ?_
    · rw [hsplit, string_p_outputStr]
    · rw [new_name_inside hs, get_str_outputStr]
  have hcolon : (punct ':').alt (Rule.raise "no colon in pair") (s.inside (.obj pairs) name)
      (space pretty ++ ([':'.toUInt8] ++ after)) = (s.inside (.obj pairs) name, .hit after) := by
    apply alt_of_hit
    refine lexeme_of_read (b := ()) ?_ rfl
    rw [dropWhile_blanks isspace_space ⟨':'.toUInt8, [], rfl, by decide⟩]
    rfl
  obtain ⟨m, hvalue⟩ := hp level depth (s.inside (.obj pairs) name) after rest
    (inside_ready hs rfl name)
    (by rw [hafter, dropWhile_blanks isspace_space (starts_output value level)]) hrest (by omega)
  refine ⟨_, (seq_of_hit hname).trans ((seq_of_hit hcolon).trans (alt_of_hit hvalue)), m, ?_⟩
  rw [added_inside hs, rename_inside, objOf, List.map_append, hpairs]
  rfl

theorem reads_element {v : Value ρ} (hv : Reads P pretty v) (level depth : Nat) (hs : s.Ready) :
    ReadsElement (value_ P depth) (fun v => output P pretty v level)
      (fun done s' => ∃ name, s' = s.inside (arrayOf P done) name) depth v := by
  rintro done _ text rest ⟨name, rfl⟩ htext hrest hlen
  obtain ⟨m, hvalue⟩ := hv level depth _ text rest
    (inside_ready hs (v := arrayOf P done) rfl name) htext hrest hlen
  refine ⟨_, hvalue, m, ?_⟩
  rw [added_inside hs, rename_inside, arrayOf, arrayOf, List.map_append]
  rfl

theorem starts_outputPair (p : List UInt8 × Value ρ) (level : Nat) :
    Starts (outputPair P pretty p level) := by
  obtain ⟨name, value⟩ := p
  exact ⟨'"'.toUInt8, _, rfl, by decide⟩

theorem pair_of_closing {depth : Nat} {t : List UInt8}
    (htext : text.dropWhile isspace = '}'.toUInt8 :: t) :
    pair_ (value_ P depth) s text = (s, .miss) :=
  seq_of_miss (string_of_ne htext (by decide))

/-- **What the generator writes for a value** is read as that value. -/
theorem reads_output (P : Platform ρ) (pretty : Bool) (v : Value ρ) : Reads P pretty v := by
  induction v using Value.induct with
  | obj pairs ih =>
    intro level depth s text rest hs htext hrest hlen
    obtain ⟨depth, rfl⟩ := Nat.exists_eq_succ_of_ne_zero (Nat.ne_of_gt (Nat.zero_lt_of_lt hlen))
    rw [output, outputPairs_eq] at htext
    have hhead : text.dropWhile isspace = '{'.toUInt8 :: _ := htext
    have hmiss : ∀ s text t, text.dropWhile isspace = '}'.toUInt8 :: t →
        pair_ (value_ P depth) s text = (s, .miss) := fun _ _ _ => pair_of_closing
    have h : ∃ name, object_ (value_ P depth) s text =
        ((s.added (objOf P pairs)).rename name, .hit rest) :=
      compound_items (v := objOf P) hs (by decide) (by decide)
        (fun _ => stops_of_head (by decide)) hmiss
      (fun p hp => ⟨starts_outputPair p _, reads_pair (ih p hp) _ depth hs⟩) htext
      (Nat.le_of_lt_succ hlen)
    obtain ⟨name, h⟩ := h
    refine ⟨name, ?_⟩
    rw [value_, alt_of_miss (string_of_ne hhead (by decide)),
      alt_of_miss (number_of_not_number hhead (by decide)), Value.reread, Value.map,
      Value.mapPairs_eq]
    exact alt_of_hit h
  | array elements ih =>
    intro level depth s text rest hs htext hrest hlen
    obtain ⟨depth, rfl⟩ := Nat.exists_eq_succ_of_ne_zero (Nat.ne_of_gt (Nat.zero_lt_of_lt hlen))
    rw [output, outputElements_eq] at htext
    have hhead : text.dropWhile isspace = '['.toUInt8 :: _ := htext
    have hpos : 0 < depth := by
      have hle := (List.dropWhile_sublist isspace (l := text)).length_le
      rw [hhead, List.length_cons] at hle
      omega
    obtain ⟨depth, rfl⟩ := Nat.exists_eq_succ_of_ne_zero (Nat.ne_of_gt hpos)
    have hmiss : ∀ s text t, text.dropWhile isspace = ']'.toUInt8 :: t →
        value_ P (depth + 1) s text = (s, .miss) := fun _ _ _ => value_of_closing
    have h : ∃ name, array_ (value_ P (depth + 1)) s text =
        ((s.added (arrayOf P elements)).rename name, .hit rest) :=
      compound_items (v := arrayOf P) hs (by decide) (by decide)
        (fun _ => stops_of_head (by decide)) hmiss
      (fun v hv => ⟨starts_output v _, reads_element (ih v hv) _ _ hs⟩) htext
      (Nat.le_of_lt_succ hlen)
    obtain ⟨name, h⟩ := h
    refine ⟨name, ?_⟩
    rw [value_, alt_of_miss (string_of_ne hhead (by decide)),
      alt_of_miss (number_of_not_number hhead (by decide)),
      alt_of_miss (object_of_ne hhead (by decide)), Value.reread, Value.map, Value.mapElements_eq]
    exact alt_of_hit h
  | str str =>
    intro level depth s text rest hs htext _ hlen
    obtain ⟨depth, rfl⟩ := Nat.exists_eq_succ_of_ne_zero (Nat.ne_of_gt (Nat.zero_lt_of_lt hlen))
    have hread : string_p (text.dropWhile isspace) = some (outputStr P str, rest) := by
      rw [htext, output, string_p_outputStr]
    obtain ⟨name, hname⟩ := exists_rename (.str str) s
    refine ⟨name, ?_⟩
    rw [value_, string_, alt_of_hit (scalar_of_read hs hread), get_str_outputStr, hname]
    rfl
  | bool b =>
    intro level depth s text rest hs htext _ hlen
    obtain ⟨depth, rfl⟩ := Nat.exists_eq_succ_of_ne_zero (Nat.ne_of_gt (Nat.zero_lt_of_lt hlen))
    obtain ⟨name, hname⟩ := exists_rename (.bool b) s
    refine ⟨name, ?_⟩
    rw [Value.reread, Value.map, ← hname]
    cases b with
    | true =>
      have hhead : text.dropWhile isspace = 't'.toUInt8 :: (chars "rue" ++ rest) := htext
      have hread : str_p (chars "true") (text.dropWhile isspace) = some ((), rest) := by
        rw [htext, output, if_pos rfl, str_p_append]
      rw [value_, alt_of_miss (string_of_ne hhead (by decide)),
        alt_of_miss (number_of_not_number hhead (by decide)),
        alt_of_miss (object_of_ne hhead (by decide)), alt_of_miss (array_of_ne hhead (by decide))]
      exact alt_of_hit (scalar_of_read (v := fun _ => .bool true) hs hread)
    | false =>
      have hhead : text.dropWhile isspace = 'f'.toUInt8 :: (chars "alse" ++ rest) := htext
      have hread : str_p (chars "false") (text.dropWhile isspace) = some ((), rest) := by
        rw [htext, output, if_neg Bool.false_ne_true, str_p_append]
      have htrue : str_p (chars "true") (text.dropWhile isspace) = none := by
        rw [hhead, str_p_of_ne (by decide) (by decide)]
      rw [value_, alt_of_miss (string_of_ne hhead (by decide)),
        alt_of_miss (number_of_not_number hhead (by decide)),
        alt_of_miss (object_of_ne hhead (by decide)), alt_of_miss (array_of_ne hhead (by decide)),
        alt_of_miss (lexeme_of_unread htrue)]
      exact alt_of_hit (scalar_of_read (v := fun _ => .bool false) hs hread)
  | int i is_uint64 =>
    intro level depth s text rest hs htext hrest hlen
    obtain ⟨depth, rfl⟩ := Nat.exists_eq_succ_of_ne_zero (Nat.ne_of_gt (Nat.zero_lt_of_lt hlen))
    obtain ⟨c, t, hcons, -, hc⟩ := exists_output_int_cons i is_uint64 rest
    rw [output] at htext
    obtain ⟨name, hname⟩ := exists_rename ((Value.int i is_uint64).reread P) s
    refine ⟨name, ?_⟩
    rw [value_, alt_of_miss (string_of_ne (htext.trans hcons) hc), ← hname]
    exact alt_of_hit (number_int hs htext hrest)
  | real d =>
    intro level depth s text rest hs htext hrest hlen
    obtain ⟨depth, rfl⟩ := Nat.exists_eq_succ_of_ne_zero (Nat.ne_of_gt (Nat.zero_lt_of_lt hlen))
    obtain ⟨c, t, hcons, -, hc⟩ := exists_output_real_cons (P := P) d rest
    rw [output] at htext
    obtain ⟨name, hname⟩ := exists_rename ((Value.real d).reread P) s
    refine ⟨name, ?_⟩
    rw [value_, alt_of_miss (string_of_ne (htext.trans hcons) hc), ← hname]
    exact alt_of_hit (number_real hs htext hrest)
  | null =>
    intro level depth s text rest hs htext _ hlen
    obtain ⟨depth, rfl⟩ := Nat.exists_eq_succ_of_ne_zero (Nat.ne_of_gt (Nat.zero_lt_of_lt hlen))
    obtain ⟨name, hname⟩ := exists_rename .null s
    refine ⟨name, ?_⟩
    have hhead : text.dropWhile isspace = 'n'.toUInt8 :: (chars "ull" ++ rest) := htext
    have hread : str_p (chars "null") (text.dropWhile isspace) = some ((), rest) := by
      rw [htext, output, str_p_append]
    have hstr : ∀ {str : List UInt8}, str ≠ [] → str.head? ≠ some 'n'.toUInt8 →
        str_p str (text.dropWhile isspace) = none := by
      intro str hne h
      rw [hhead, str_p_of_ne hne h]
    rw [Value.reread, Value.map, ← hname, value_, alt_of_miss (string_of_ne hhead (by decide)),
      alt_of_miss (number_of_not_number hhead (by decide)),
      alt_of_miss (object_of_ne hhead (by decide)), alt_of_miss (array_of_ne hhead (by decide)),
      alt_of_miss (lexeme_of_unread (hstr (by decide) (by decide))),
      alt_of_miss (lexeme_of_unread (hstr (by decide) (by decide)))]
    exact scalar_of_read (v := fun _ => .null) hs hread

end Json_grammar

open Json_grammar Semantic_actions in
/-- A value that the grammar reads is read as the whole text, if a number cannot go on behind it. -/
theorem read_string_of_reads {P : Platform ρ} {pretty : Bool} {v : Value ρ} (hv : Reads P pretty v)
    (value : Value ρ) {rest : List UInt8} (hrest : Stops rest) :
    read_string P (write_string P pretty v ++ rest) value = some (true, v.reread P) := by
  have hnone : ∀ c ∈ ([] : List UInt8), isspace c = true := List.forall_mem_nil _
  have hblank : (write_string P pretty v ++ rest).dropWhile isspace =
      Generator.output P pretty v 0 ++ rest :=
    dropWhile_blanks hnone (Generator.starts_output v 0) rest
  obtain ⟨name, h⟩ := hv 0 _ (init value) _ rest (init_ready value) hblank hrest
    (Nat.lt_succ_self _)
  rw [read_string, json_, Phrase.alt_of_hit h]
  rfl

/-- **The round trip.** Whatever was in the variable before and whatever follows, if a number cannot
go on there. -/
theorem read_string_write_string (P : Platform ρ) (pretty : Bool) (v value : Value ρ)
    {rest : List UInt8} (hrest : Stops rest) :
    read_string P (write_string P pretty v ++ rest) value = some (true, v.reread P) :=
  read_string_of_reads (Json_grammar.reads_output P pretty v) value hrest

/-- Real numbers that are whole hundred-millionths, in the C locale. -/
def hundredMillionths : Platform Int where
  iswprint c := 32 ≤ c ∧ c < 127
  fixed8 n := (n < 0, n.natAbs / 10 ^ 8, ⟨n.natAbs % 10 ^ 8, Nat.mod_lt _ (by decide)⟩)
  round t :=
    let n : Int := decimalValue t.whole * 10 ^ 8 +
      decimalValue ((t.places ++ List.replicate 8 '0'.toUInt8).take 8)
    if t.negative then -n else n

theorem read_string_write_string_reply :
    Stops [newline] ∧
      read_string hundredMillionths (write_string hundredMillionths true
        (.obj [(chars "result", .array [.int (-5) false, .real 150000000]), (chars "id", .null)]) ++
          [newline]) .null =
        some (true, (Value.obj [(chars "result", .array [.int (-5) false, .real 150000000]),
          (chars "id", .null)]).reread hundredMillionths) :=
  have hstops : Stops [newline] := fun _ h => Option.some.inj h ▸ by decide
  ⟨hstops, read_string_write_string hundredMillionths true _ .null hstops⟩

open Json_grammar Semantic_actions in
/-- Every text is read without an assertion that fails, and what was read is canonical. -/
theorem read_string_canonical (P : Platform ρ) (text : List UInt8) (value : Value ρ) :
    ∃ ok v, read_string P text value = some (ok, v) ∧ (ok = true → v.Canonical) := by
  have h := ends_value_ P (text.length + 1) (init value) text (init_ready value)
    (Nat.lt_succ_self _)
  rw [read_string, json_, Phrase.Rule.alt]
  cases hr : value_ P (text.length + 1) (init value) text with
  | mk s o =>
    rw [hr] at h
    cases o with
    | hit rest =>
      obtain ⟨⟨v, name, hv, rfl⟩, -⟩ := h
      exact ⟨true, _, rfl, fun _ => hv⟩
    | miss => exact ⟨false, _, rfl, fun h => absurd h Bool.false_ne_true⟩
    | thrown e => exact ⟨false, _, rfl, fun h => absurd h Bool.false_ne_true⟩
    | aborted => exact h.elim

/-- **The reader on any text.** It ends, and a value that it has read is read again from what is
written for it, its real numbers rounded. -/
theorem read_string_total (P : Platform ρ) (text : List UInt8) (value : Value ρ) :
    ∃ ok v, read_string P text value = some (ok, v) ∧
      (ok = true → ∀ pretty w,
        read_string P (write_string P pretty v) w = some (true, v.rounded P)) := by
  obtain ⟨ok, v, h, hv⟩ := read_string_canonical P text value
  refine ⟨ok, v, h, fun hok pretty w => ?_⟩
  have hstops : Stops [] := fun c hc => nomatch hc
  have := read_string_of_reads (Json_grammar.reads_output P pretty v) w hstops
  rwa [List.append_nil, (hv hok).reread_eq] at this

end TriTip
