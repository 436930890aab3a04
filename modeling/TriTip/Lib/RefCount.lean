import TriTip.Lib.OrdMap

/-!
# Reference counts

Items that are held use resources, each any number of them; a table has the number of uses of each
resource that is used at all. `Counted.acquire` and `Counted.release` keep the table as uses begin
and end, and say which use of a resource is its first and which its last. The counts are machine
integers: a table is kept as long as the counter can tell the uses that are left from none.

A table may also keep its zeros (`Tallied`): then an entry that is 0 says the same as no entry, and
the sum of all entries is 0 just if nothing is used (`Tallied.sum_eq`).
-/

namespace RefCount

open Std

variable {κ : Type} [Ord κ] [TransOrd κ]

/-- The table has the number of uses of each resource, and no entry for an unused one. -/
def Counted (table : ExtTreeMap κ Int32) (uses : κ → Nat) : Prop :=
  ∀ k, table[k]? = if uses k = 0 then none else some (Int32.ofNat (uses k))

/-- One use more; whether it is the first. -/
def acquire (table : ExtTreeMap κ Int32) (k : κ) : ExtTreeMap κ Int32 × Bool :=
  match table[k]? with
  | none => (table.insert k 1, true)
  | some n => (table.insert k (n + 1), false)

/-- One use less; whether it was the last. There is no release of what is unused. -/
def release (table : ExtTreeMap κ Int32) (k : κ) : Option (ExtTreeMap κ Int32 × Bool) :=
  match table[k]? with
  | none => none
  | some n => if n - 1 = 0 then some (table.erase k, true) else some (table.insert k (n - 1), false)

variable {table : ExtTreeMap κ Int32} {uses : κ → Nat}

theorem Counted.getElem?_eq_none (h : Counted table uses) {k : κ} (hk : uses k = 0) :
    table[k]? = none := by
  rw [h k, if_pos hk]

theorem Counted.getElem?_eq_some (h : Counted table uses) {k : κ} (hk : uses k ≠ 0) :
    table[k]? = some (Int32.ofNat (uses k)) := by
  rw [h k, if_neg hk]

theorem counted_empty : Counted (∅ : ExtTreeMap κ Int32) fun _ => 0 := by
  intro k
  rw [if_pos rfl]
  exact ExtTreeMap.getElem?_empty

variable [LawfulEqOrd κ] [DecidableEq κ]

/-- Setting the entry of one resource. -/
theorem Counted.insert (h : Counted table uses) {k : κ} {n : Nat} (hn : n ≠ 0) :
    Counted (table.insert k (Int32.ofNat n)) (Function.update uses k n) := by
  intro l
  rw [ExtTreeMap.getElem?_insert]
  by_cases hkl : k = l
  · subst hkl
    rw [if_pos ReflCmp.compare_self, Function.update_self, if_neg hn]
  · rw [if_neg (by simpa using hkl), Function.update_of_ne (Ne.symm hkl), h l]

theorem Counted.erase (h : Counted table uses) (k : κ) :
    Counted (table.erase k) (Function.update uses k 0) := by
  intro l
  rw [ExtTreeMap.getElem?_erase]
  by_cases hkl : k = l
  · subst hkl
    rw [if_pos ReflCmp.compare_self, Function.update_self, if_pos rfl]
  · rw [if_neg (by simpa using hkl), Function.update_of_ne (Ne.symm hkl), h l]

theorem Counted.acquire (h : Counted table uses) (k : κ) :
    Counted (acquire table k).1 (Function.update uses k (uses k + 1)) ∧
      ((acquire table k).2 = true ↔ uses k = 0) := by
  unfold RefCount.acquire
  by_cases hk : uses k = 0
  · rw [h.getElem?_eq_none hk]
    refine ⟨?_, by simp [hk]⟩
    rw [hk]
    exact h.insert Nat.one_ne_zero
  · rw [h.getElem?_eq_some hk]
    refine ⟨?_, by simp [hk]⟩
    have hadd : Int32.ofNat (uses k) + 1 = Int32.ofNat (uses k + 1) := (Int32.ofNat_add _ 1).symm
    dsimp only
    rw [hadd]
    exact h.insert (Nat.succ_ne_zero _)

theorem ofNat_eq_zero_iff {n : Nat} (h : n < 2 ^ 32) : Int32.ofNat n = 0 ↔ n = 0 := by
  constructor
  · intro hzero
    have hnat := congrArg (fun i : Int32 => i.toBitVec.toNat) hzero
    change (BitVec.ofNat 32 n).toNat = 0 at hnat
    rwa [BitVec.toNat_ofNat, Nat.mod_eq_of_lt h] at hnat
  · rintro rfl
    rfl

/-- The number of uses that are left is zero if and only if the counter is. -/
theorem ofNat_sub_one_eq_zero_iff {n : Nat} (hpos : n ≠ 0) (hlt : n ≤ 2 ^ 32) :
    Int32.ofNat n - 1 = Int32.ofNat (n - 1) ∧ (Int32.ofNat n - 1 = 0 ↔ n = 1) := by
  obtain ⟨m, rfl⟩ := Nat.exists_eq_succ_of_ne_zero hpos
  have hsub : Int32.ofNat (m + 1) - 1 = Int32.ofNat m := by
    rw [Int32.ofNat_add]
    exact Int32.add_sub_cancel _ _
  refine ⟨hsub, ?_⟩
  rw [hsub, ofNat_eq_zero_iff (Nat.lt_of_succ_le hlt)]
  exact Nat.succ_inj.symm

theorem Counted.release (h : Counted table uses) {k : κ} (hpos : uses k ≠ 0)
    (hlt : uses k ≤ 2 ^ 32) :
    ∃ table' last, release table k = some (table', last) ∧
      Counted table' (Function.update uses k (uses k - 1)) ∧ (last = true ↔ uses k = 1) := by
  obtain ⟨hsub, hzero⟩ := ofNat_sub_one_eq_zero_iff hpos hlt
  unfold RefCount.release
  rw [h.getElem?_eq_some hpos]
  dsimp only
  by_cases hone : uses k = 1
  · rw [if_pos (hzero.2 hone)]
    refine ⟨_, _, rfl, ?_, by simp [hone]⟩
    rw [hone]
    exact h.erase k
  · rw [if_neg (fun h0 => hone (hzero.1 h0)), hsub]
    exact ⟨_, _, rfl, h.insert (by omega), by simp [hone]⟩

/-! ## Tables that keep their zeros -/

/-- The table has the number of uses of each resource; one without an entry has none. -/
def Tallied (table : ExtTreeMap κ Int32) (uses : List κ) : Prop :=
  ∀ k, table.getD k 0 = Int32.ofNat (uses.count k)

section Tallied

variable {uses uses' : List κ} {k : κ}

omit [LawfulEqOrd κ] in
theorem tallied_empty : Tallied (∅ : ExtTreeMap κ Int32) [] := by
  intro k
  rw [ExtTreeMap.getD_empty]
  rfl

omit [LawfulEqOrd κ] in
theorem Tallied.perm (h : Tallied table uses) (hperm : uses.Perm uses') : Tallied table uses' := by
  intro k
  rw [h k, hperm.count_eq]

theorem getD_insert (table : ExtTreeMap κ Int32) (k l : κ) (n : Int32) :
    (table.insert k n).getD l 0 = if k = l then n else table.getD l 0 := by
  rw [ExtTreeMap.getD_insert]
  simp only [LawfulEqCmp.compare_eq_iff_eq]

theorem Tallied.raise (h : Tallied table uses) (k : κ) :
    Tallied (table.insert k (table.getD k 0 + 1)) (k :: uses) := by
  intro l
  rw [getD_insert]
  by_cases hkl : k = l
  · subst hkl
    rw [if_pos rfl, List.count_cons_self, h k, Int32.ofNat_add]
    rfl
  · rw [if_neg hkl, List.count_cons_of_ne hkl, h l]

theorem Tallied.lower (h : Tallied table (k :: uses)) :
    Tallied (table.insert k (table.getD k 0 - 1)) uses := by
  intro l
  rw [getD_insert]
  by_cases hkl : k = l
  · subst hkl
    rw [if_pos rfl, h k, List.count_cons_self, Int32.ofNat_add]
    exact Int32.add_sub_cancel _ _
  · rw [if_neg hkl, h l, List.count_cons_of_ne hkl]

/-- An entry that is 0 can be left out. -/
theorem Tallied.erase_zero (h : Tallied table uses) (hk : table.getD k 0 = 0) :
    Tallied (table.erase k) uses := by
  intro l
  rw [ExtTreeMap.getD_erase]
  simp only [LawfulEqCmp.compare_eq_iff_eq]
  by_cases hkl : k = l
  · subst hkl
    rw [if_pos rfl, ← h k, hk]
  · rw [if_neg hkl, h l]

omit [LawfulEqOrd κ] in
theorem Tallied.eq_zero_iff (h : Tallied table uses) (hlt : uses.length < 2 ^ 32) :
    table.getD k 0 = 0 ↔ k ∉ uses := by
  rw [h k, ofNat_eq_zero_iff (List.count_le_length.trans_lt hlt), List.count_eq_zero]

omit [LawfulEqOrd κ] in
theorem Tallied.toInt_eq (h : Tallied table uses) (hlt : uses.length < 2 ^ 31) :
    (table.getD k 0).toInt = uses.count k := by
  rw [h k]
  exact Int32.toInt_ofNat_of_lt (List.count_le_length.trans_lt hlt)

omit [Ord κ] [TransOrd κ] [LawfulEqOrd κ] [DecidableEq κ] in
theorem foldl_add_eq {entries : List (κ × Int32)} {f : κ → Nat}
    (h : ∀ p ∈ entries, p.2 = Int32.ofNat (f p.1)) (n : Nat) :
    entries.foldl (fun sum p => sum + p.2) (Int32.ofNat n) =
      Int32.ofNat (n + ((entries.map Prod.fst).map f).sum) := by
  induction entries generalizing n with
  | nil => rfl
  | cons p entries ih =>
    rw [List.foldl_cons, h p List.mem_cons_self, ← Int32.ofNat_add,
      ih fun q hq => h q (List.mem_cons_of_mem _ hq), List.map_cons, List.map_cons, List.sum_cons,
      Nat.add_assoc]

/-- The sum of the entries is the number of all uses. -/
theorem Tallied.sum_eq (h : Tallied table uses) (hlt : uses.length < 2 ^ 32) :
    table.toList.foldl (fun sum p => sum + p.2) 0 = Int32.ofNat uses.length := by
  have hentry : ∀ p ∈ table.toList, p.2 = Int32.ofNat (uses.count p.1) := by
    intro p hp
    rw [← h p.1, ExtTreeMap.getD_eq_getD_getElem?,
      ExtTreeMap.mem_toList_iff_getElem?_eq_some.1 hp, Option.getD_some]
  have hmem : ∀ k ∈ (uses : Multiset κ), k ∈ (table.toList.map Prod.fst).toFinset := by
    intro k hk
    rw [List.mem_toFinset]
    by_contra hnot
    refine (h.eq_zero_iff hlt).1 ?_ (Multiset.mem_coe.1 hk)
    rw [ExtTreeMap.getD_eq_getD_getElem?, Option.getD_eq_iff]
    refine .inr ⟨Option.eq_none_iff_forall_not_mem.2 fun v hv => hnot ?_, rfl⟩
    exact List.mem_map.2 ⟨(k, v), ExtTreeMap.mem_toList_iff_getElem?_eq_some.2 hv, rfl⟩
  have hsum := Multiset.sum_count_eq_card hmem
  rw [List.sum_toFinset _ (OrdMap.toList_keys_nodup table), Multiset.coe_card] at hsum
  rw [← hsum]
  simpa using foldl_add_eq (f := fun k => uses.count k) hentry 0

end Tallied

end RefCount
