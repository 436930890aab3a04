import Mathlib

/-!
# Ordered maps: the entry list and the entries of a kind

`Std.ExtTreeMap` is the model of an ordered map container. This file relates the list of its entries
to insertion and deletion, up to order (`toList_insert_perm`, `toList_perm_of_getElem?`), and counts
the entries whose value satisfies a test (`count`), with the two laws by which a hand-kept counter
follows the map: replacing an entry moves the count by the change of the test at it
(`count_insert_of_some`, `count_insert_of_none`), deleting one lowers it (`count_erase`).
-/

namespace OrdMap

open Std

variable {α β : Type*} {cmp : α → α → Ordering} [TransCmp cmp] [LawfulEqCmp cmp]

theorem toList_nodup (m : ExtTreeMap α β cmp) : m.toList.Nodup := by
  refine m.distinct_keys_toList.imp fun {a b} hab heq => hab ?_
  rw [heq]
  exact ReflCmp.compare_self

omit [LawfulEqCmp cmp] in
/-- The keys of the entry list are pairwise different. -/
theorem toList_keys_nodup (m : ExtTreeMap α β cmp) : (m.toList.map Prod.fst).Nodup := by
  rw [ExtTreeMap.map_fst_toList_eq_keys]
  exact ExtTreeMap.nodup_keys

omit [LawfulEqCmp cmp] in
theorem set_toList_nodup (s : ExtTreeSet α cmp) : s.toList.Nodup := by
  refine s.distinct_toList.imp fun {a b} hab heq => hab ?_
  rw [heq]
  exact ReflCmp.compare_self

theorem toList_insert_perm (m : ExtTreeMap α β cmp) (k : α) (v : β) :
    (m.insert k v).toList.Perm ((k, v) :: (m.erase k).toList) := by
  have hfresh : (k, v) ∉ (m.erase k).toList := by
    rw [ExtTreeMap.mem_toList_iff_getElem?_eq_some, ExtTreeMap.getElem?_erase_self]
    simp
  refine (List.perm_ext_iff_of_nodup (toList_nodup _)
    (List.nodup_cons.2 ⟨hfresh, toList_nodup _⟩)).2 ?_
  rintro ⟨a, b⟩
  simp only [ExtTreeMap.mem_toList_iff_getElem?_eq_some, ExtTreeMap.getElem?_insert,
    List.mem_cons, ExtTreeMap.getElem?_erase, LawfulEqCmp.compare_eq_iff_eq, Prod.mk.injEq]
  by_cases hka : k = a
  · subst hka
    simp [@eq_comm _ v b]
  · simp [hka, Ne.symm hka]

theorem toList_perm_of_getElem? {m : ExtTreeMap α β cmp} {k : α} {v : β} (h : m[k]? = some v) :
    m.toList.Perm ((k, v) :: (m.erase k).toList) := by
  have hsame : m.insert k v = m := by
    apply ExtTreeMap.ext_getElem?
    intro a
    rw [ExtTreeMap.getElem?_insert]
    split
    · next hc => rw [LawfulEqCmp.compare_eq_iff_eq.1 hc] at h; exact h.symm
    · rfl
  have hperm := toList_insert_perm m k v
  rwa [hsame] at hperm

theorem erase_of_getElem?_none {m : ExtTreeMap α β cmp} {k : α} (h : m[k]? = none) :
    m.erase k = m := by
  apply ExtTreeMap.ext_getElem?
  intro a
  rw [ExtTreeMap.getElem?_erase]
  split
  · next hc => rw [LawfulEqCmp.compare_eq_iff_eq.1 hc] at h; exact h.symm
  · rfl

/-- Of two insertions at one key the last counts. -/
theorem insert_insert_self (m : ExtTreeMap α β cmp) (k : α) (v w : β) :
    (m.insert k v).insert k w = m.insert k w := by
  apply ExtTreeMap.ext_getElem?
  intro a
  simp only [ExtTreeMap.getElem?_insert, LawfulEqCmp.compare_eq_iff_eq]
  split <;> rfl

theorem insert_insert_comm (m : ExtTreeMap α β cmp) {k l : α} (h : k ≠ l) (v w : β) :
    (m.insert k v).insert l w = (m.insert l w).insert k v := by
  apply ExtTreeMap.ext_getElem?
  intro a
  simp only [ExtTreeMap.getElem?_insert, LawfulEqCmp.compare_eq_iff_eq]
  split
  · next hl =>
    have hk : ¬k = a := fun hk => h (hk.trans (LawfulEqCmp.compare_eq_iff_eq.1 hl).symm)
    simp [hk]
  · rfl

/-! ## Deletion of what satisfies a test -/

omit [LawfulEqCmp cmp] in
theorem getElem?_foldl_erase (p : β → Bool) (l : List (α × β)) (m : ExtTreeMap α β cmp) (k : α) :
    (l.foldl (fun m entry => if p entry.2 then m.erase entry.1 else m) m)[k]? =
      if l.any fun entry => cmp entry.1 k == .eq && p entry.2 then none else m[k]? := by
  induction l generalizing m with
  | nil => rfl
  | cons entry l ih =>
    rw [List.foldl_cons, ih, List.any_cons]
    by_cases hl : (l.any fun entry => cmp entry.1 k == .eq && p entry.2) = true
    · rw [hl, Bool.or_true]
      rfl
    · rw [if_neg hl, Bool.eq_false_iff.2 hl, Bool.or_false]
      cases hp : p entry.2 with
      | false => rw [if_neg Bool.false_ne_true, Bool.and_false, if_neg Bool.false_ne_true]
      | true => rw [if_pos rfl, ExtTreeMap.getElem?_erase, Bool.and_true]; simp only [beq_iff_eq]

/-- A pass over the map that deletes what satisfies the test leaves the rest. -/
theorem getElem?_eraseEach (p : β → Bool) (m : ExtTreeMap α β cmp) (k : α) (v : β) :
    (m.toList.foldl (fun m entry => if p entry.2 then m.erase entry.1 else m) m)[k]? = some v ↔
      m[k]? = some v ∧ p v = false := by
  rw [getElem?_foldl_erase]
  split
  · next h =>
    obtain ⟨⟨l, w⟩, hmem, hw⟩ := List.any_eq_true.1 h
    rw [Bool.and_eq_true, beq_iff_eq, LawfulEqCmp.compare_eq_iff_eq] at hw
    obtain ⟨rfl, hp⟩ := hw
    rw [ExtTreeMap.mem_toList_iff_getElem?_eq_some] at hmem
    refine ⟨nofun, fun ⟨hv, hfalse⟩ => ?_⟩
    rw [hmem] at hv
    rw [Option.some.inj hv, hfalse] at hp
    cases hp
  · next h =>
    refine ⟨fun hv => ⟨hv, ?_⟩, And.left⟩
    rw [Bool.not_eq_true, List.any_eq_false] at h
    have hk := h (k, v) (ExtTreeMap.mem_toList_iff_getElem?_eq_some.2 hv)
    have hself : cmp k k = .eq := ReflCmp.compare_self
    simpa [hself] using hk

/-- The number of entries whose value passes the test. -/
def count (p : β → Bool) (m : ExtTreeMap α β cmp) : Nat :=
  m.toList.countP fun e => p e.2

@[simp] theorem count_empty (p : β → Bool) : count p (∅ : ExtTreeMap α β cmp) = 0 := by
  simp [count]

theorem count_erase {p : β → Bool} {m : ExtTreeMap α β cmp} {k : α} {v : β}
    (h : m[k]? = some v) : count p m = count p (m.erase k) + (if p v then 1 else 0) := by
  unfold count
  rw [(toList_perm_of_getElem? h).countP_eq, List.countP_cons]

theorem count_insert (p : β → Bool) (m : ExtTreeMap α β cmp) (k : α) (v : β) :
    count p (m.insert k v) = count p (m.erase k) + (if p v then 1 else 0) := by
  unfold count
  rw [(toList_insert_perm m k v).countP_eq, List.countP_cons]

theorem count_insert_of_none {p : β → Bool} {m : ExtTreeMap α β cmp} {k : α}
    (h : m[k]? = none) (v : β) :
    count p (m.insert k v) = count p m + (if p v then 1 else 0) := by
  rw [count_insert, erase_of_getElem?_none h]

/-- Replacing a value by one on which the test agrees keeps the count. -/
theorem count_insert_of_some {p : β → Bool} {m : ExtTreeMap α β cmp} {k : α} {v w : β}
    (h : m[k]? = some v) :
    count p (m.insert k w) + (if p v then 1 else 0) = count p m + (if p w then 1 else 0) := by
  rw [count_insert, count_erase h]
  omega

/-- The count over the keys. -/
theorem count_eq_countP_keys (p : β → Bool) (m : ExtTreeMap α β cmp) :
    count p m = m.keys.countP fun k => (m[k]?).any p := by
  unfold count
  rw [← ExtTreeMap.map_fst_toList_eq_keys, List.countP_map]
  apply List.countP_congr
  rintro ⟨k, v⟩ he
  rw [ExtTreeMap.mem_toList_iff_getElem?_eq_some] at he
  simp [he]

/-- Maps on which the test reads the same everywhere have the same count. -/
theorem count_congr {p : β → Bool} {m m' : ExtTreeMap α β cmp}
    (h : ∀ k : α, (m'[k]?).map p = (m[k]?).map p) : count p m' = count p m := by
  have hany : ∀ k : α, (m'[k]?).any p = (m[k]?).any p := by
    intro k
    have := congrArg (fun o : Option Bool => o.getD false) (h k)
    cases hm : m[k]? <;> cases hm' : m'[k]? <;> simp_all
  have hkeys : m'.keys.Perm m.keys := by
    refine (List.perm_ext_iff_of_nodup ExtTreeMap.nodup_keys ExtTreeMap.nodup_keys).2 fun k => ?_
    rw [ExtTreeMap.mem_keys, ExtTreeMap.mem_keys, ExtTreeMap.mem_iff_isSome_getElem?,
      ExtTreeMap.mem_iff_isSome_getElem?]
    have := congrArg Option.isSome (h k)
    simpa using Bool.eq_iff_iff.1 this
  rw [count_eq_countP_keys, count_eq_countP_keys, hkeys.countP_eq]
  exact List.countP_congr fun k _ => by rw [hany k]

omit [LawfulEqCmp cmp] in
/-- The tests of a partition of the values count every entry once. -/
theorem count_add_count_not (p : β → Bool) (m : ExtTreeMap α β cmp) :
    count p m + count (fun v => !p v) m = m.size := by
  unfold count
  rw [← ExtTreeMap.length_toList (t := m), List.length_eq_countP_add_countP fun e : α × β => p e.2]
  congr 1
  apply List.countP_congr
  intro e _
  simp

/-- A list without repetition of the keys of a kind is as long as they are many. -/
theorem length_eq_count {p : β → Bool} {m : ExtTreeMap α β cmp} {l : List α} (hl : l.Nodup)
    (h : ∀ k, k ∈ l ↔ ∃ v, m[k]? = some v ∧ p v = true) : l.length = count p m := by
  have hkeys : ((m.toList.filter fun e => p e.2).map Prod.fst).Nodup :=
    (toList_keys_nodup m).sublist (List.filter_sublist.map _)
  have hperm : l.Perm ((m.toList.filter fun e => p e.2).map Prod.fst) := by
    refine (List.perm_ext_iff_of_nodup hl hkeys).2 fun k => ?_
    rw [h]
    simp [ExtTreeMap.mem_toList_iff_getElem?_eq_some]
  rw [hperm.length_eq, List.length_map, count, List.countP_eq_length_filter]

theorem set_size_eq_count {p : β → Bool} {m : ExtTreeMap α β cmp} {s : ExtTreeSet α cmp}
    (h : ∀ k, k ∈ s ↔ ∃ v, m[k]? = some v ∧ p v = true) : s.size = count p m := by
  rw [← ExtTreeSet.length_toList]
  exact length_eq_count (set_toList_nodup s) fun k => by rw [ExtTreeSet.mem_toList, h]

theorem map_size_eq_count {γ : Type*} {p : β → Bool} {m : ExtTreeMap α β cmp}
    {m' : ExtTreeMap α γ cmp} (h : ∀ k, k ∈ m' ↔ ∃ v, m[k]? = some v ∧ p v = true) :
    m'.size = count p m := by
  rw [← ExtTreeMap.length_keys]
  exact length_eq_count ExtTreeMap.nodup_keys fun k => by rw [ExtTreeMap.mem_keys, h]

omit [LawfulEqCmp cmp] in
/-- Erasing an element of a set makes it smaller by one. -/
theorem size_erase_of_mem {s : ExtTreeSet α cmp} {k : α} (h : k ∈ s) :
    (s.erase k).size + 1 = s.size := by
  have hpos : s.size ≠ 0 := by
    intro h0
    rw [ExtTreeSet.eq_empty_iff_size_eq_zero.2 h0] at h
    exact ExtTreeSet.not_mem_empty h
  rw [ExtTreeSet.size_erase, if_pos (ExtTreeSet.mem_iff_contains.1 h)]
  omega

end OrdMap
