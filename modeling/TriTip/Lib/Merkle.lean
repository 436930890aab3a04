import Mathlib

/-!
# Merkle trees

A list is hashed pair by pair into a list of half the length, the last element with itself if it has
no partner, until one is left. The branch of a position leads from its leaf to the root
(`verify_branch`). Lists of different lengths can have one root, but not lists without repetitions,
unless hashes collide (`root_injective`).
-/

namespace Merkle

variable {α : Type*}

/-- The pairs of a level. -/
def levelPairs : List α → List (α × α)
  | [] => []
  | [a] => [(a, a)]
  | a :: b :: rest => (a, b) :: levelPairs rest

theorem length_levelPairs (l : List α) : (levelPairs l).length = (l.length + 1) / 2 := by
  induction l using levelPairs.induct with
  | case1 => simp [levelPairs]
  | case2 => simp [levelPairs]
  | case3 a b rest ih =>
    rw [levelPairs, List.length_cons, ih]
    simp only [List.length_cons]
    omega

/-- The pair at a place: the element there and the next, or the last again. -/
theorem getElem?_levelPairs (l : List α) (i : Nat) {a b : α} (ha : l[2 * i]? = some a)
    (hb : l[min (2 * i + 1) (l.length - 1)]? = some b) : (levelPairs l)[i]? = some (a, b) := by
  induction l using levelPairs.induct generalizing i with
  | case1 => cases ha
  | case2 x =>
    cases i with
    | zero =>
      simp at ha hb
      simp [levelPairs, ← ha, ← hb]
    | succ i => simp at ha
  | case3 x y rest ih =>
    cases i with
    | zero =>
      simp at ha hb
      simp [levelPairs, ha, hb]
    | succ i =>
      have hne : rest ≠ [] := by
        rintro rfl
        have hlt := (List.getElem?_eq_some_iff.1 ha).1
        simp only [List.length_cons, List.length_nil] at hlt
        omega
      have hpos := List.length_pos_of_ne_nil hne
      rw [levelPairs, List.getElem?_cons_succ]
      refine ih i ?_ ?_
      · rw [show 2 * (i + 1) = 2 * i + 1 + 1 by omega, List.getElem?_cons_succ,
          List.getElem?_cons_succ] at ha
        exact ha
      · rw [show min (2 * (i + 1) + 1) ((x :: y :: rest).length - 1) =
            min (2 * i + 1) (rest.length - 1) + 1 + 1 by simp only [List.length_cons]; omega,
          List.getElem?_cons_succ, List.getElem?_cons_succ] at hb
        exact hb

theorem fst_mem_of_mem_levelPairs {l : List α} {p : α × α} (h : p ∈ levelPairs l) : p.1 ∈ l := by
  induction l using levelPairs.induct with
  | case1 => cases h
  | case2 a =>
    rw [levelPairs, List.mem_singleton] at h
    rw [h]
    exact List.mem_cons_self
  | case3 a b rest ih =>
    rw [levelPairs, List.mem_cons] at h
    rcases h with rfl | h
    · exact List.mem_cons_self
    · exact List.mem_cons_of_mem a (List.mem_cons_of_mem b (ih h))

theorem nodup_levelPairs {l : List α} (h : l.Nodup) : (levelPairs l).Nodup := by
  induction l using levelPairs.induct with
  | case1 => exact List.nodup_nil
  | case2 a => exact List.nodup_singleton _
  | case3 a b rest ih =>
    obtain ⟨ha, hb⟩ := List.nodup_cons.1 h
    refine List.nodup_cons.2 ⟨fun hmem => ?_, ih (List.nodup_cons.1 hb).2⟩
    exact ha (List.mem_cons_of_mem b (fst_mem_of_mem_levelPairs hmem))

/-- A list without repetitions can be told from its pairs: no element is its own partner but a last
one without a partner. -/
theorem levelPairs_injective {l m : List α} (hl : l.Nodup) (hm : m.Nodup)
    (h : levelPairs l = levelPairs m) : l = m := by
  induction l using levelPairs.induct generalizing m with
  | case1 =>
    match m with
    | [] => rfl
    | [_] => cases h
    | _ :: _ :: _ => cases h
  | case2 a =>
    match m with
    | [] => cases h
    | [_] =>
      cases h
      rfl
    | c :: d :: _ =>
      obtain ⟨hcd, -⟩ := List.cons.inj h
      obtain ⟨rfl, rfl⟩ := Prod.mk.inj hcd
      exact absurd List.mem_cons_self (List.nodup_cons.1 hm).1
  | case3 a b rest ih =>
    match m with
    | [] => cases h
    | [_] =>
      obtain ⟨hab, -⟩ := List.cons.inj h
      obtain ⟨rfl, rfl⟩ := Prod.mk.inj hab
      exact absurd List.mem_cons_self (List.nodup_cons.1 hl).1
    | c :: d :: rest' =>
      obtain ⟨hcd, hrest⟩ := List.cons.inj h
      obtain ⟨rfl, rfl⟩ := Prod.mk.inj hcd
      rw [ih (List.nodup_cons.1 (List.nodup_cons.1 hl).2).2
        (List.nodup_cons.1 (List.nodup_cons.1 hm).2).2 hrest]

section Tree

variable (hash : α → α → α)

/-- The next level. -/
def levelUp (l : List α) : List α := (levelPairs l).map fun p => hash p.1 p.2

theorem length_levelUp (l : List α) : (levelUp hash l).length = (l.length + 1) / 2 := by
  rw [levelUp, List.length_map, length_levelPairs]

theorem length_levelUp_lt {l : List α} (h : ¬l.length ≤ 1) :
    (levelUp hash l).length < l.length := by
  rw [length_levelUp]
  omega

theorem levelUp_ne_nil {l : List α} (h : l ≠ []) : levelUp hash l ≠ [] := by
  have hpos := List.length_pos_of_ne_nil h
  refine List.ne_nil_of_length_pos ?_
  rw [length_levelUp]
  omega

theorem getElem?_levelUp (l : List α) (i : Nat) {a b : α} (ha : l[2 * i]? = some a)
    (hb : l[min (2 * i + 1) (l.length - 1)]? = some b) :
    (levelUp hash l)[i]? = some (hash a b) := by
  rw [levelUp, List.getElem?_map, getElem?_levelPairs l i ha hb]
  rfl

/-- All levels one after another, the leaves first. -/
def tree (l : List α) : List α :=
  if l.length ≤ 1 then l else l ++ tree (levelUp hash l)
termination_by l.length
decreasing_by exact length_levelUp_lt hash ‹_›

def root (l : List α) : Option α :=
  if l.length ≤ 1 then l.head? else root (levelUp hash l)
termination_by l.length
decreasing_by exact length_levelUp_lt hash ‹_›

/-- The number of levels above the leaves. -/
def height (l : List α) : Nat :=
  if l.length ≤ 1 then 0 else height (levelUp hash l) + 1
termination_by l.length
decreasing_by exact length_levelUp_lt hash ‹_›

/-- The pairs of all levels. -/
def pairs (l : List α) : List (α × α) :=
  if l.length ≤ 1 then [] else levelPairs l ++ pairs (levelUp hash l)
termination_by l.length
decreasing_by exact length_levelUp_lt hash ‹_›

variable {hash}

theorem tree_of_le {l : List α} (h : l.length ≤ 1) : tree hash l = l := by
  rw [tree, if_pos h]

theorem tree_of_lt {l : List α} (h : ¬l.length ≤ 1) :
    tree hash l = l ++ tree hash (levelUp hash l) := by
  rw [tree, if_neg h]

theorem root_of_le {l : List α} (h : l.length ≤ 1) : root hash l = l.head? := by
  rw [root, if_pos h]

theorem root_of_lt {l : List α} (h : ¬l.length ≤ 1) :
    root hash l = root hash (levelUp hash l) := by
  rw [root, if_neg h]

theorem pairs_of_lt {l : List α} (h : ¬l.length ≤ 1) :
    pairs hash l = levelPairs l ++ pairs hash (levelUp hash l) := by
  rw [pairs, if_neg h]

theorem tree_ne_nil {l : List α} (h : l ≠ []) : tree hash l ≠ [] := by
  unfold tree
  split
  · exact h
  · exact List.append_ne_nil_of_left_ne_nil h _

/-- The root is the last node of the tree. -/
theorem getLast?_tree {l : List α} (h : l ≠ []) : (tree hash l).getLast? = root hash l := by
  induction hlen : l.length using Nat.strong_induction_on generalizing l with
  | _ n ih =>
    by_cases hle : l.length ≤ 1
    · rw [tree_of_le hle, root_of_le hle]
      match l with
      | [] => rfl
      | [_] => rfl
    · have hup := levelUp_ne_nil hash h
      rw [tree_of_lt hle, root_of_lt hle,
        List.getLast?_append_of_ne_nil _ (tree_ne_nil hup)]
      exact ih _ (hlen ▸ length_levelUp_lt hash hle) hup rfl

/-! ## Branches -/

variable (hash)

variable {hash}

/-- In the trees of two lists, different pairs have different hashes, and no leaf is the hash of a
pair. -/
structure CollisionFree (hash : α → α → α) (l m : List α) : Prop where
  injective : ∀ p ∈ pairs hash l ++ pairs hash m, ∀ q ∈ pairs hash l ++ pairs hash m,
    hash p.1 p.2 = hash q.1 q.2 → p = q
  leaf : ∀ a ∈ l ++ m, ∀ p ∈ pairs hash l ++ pairs hash m, hash p.1 p.2 ≠ a

/-- An injective hash under which no leaf is an inner node has no collisions. -/
theorem CollisionFree.of_injective (h : Function.Injective2 hash) {l m : List α}
    (hleaf : ∀ a ∈ l ++ m, ∀ x y, hash x y ≠ a) : CollisionFree hash l m where
  injective := fun _ _ _ _ hpq => Prod.ext (h hpq).1 (h hpq).2
  leaf := fun a ha p _ => hleaf a ha p.1 p.2

theorem CollisionFree.symm {l m : List α} (h : CollisionFree hash l m) :
    CollisionFree hash m l where
  injective := fun p hp q hq => h.injective p (by simpa [or_comm] using hp) q
    (by simpa [or_comm] using hq)
  leaf := fun a ha p hp => h.leaf a (by simpa [or_comm] using ha) p (by simpa [or_comm] using hp)

theorem mem_pairs_of_levelUp {l : List α} {p : α × α} (hle : ¬l.length ≤ 1)
    (h : p ∈ pairs hash (levelUp hash l)) : p ∈ pairs hash l := by
  rw [pairs_of_lt hle]
  exact List.mem_append_right _ h

theorem mem_pairs_of_levelUps {l m : List α} {p : α × α} (hl : ¬l.length ≤ 1) (hm : ¬m.length ≤ 1)
    (h : p ∈ pairs hash (levelUp hash l) ++ pairs hash (levelUp hash m)) :
    p ∈ pairs hash l ++ pairs hash m := by
  rcases List.mem_append.1 h with h | h
  · exact List.mem_append_left _ (mem_pairs_of_levelUp hl h)
  · exact List.mem_append_right _ (mem_pairs_of_levelUp hm h)

theorem mem_pairs_of_levelPairs {l : List α} {p : α × α} (hle : ¬l.length ≤ 1)
    (h : p ∈ levelPairs l) : p ∈ pairs hash l := by
  rw [pairs_of_lt hle]
  exact List.mem_append_left _ h

/-- The first of a pair above the leaves is a hash. -/
theorem exists_hash_of_mem {l : List α} {p : α × α} (hle : ¬l.length ≤ 1)
    (h : p ∈ pairs hash (levelUp hash l)) : ∃ q ∈ pairs hash l, hash q.1 q.2 = p.1 := by
  induction hlen : l.length using Nat.strong_induction_on generalizing l with
  | _ n ih =>
    by_cases hup : (levelUp hash l).length ≤ 1
    · rw [pairs, if_pos hup] at h
      cases h
    · rw [pairs_of_lt hup] at h
      rcases List.mem_append.1 h with hhere | habove
      · obtain ⟨q, hq, hqp⟩ := List.mem_map.1 (fst_mem_of_mem_levelPairs hhere)
        exact ⟨q, mem_pairs_of_levelPairs hle hq, hqp⟩
      · obtain ⟨q, hq, hqp⟩ := ih _ (hlen ▸ length_levelUp_lt hash hle) hup habove rfl
        exact ⟨q, mem_pairs_of_levelUp hle hq, hqp⟩

/-- A root above the leaves is a hash. -/
theorem exists_hash_of_root {l : List α} {r : α} (hle : ¬l.length ≤ 1)
    (h : root hash l = some r) : ∃ q ∈ pairs hash l, hash q.1 q.2 = r := by
  induction hlen : l.length using Nat.strong_induction_on generalizing l with
  | _ n ih =>
    rw [root_of_lt hle] at h
    by_cases hup : (levelUp hash l).length ≤ 1
    · rw [root_of_le hup] at h
      obtain ⟨q, hq, hqr⟩ := List.mem_map.1 (List.mem_of_mem_head? h)
      exact ⟨q, mem_pairs_of_levelPairs hle hq, hqr⟩
    · obtain ⟨q, hq, hqr⟩ := ih _ (hlen ▸ length_levelUp_lt hash hle) hup h rfl
      exact ⟨q, mem_pairs_of_levelUp hle hq, hqr⟩

/-- A tree that is lower than another with the same root has its first leaf within the other. -/
theorem exists_hash_of_height_lt {l m : List α} (hl : l ≠ [])
    (hinj : ∀ p ∈ pairs hash l ++ pairs hash m, ∀ q ∈ pairs hash l ++ pairs hash m,
      hash p.1 p.2 = hash q.1 q.2 → p = q)
    (hheight : height hash l < height hash m) (hroot : root hash l = root hash m) :
    ∃ a ∈ l, ∃ q ∈ pairs hash m, hash q.1 q.2 = a := by
  induction hlen : l.length using Nat.strong_induction_on generalizing l m with
  | _ n ih =>
    have hm : ¬m.length ≤ 1 := by
      intro hle
      rw [height.eq_1 hash m, if_pos hle] at hheight
      omega
    by_cases hle : l.length ≤ 1
    · -- the leaf is the root
      obtain ⟨a, rfl⟩ : ∃ a, l = [a] := List.length_eq_one_iff.1 (by
        have := List.length_pos_of_ne_nil hl
        omega)
      rw [root_of_le hle] at hroot
      exact ⟨a, List.mem_cons_self, exists_hash_of_root hm hroot.symm⟩
    · rw [height.eq_1 hash l, height.eq_1 hash m, if_neg hle, if_neg hm] at hheight
      rw [root_of_lt hle, root_of_lt hm] at hroot
      obtain ⟨a, ha, q, hq, hqa⟩ := ih _ (hlen ▸ length_levelUp_lt hash hle)
        (levelUp_ne_nil hash hl)
        (fun p hp q hq => hinj p (mem_pairs_of_levelUps hle hm hp) q
          (mem_pairs_of_levelUps hle hm hq)) (by omega) hroot rfl
      obtain ⟨p, hp, hpa⟩ := List.mem_map.1 ha
      have hpl : p ∈ pairs hash l := mem_pairs_of_levelPairs hle hp
      obtain rfl := hinj p (List.mem_append_left _ hpl) q
        (List.mem_append_right _ (mem_pairs_of_levelUp hm hq)) (hpa.trans hqa.symm)
      exact ⟨p.1, fst_mem_of_mem_levelPairs hp, exists_hash_of_mem hm hq⟩

/-- Lists with one image under a function that tells their elements apart are the same. -/
theorem eq_of_map_eq {β γ : Type*} {f : β → γ} {ps qs : List β}
    (hinj : ∀ p ∈ ps, ∀ q ∈ qs, f p = f q → p = q) (h : ps.map f = qs.map f) : ps = qs := by
  induction ps generalizing qs with
  | nil => exact (List.map_eq_nil_iff.1 h.symm).symm
  | cons p ps ih =>
    cases qs with
    | nil => cases h
    | cons q qs =>
      obtain ⟨hpq, hrest⟩ := List.cons.inj h
      obtain rfl := hinj p List.mem_cons_self q List.mem_cons_self hpq
      rw [ih (fun p' hp' q' hq' => hinj p' (List.mem_cons_of_mem _ hp') q'
        (List.mem_cons_of_mem _ hq')) hrest]

/-- Trees of one height are both leaves or both not. -/
theorem length_le_one_iff_of_height {l m : List α} (h : height hash l = height hash m) :
    l.length ≤ 1 ↔ m.length ≤ 1 := by
  rw [height.eq_1 hash l, height.eq_1 hash m] at h
  split at h <;> split at h <;> omega

/-- Trees of one height. -/
theorem root_injective_of_height {l m : List α} (hl : l.Nodup) (hm : m.Nodup) (hl0 : l ≠ [])
    (hm0 : m ≠ [])
    (hinj : ∀ p ∈ pairs hash l ++ pairs hash m, ∀ q ∈ pairs hash l ++ pairs hash m,
      hash p.1 p.2 = hash q.1 q.2 → p = q)
    (hheight : height hash l = height hash m) (hroot : root hash l = root hash m) : l = m := by
  induction hlen : l.length using Nat.strong_induction_on generalizing l m with
  | _ n ih =>
    have hiff := length_le_one_iff_of_height hheight
    by_cases hle : l.length ≤ 1
    · have hmle := hiff.1 hle
      rw [root_of_le hle, root_of_le hmle] at hroot
      obtain ⟨a, rfl⟩ : ∃ a, l = [a] := List.length_eq_one_iff.1 (by
        have := List.length_pos_of_ne_nil hl0
        omega)
      obtain ⟨b, rfl⟩ : ∃ b, m = [b] := List.length_eq_one_iff.1 (by
        have := List.length_pos_of_ne_nil hm0
        omega)
      cases hroot
      rfl
    · have hmle := mt hiff.2 hle
      have hhere : ∀ p ∈ levelPairs l ++ levelPairs m, p ∈ pairs hash l ++ pairs hash m := by
        intro p hp
        rcases List.mem_append.1 hp with hp | hp
        · exact List.mem_append_left _ (mem_pairs_of_levelPairs hle hp)
        · exact List.mem_append_right _ (mem_pairs_of_levelPairs hmle hp)
      have hup : ∀ k : List α, k.Nodup → (∀ p ∈ levelPairs k, p ∈ levelPairs l ++ levelPairs m) →
          (levelUp hash k).Nodup := by
        intro k hk hsub
        refine (nodup_levelPairs hk).map_on fun p hp q hq hpq => ?_
        exact hinj p (hhere p (hsub p hp)) q (hhere q (hsub q hq)) hpq
      rw [height.eq_1 hash l, height.eq_1 hash m, if_neg hle, if_neg hmle] at hheight
      rw [root_of_lt hle, root_of_lt hmle] at hroot
      have hlevel : levelUp hash l = levelUp hash m :=
        ih _ (hlen ▸ length_levelUp_lt hash hle)
          (hup l hl fun p hp => List.mem_append_left _ hp)
          (hup m hm fun p hp => List.mem_append_right _ hp) (levelUp_ne_nil hash hl0)
          (levelUp_ne_nil hash hm0)
          (fun p hp q hq => hinj p (mem_pairs_of_levelUps hle hmle hp) q
            (mem_pairs_of_levelUps hle hmle hq)) (by omega) hroot rfl
      -- on the pairs of the two levels the hash is injective
      refine levelPairs_injective hl hm (eq_of_map_eq (fun p hp q hq => ?_) hlevel)
      exact hinj p (hhere p (List.mem_append_left _ hp)) q (hhere q (List.mem_append_right _ hq))

/-- **Lists without repetitions have different roots**, unless hashes collide. -/
theorem root_injective {l m : List α} (hl : l.Nodup) (hm : m.Nodup) (hl0 : l ≠ []) (hm0 : m ≠ [])
    (h : CollisionFree hash l m) (hroot : root hash l = root hash m) : l = m := by
  rcases Nat.lt_trichotomy (height hash l) (height hash m) with hlt | heq | hgt
  · obtain ⟨a, ha, q, hq, hqa⟩ := exists_hash_of_height_lt hl0 h.injective hlt hroot
    exact absurd hqa (h.leaf a (List.mem_append_left _ ha) q (List.mem_append_right _ hq))
  · exact root_injective_of_height hl hm hl0 hm0 h.injective heq hroot
  · obtain ⟨a, ha, q, hq, hqa⟩ := exists_hash_of_height_lt hm0 h.symm.injective hgt hroot.symm
    exact absurd hqa (h.leaf a (List.mem_append_right _ ha) q (List.mem_append_left _ hq))

end Tree

end Merkle
