import TriTip.Lib.RefCount

/-!
# Locked pages

`LockedPageManagerBase` of `allocators.h` keeps the pages that hold keys out of swap. Memory locks
of the operating system do not stack, so a histogram counts for each page the ranges on it that are
locked; the page is locked for the first of them and unlocked after the last
(`LockRange_UnlockRange`). Addresses and sizes are of 64 bits, the counts are `int`.
-/

namespace TriTip

open Std

/-- What the `Locker` is told. -/
inductive LockerCall where
  | Lock (addr len : UInt64)
  | Unlock (addr len : UInt64)
  deriving DecidableEq

structure LockedPageManager where
  /-- the calls so far -/
  locker : List LockerCall
  page_size : UInt64
  page_mask : UInt64
  /-- map of page base address to lock count -/
  histogram : ExtTreeMap UInt64 Int32

/-- A range of addresses. -/
structure MemoryRange where
  p : UInt64
  size : UInt64
  deriving DecidableEq

namespace LockedPageManager

/-- The constructor; its assert is that the size is a power of two. -/
def new (page_size : UInt64) : LockedPageManager where
  locker := []
  page_size
  page_mask := ~~~(page_size - 1)
  histogram := ∅

def start_page (m : LockedPageManager) (r : MemoryRange) : UInt64 := r.p &&& m.page_mask

def end_page (m : LockedPageManager) (r : MemoryRange) : UInt64 :=
  (r.p + r.size - 1) &&& m.page_mask

/-- The pages that the loop of both functions comes to. A loop that never ends has no result. -/
def pages (page_size end_page : UInt64) : (turns : Nat) → (page : UInt64) → Option (List UInt64)
  | 0, _ => none
  | turns + 1, page =>
    if page ≤ end_page then (pages page_size end_page turns (page + page_size)).map (page :: ·)
    else some []

/-- More turns than there are addresses. -/
def turns : Nat := 2 ^ 64 + 1

def lockPage (m : LockedPageManager) (page : UInt64) : LockedPageManager :=
  match m.histogram[page]? with
  | none => -- Newly locked page
    { m with
      locker := m.locker ++ [.Lock page m.page_size]
      histogram := m.histogram.insert page 1 }
  | some count => -- Page was already locked; increase counter
    { m with histogram := m.histogram.insert page (count + 1) }

/-- For all pages in affected range, increase lock count. -/
def LockRange (m : LockedPageManager) (r : MemoryRange) : Option LockedPageManager := do
  if r.size = 0 then return m
  let pages ← pages m.page_size (m.end_page r) turns (m.start_page r)
  return pages.foldl lockPage m

/-- `none` if the assert fails. -/
def unlockPage (m : LockedPageManager) (page : UInt64) : Option LockedPageManager :=
  match m.histogram[page]? with
  | none => none -- Cannot unlock an area that was not locked
  | some count =>
    let count := count - 1
    if count = 0 then -- Nothing on the page anymore that keeps it locked
      some { m with
        locker := m.locker ++ [.Unlock page m.page_size]
        histogram := m.histogram.erase page }
    else some { m with histogram := m.histogram.insert page count }

/-- For all pages in affected range, decrease lock count. -/
def UnlockRange (m : LockedPageManager) (r : MemoryRange) : Option LockedPageManager := do
  if r.size = 0 then return m
  let pages ← pages m.page_size (m.end_page r) turns (m.start_page r)
  pages.foldlM unlockPage m

end LockedPageManager

/-- A call to the manager. -/
inductive LockOp where
  | LockRange (r : MemoryRange)
  | UnlockRange (r : MemoryRange)

def LockedPageManager.step (m : LockedPageManager) : LockOp → Option LockedPageManager
  | .LockRange r => m.LockRange r
  | .UnlockRange r => m.UnlockRange r

/-! ## The pages of a range -/

/-- A range is on a page if one of its bytes is. -/
def MemoryRange.Touches (page_size : UInt64) (r : MemoryRange) (page : UInt64) : Prop :=
  page.toNat % page_size.toNat = 0 ∧ ∃ addr, r.p.toNat ≤ addr ∧ addr < r.p.toNat + r.size.toNat ∧
    page.toNat ≤ addr ∧ addr < page.toNat + page_size.toNat

theorem MemoryRange.touches_iff {page_size : UInt64} {r : MemoryRange} {page : UInt64} :
    r.Touches page_size page ↔ page.toNat % page_size.toNat = 0 ∧ 0 < r.size.toNat ∧
      r.p.toNat < page.toNat + page_size.toNat ∧ page.toNat < r.p.toNat + r.size.toNat ∧
      0 < page_size.toNat := by
  refine and_congr_right fun _ => ⟨?_, fun h => ⟨max r.p.toNat page.toNat, ?_⟩⟩
  · rintro ⟨addr, h₁, h₂, h₃, h₄⟩
    omega
  · omega

instance (page_size : UInt64) (r : MemoryRange) (page : UInt64) :
    Decidable (r.Touches page_size page) := decidable_of_iff _ MemoryRange.touches_iff.symm

/-- The range ends below the last page of the address space. -/
def MemoryRange.Fits (page_size : UInt64) (r : MemoryRange) : Prop :=
  r.p.toNat + r.size.toNat + page_size.toNat ≤ 2 ^ 64

namespace LockedPageManager

/-- Clearing the low bits rounds down. -/
theorem toNat_and_not {k : Nat} (hk : k < 64) (a : UInt64) {page_size : UInt64}
    (hsize : page_size.toNat = 2 ^ k) :
    (a &&& ~~~(page_size - 1)).toNat = a.toNat / 2 ^ k * 2 ^ k := by
  have hpos : 0 < 2 ^ k := Nat.two_pow_pos k
  have hlow : (page_size - 1).toNat = 2 ^ k - 1 := by
    rw [UInt64.toNat_sub_of_le, hsize]
    · rfl
    · rw [UInt64.le_iff_toNat_le, hsize]
      exact hpos
  have hmask : (~~~(page_size - 1)).toNat = 2 ^ 64 - (2 ^ k - 1 + 1) := by
    rw [UInt64.toNat_not, hlow, UInt64.size]
    omega
  have hlt : 2 ^ k - 1 < 2 ^ 64 := by
    have := Nat.pow_lt_pow_right (a := 2) (by decide) hk
    omega
  rw [UInt64.toNat_and, hmask]
  refine Nat.eq_of_testBit_eq fun i => ?_
  rw [Nat.testBit_and, Nat.testBit_two_pow_sub_succ hlt, Nat.testBit_two_pow_sub_one,
    Nat.testBit_mul_two_pow, Nat.testBit_div_two_pow]
  by_cases hik : k ≤ i
  · rw [Nat.sub_add_cancel hik]
    by_cases hi : i < 64
    · simp [hik, hi]
    · have htop : a.toNat.testBit i = false :=
        Nat.testBit_lt_two_pow (a.toNat_lt.trans_le (Nat.pow_le_pow_right (by decide) (by omega)))
      simp [htop]
  · have hlow : i < k := Nat.not_le.1 hik
    simp [hik, hlow]

/-- The loop comes to every page from the first to the last, and once to each. -/
theorem pages_spec {page_size : UInt64} (end_page : UInt64) (hpos : 0 < page_size.toNat)
    (hend : end_page.toNat + page_size.toNat < 2 ^ 64) (turns : Nat) (page : UInt64)
    (haligned : page.toNat % page_size.toNat = 0)
    (hturns : end_page.toNat + 1 - page.toNat < turns) :
    ∃ l, pages page_size end_page turns page = some l ∧ l.Nodup ∧
      ∀ a, a ∈ l ↔ a.toNat % page_size.toNat = 0 ∧ page ≤ a ∧ a ≤ end_page := by
  induction turns generalizing page with
  | zero => omega
  | succ turns ih =>
    unfold pages
    by_cases hle : page ≤ end_page
    · rw [if_pos hle]
      have hle' : page.toNat ≤ end_page.toNat := UInt64.le_iff_toNat_le.1 hle
      have hnext : (page + page_size).toNat = page.toNat + page_size.toNat := by
        rw [UInt64.toNat_add, Nat.mod_eq_of_lt (by omega)]
      obtain ⟨l, hl, hnodup, hmem⟩ := ih (page + page_size)
        (by rw [hnext, Nat.add_mod_right, haligned]) (by omega)
      refine ⟨page :: l, by rw [hl]; rfl, List.nodup_cons.2 ⟨fun hin => ?_, hnodup⟩, fun a => ?_⟩
      · have hge := UInt64.le_iff_toNat_le.1 ((hmem page).1 hin).2.1
        omega
      · rw [List.mem_cons, hmem]
        constructor
        · rintro (rfl | ⟨ha, hge, hle⟩)
          · exact ⟨haligned, UInt64.le_refl _, hle⟩
          · refine ⟨ha, ?_, hle⟩
            rw [UInt64.le_iff_toNat_le] at hge ⊢
            omega
        · rintro ⟨ha, hge, hle⟩
          by_cases heq : a = page
          · exact .inl heq
          · -- two multiples of the page size are at least a page apart
            have hlt : page.toNat < a.toNat := by
              have hne : a.toNat ≠ page.toNat := fun h => heq (UInt64.toNat_inj.1 h)
              have := UInt64.le_iff_toNat_le.1 hge
              omega
            have hdvd : page_size.toNat ∣ a.toNat - page.toNat :=
              Nat.dvd_sub (Nat.dvd_of_mod_eq_zero ha) (Nat.dvd_of_mod_eq_zero haligned)
            have hapart := Nat.le_of_dvd (by omega) hdvd
            refine .inr ⟨ha, ?_, hle⟩
            rw [UInt64.le_iff_toNat_le]
            omega
    · rw [if_neg hle]
      refine ⟨[], rfl, List.nodup_nil, fun a => ⟨nofun, ?_⟩⟩
      rintro ⟨-, hge, hle'⟩
      exact absurd (UInt64.le_trans hge hle') hle

/-- The manager for pages of a size that is a power of two. -/
structure Sized (page_size : UInt64) (m : LockedPageManager) : Prop where
  size : m.page_size = page_size
  mask : m.page_mask = ~~~(page_size - 1)

/-- The pages that the loops come to are those that the range is on. -/
theorem pages_of_range {k : Nat} (hk : k < 64) {page_size : UInt64}
    (hsize : page_size.toNat = 2 ^ k) {m : LockedPageManager} (hm : m.Sized page_size)
    {r : MemoryRange} (hr : r.size ≠ 0) (hfits : r.Fits page_size) :
    ∃ l, pages m.page_size (m.end_page r) turns (m.start_page r) = some l ∧ l.Nodup ∧
      ∀ page, page ∈ l ↔ r.Touches page_size page := by
  have hpos : 0 < page_size.toNat := by
    rw [hsize]
    exact Nat.two_pow_pos k
  have hrpos : 0 < r.size.toNat := Nat.pos_of_ne_zero fun h => hr (UInt64.toNat_inj.1 h)
  unfold MemoryRange.Fits at hfits
  have hlast : (r.p + r.size - 1).toNat = r.p.toNat + r.size.toNat - 1 := by
    have hadd : (r.p + r.size).toNat = r.p.toNat + r.size.toNat := by
      rw [UInt64.toNat_add, Nat.mod_eq_of_lt (by omega)]
    rw [UInt64.toNat_sub_of_le, hadd]
    · rfl
    · rw [UInt64.le_iff_toNat_le, hadd]
      exact Nat.le_add_left_of_le hrpos
  have hstart : (m.start_page r).toNat = r.p.toNat / page_size.toNat * page_size.toNat := by
    unfold start_page
    rw [hm.mask, toNat_and_not hk _ hsize, hsize]
  have hend : (m.end_page r).toNat =
      (r.p.toNat + r.size.toNat - 1) / page_size.toNat * page_size.toNat := by
    unfold end_page
    rw [hm.mask, toNat_and_not hk _ hsize, hlast, hsize]
  have hstart_le := Nat.div_mul_le_self r.p.toNat page_size.toNat
  have hend_le := Nat.div_mul_le_self (r.p.toNat + r.size.toNat - 1) page_size.toNat
  obtain ⟨l, hl, hnodup, hmem⟩ := pages_spec (m.end_page r) hpos (by omega) turns
    (m.start_page r) (by rw [hstart, Nat.mul_mod_left])
    (by have := (m.end_page r).toNat_lt; unfold turns; omega)
  rw [hm.size]
  refine ⟨l, hl, hnodup, fun page => ?_⟩
  rw [hmem, MemoryRange.touches_iff]
  refine and_congr_right fun haligned => ?_
  have hpage : page.toNat = page.toNat / page_size.toNat * page_size.toNat :=
    (Nat.div_mul_cancel (Nat.dvd_of_mod_eq_zero haligned)).symm
  rw [UInt64.le_iff_toNat_le, UInt64.le_iff_toNat_le, hstart, hend]
  constructor
  · rintro ⟨hge, hle⟩
    have hmod := Nat.div_add_mod' r.p.toNat page_size.toNat
    have hlt := Nat.mod_lt r.p.toNat hpos
    exact ⟨hrpos, by omega, by omega, hpos⟩
  · rintro ⟨-, hbelow, habove, -⟩
    constructor
    · rw [hpage]
      refine Nat.mul_le_mul_right _ (Nat.lt_succ_iff.1 ?_)
      rw [Nat.div_lt_iff_lt_mul hpos, Nat.succ_mul, ← hpage]
      exact hbelow
    · rw [hpage]
      exact Nat.mul_le_mul_right _ (Nat.div_le_div_right (by omega))

/-! ## What the loops do -/

variable {m : LockedPageManager} {uses : UInt64 → Nat}

theorem lockPage_eq (page : UInt64) :
    m.lockPage page =
      { m with
        locker := m.locker ++
          if (RefCount.acquire m.histogram page).2 then [.Lock page m.page_size] else []
        histogram := (RefCount.acquire m.histogram page).1 } := by
  unfold lockPage RefCount.acquire
  cases m.histogram[page]? <;> simp

/-- The pages that are still to come have the uses that they had. -/
theorem update_of_mem {page : UInt64} {l : List UInt64} (hnew : page ∉ l) (n : Nat) {a : UInt64}
    (ha : a ∈ l) : Function.update uses page n a = uses a := by
  refine Function.update_of_ne ?_ ..
  rintro rfl
  exact hnew ha

theorem filter_update {page : UInt64} {l : List UInt64} (hnew : page ∉ l) (n : Nat)
    (p : Nat → Prop) [DecidablePred p] :
    (l.filter fun a => p (Function.update uses page n a)) = l.filter fun a => p (uses a) := by
  refine List.filter_congr fun a ha => ?_
  rw [update_of_mem hnew n ha]

/-- The uses of a page are changed first, then those of the others. -/
theorem change_cons (change : Nat → Nat → Nat) (hzero : ∀ n, change n 0 = n) {page : UInt64}
    {l : List UInt64} (hnew : page ∉ l) :
    (fun a => change (uses a) (if a ∈ page :: l then 1 else 0)) = fun a =>
      change (Function.update uses page (change (uses page) 1) a) (if a ∈ l then 1 else 0) := by
  funext a
  by_cases ha : a = page
  · subst ha
    rw [Function.update_self, if_pos List.mem_cons_self, if_neg hnew, hzero]
  · simp [ha]

/-- Every page has one use more, and those that had none are locked. -/
theorem foldl_lockPage (h : RefCount.Counted m.histogram uses) {l : List UInt64}
    (hnodup : l.Nodup) :
    ∃ histogram, l.foldl lockPage m =
        { m with
          locker := m.locker ++ (l.filter fun page => uses page = 0).map (.Lock · m.page_size)
          histogram } ∧
      RefCount.Counted histogram fun page => uses page + if page ∈ l then 1 else 0 := by
  induction l generalizing m uses with
  | nil => exact ⟨m.histogram, by simp, by simpa using h⟩
  | cons page l ih =>
    obtain ⟨hnew, hnodup⟩ := List.nodup_cons.1 hnodup
    obtain ⟨hcounted, hfirst⟩ := h.acquire page
    obtain ⟨histogram, hfold, hcounted⟩ := ih (m := m.lockPage page)
      (by rw [lockPage_eq]; exact hcounted) hnodup
    refine ⟨histogram, ?_, ?_⟩
    · have hfilter : (l.filter fun a => Function.update uses page (uses page + 1) a = 0) =
          l.filter fun a => uses a = 0 := filter_update hnew _ (· = 0)
      rw [List.foldl_cons, hfold, hfilter, lockPage_eq, List.filter_cons]
      by_cases hzero : uses page = 0
      · simp [hfirst.2 hzero, hzero]
      · simp [Bool.eq_false_iff.2 fun h => hzero (hfirst.1 h), hzero]
    · rw [change_cons (· + ·) Nat.add_zero hnew]
      exact hcounted

theorem unlockPage_eq (page : UInt64) :
    m.unlockPage page = (RefCount.release m.histogram page).map fun released =>
      { m with
        locker := m.locker ++ if released.2 then [.Unlock page m.page_size] else []
        histogram := released.1 } := by
  unfold unlockPage RefCount.release
  cases m.histogram[page]? with
  | none => rfl
  | some count =>
    dsimp only
    split <;> simp

/-- Every page has one use less, and those that had only one are unlocked. -/
theorem foldlM_unlockPage (h : RefCount.Counted m.histogram uses) {l : List UInt64}
    (hnodup : l.Nodup) (hpos : ∀ page ∈ l, uses page ≠ 0)
    (hfew : ∀ page ∈ l, uses page ≤ 2 ^ 32) :
    ∃ histogram, l.foldlM unlockPage m = some
        { m with
          locker := m.locker ++ (l.filter fun page => uses page = 1).map (.Unlock · m.page_size)
          histogram } ∧
      RefCount.Counted histogram fun page => uses page - if page ∈ l then 1 else 0 := by
  induction l generalizing m uses with
  | nil => exact ⟨m.histogram, by simp, by simpa using h⟩
  | cons page l ih =>
    obtain ⟨hnew, hnodup⟩ := List.nodup_cons.1 hnodup
    obtain ⟨table, last, hrelease, hcounted, hlast⟩ :=
      h.release (hpos page List.mem_cons_self) (hfew page List.mem_cons_self)
    have hstay : ∀ a ∈ l, Function.update uses page (uses page - 1) a = uses a :=
      fun a ha => update_of_mem hnew _ ha
    obtain ⟨histogram, hfold, hcounted⟩ := ih (m := { m with
        locker := m.locker ++ if last then [.Unlock page m.page_size] else []
        histogram := table }) hcounted hnodup
      (fun a ha => by rw [hstay a ha]; exact hpos a (List.mem_cons_of_mem _ ha))
      (fun a ha => by rw [hstay a ha]; exact hfew a (List.mem_cons_of_mem _ ha))
    refine ⟨histogram, ?_, ?_⟩
    · have hfilter : (l.filter fun a => Function.update uses page (uses page - 1) a = 1) =
          l.filter fun a => uses a = 1 := filter_update hnew _ (· = 1)
      rw [List.foldlM_cons, unlockPage_eq, hrelease]
      dsimp only [Option.map_some, Option.bind_eq_bind, Option.bind_some]
      rw [hfold, hfilter, List.filter_cons]
      by_cases hone : uses page = 1
      · simp [hlast.2 hone, hone]
      · simp [Bool.eq_false_iff.2 fun h => hone (hlast.1 h), hone]
    · rw [change_cons (· - ·) Nat.sub_zero hnew]
      exact hcounted

end LockedPageManager

/-! ## Runs -/

/-- The ranges that are locked after a call. -/
def LockOp.held (held : List MemoryRange) : LockOp → List MemoryRange
  | .LockRange r => r :: held
  | .UnlockRange r => held.erase r

/-- The ranges that are locked after some calls. -/
def outstanding (ops : List LockOp) : List MemoryRange := ops.foldl LockOp.held []

theorem outstanding_concat (ops : List LockOp) (op : LockOp) :
    outstanding (ops ++ [op]) = op.held (outstanding ops) := by
  unfold outstanding
  rw [List.foldl_append]
  rfl

/-- Every range that is unlocked has been locked and not unlocked since. -/
def Paired (ops : List LockOp) : Prop :=
  ∀ before r, before ++ [.UnlockRange r] <+: ops → r ∈ outstanding before

/-- How many of the ranges are on a page. -/
def touching (page_size : UInt64) (held : List MemoryRange) (page : UInt64) : Nat :=
  held.countP fun r => r.Touches page_size page

/-- The calls tell of each page whose first use begins or last use ends, and of no other. -/
structure Told (page_size : UInt64) (before after : UInt64 → Nat) (calls : List LockerCall) :
    Prop where
  nodup : calls.Nodup
  lock : ∀ page len, .Lock page len ∈ calls ↔
    len = page_size ∧ before page = 0 ∧ after page = 1
  unlock : ∀ page len, .Unlock page len ∈ calls ↔
    len = page_size ∧ before page = 1 ∧ after page = 0

theorem touching_cons (page_size : UInt64) (r : MemoryRange) (held : List MemoryRange)
    (page : UInt64) :
    touching page_size (r :: held) page =
      touching page_size held page + if r.Touches page_size page then 1 else 0 := by
  unfold touching
  rw [List.countP_cons]
  simp only [decide_eq_true_eq]

theorem touching_erase {page_size : UInt64} {r : MemoryRange} {held : List MemoryRange}
    (hr : r ∈ held) (page : UInt64) :
    touching page_size (held.erase r) page =
      touching page_size held page - if r.Touches page_size page then 1 else 0 := by
  unfold touching
  rw [List.countP_erase]
  simp only [hr, true_and, decide_eq_true_eq]

theorem touching_pos {page_size : UInt64} {r : MemoryRange} {held : List MemoryRange}
    (hr : r ∈ held) {page : UInt64} (h : r.Touches page_size page) :
    touching page_size held page ≠ 0 :=
  Nat.pos_iff_ne_zero.1 (List.countP_pos_iff.2 ⟨r, hr, by simpa using h⟩)

theorem not_touches_of_size {page_size : UInt64} {r : MemoryRange} (h : r.size = 0)
    (page : UInt64) : ¬r.Touches page_size page := by
  rw [MemoryRange.touches_iff, h]
  rintro ⟨-, hlt, -⟩
  exact Nat.lt_irrefl 0 hlt

namespace LockedPageManager

/-- The manager counts the ranges that are held. -/
structure Tracks (page_size : UInt64) (m : LockedPageManager) (held : List MemoryRange) :
    Prop extends m.Sized page_size where
  counted : RefCount.Counted m.histogram (touching page_size held)
  fits : ∀ r ∈ held, r.Fits page_size

theorem tracks_new (page_size : UInt64) : (new page_size).Tracks page_size [] where
  size := rfl
  mask := rfl
  counted := RefCount.counted_empty
  fits := nofun

section

variable {k : Nat} {page_size : UInt64} {m : LockedPageManager} {held : List MemoryRange}
  {r : MemoryRange}

/-- Both functions go through the pages that the range is on, each once. -/
theorem exists_pages (hk : k < 64) (hsize : page_size.toNat = 2 ^ k) (hm : m.Sized page_size)
    (hfits : r.Fits page_size) :
    ∃ l : List UInt64, l.Nodup ∧ (∀ page, page ∈ l ↔ r.Touches page_size page) ∧
      m.LockRange r = some (l.foldl lockPage m) ∧ m.UnlockRange r = l.foldlM unlockPage m := by
  unfold LockedPageManager.LockRange LockedPageManager.UnlockRange
  by_cases hzero : r.size = 0
  · rw [if_pos hzero, if_pos hzero]
    exact ⟨[], List.nodup_nil, fun page => ⟨nofun, fun h =>
      absurd h (not_touches_of_size hzero page)⟩, rfl, rfl⟩
  · rw [if_neg hzero, if_neg hzero]
    obtain ⟨l, hl, hnodup, hmem⟩ := pages_of_range hk hsize hm hzero hfits
    refine ⟨l, hnodup, hmem, ?_, ?_⟩ <;> rw [hl] <;> rfl

theorem told_lock (uses : UInt64 → Nat) {l : List UInt64} (hnodup : l.Nodup) :
    Told page_size uses (fun page => uses page + if page ∈ l then 1 else 0)
      ((l.filter fun page => uses page = 0).map (.Lock · page_size)) where
  nodup := (hnodup.filter _).map fun a b h => by injection h
  lock := by
    intro page len
    simp only [List.mem_map, List.mem_filter, decide_eq_true_eq, LockerCall.Lock.injEq]
    constructor
    · rintro ⟨a, ⟨hmem, hzero⟩, rfl, rfl⟩
      rw [if_pos hmem, hzero]
      exact ⟨rfl, rfl, rfl⟩
    · rintro ⟨rfl, hzero, hone⟩
      refine ⟨page, ⟨?_, hzero⟩, rfl, rfl⟩
      by_contra hmem
      rw [if_neg hmem, hzero] at hone
      cases hone
  unlock := by
    intro page len
    simp only [List.mem_map, List.mem_filter, reduceCtorEq, and_false, exists_const, false_iff]
    rintro ⟨-, hone, hzero⟩
    omega

theorem told_unlock (uses : UInt64 → Nat) {l : List UInt64} (hnodup : l.Nodup) :
    Told page_size uses (fun page => uses page - if page ∈ l then 1 else 0)
      ((l.filter fun page => uses page = 1).map (.Unlock · page_size)) where
  nodup := (hnodup.filter _).map fun a b h => by injection h
  lock := by
    intro page len
    simp only [List.mem_map, List.mem_filter, reduceCtorEq, and_false, exists_const, false_iff]
    rintro ⟨-, hzero, hone⟩
    omega
  unlock := by
    intro page len
    simp only [List.mem_map, List.mem_filter, decide_eq_true_eq, LockerCall.Unlock.injEq]
    constructor
    · rintro ⟨a, ⟨hmem, hone⟩, rfl, rfl⟩
      rw [if_pos hmem, hone]
      exact ⟨rfl, rfl, rfl⟩
    · rintro ⟨rfl, hone, hzero⟩
      refine ⟨page, ⟨?_, hone⟩, rfl, rfl⟩
      by_contra hmem
      rw [if_neg hmem, hone] at hzero
      cases hzero

theorem Tracks.LockRange (hk : k < 64) (hsize : page_size.toNat = 2 ^ k)
    (h : m.Tracks page_size held) (hfits : r.Fits page_size) :
    ∃ m' calls, m.LockRange r = some m' ∧ m'.Tracks page_size (r :: held) ∧
      m'.locker = m.locker ++ calls ∧
      Told page_size (touching page_size held) (touching page_size (r :: held)) calls := by
  obtain ⟨l, hnodup, hmem, hlock, -⟩ := exists_pages hk hsize h.toSized hfits
  obtain ⟨histogram, hfold, hcounted⟩ := foldl_lockPage h.counted hnodup
  have huses : touching page_size (r :: held) =
      fun page => touching page_size held page + if page ∈ l then 1 else 0 := by
    funext page
    rw [touching_cons]
    simp only [hmem]
  rw [hlock, hfold, huses, h.size]
  refine ⟨_, _, rfl, ⟨⟨rfl, h.mask⟩, ?_, List.forall_mem_cons.2 ⟨hfits, h.fits⟩⟩, rfl,
    told_lock _ hnodup⟩
  rw [huses]
  exact hcounted

theorem Tracks.UnlockRange (hk : k < 64) (hsize : page_size.toNat = 2 ^ k)
    (h : m.Tracks page_size held) (hr : r ∈ held) (hfew : held.length ≤ 2 ^ 32) :
    ∃ m' calls, m.UnlockRange r = some m' ∧ m'.Tracks page_size (held.erase r) ∧
      m'.locker = m.locker ++ calls ∧
      Told page_size (touching page_size held) (touching page_size (held.erase r)) calls := by
  obtain ⟨l, hnodup, hmem, -, hunlock⟩ := exists_pages hk hsize h.toSized (h.fits r hr)
  obtain ⟨histogram, hfold, hcounted⟩ := foldlM_unlockPage h.counted hnodup
    (fun page hpage => touching_pos hr ((hmem page).1 hpage))
    (fun page _ => List.countP_le_length.trans hfew)
  have huses : touching page_size (held.erase r) =
      fun page => touching page_size held page - if page ∈ l then 1 else 0 := by
    funext page
    rw [touching_erase hr]
    simp only [hmem]
  rw [hunlock, hfold, huses, h.size]
  refine ⟨_, _, rfl, ⟨⟨rfl, h.mask⟩, ?_, fun r' hr' => h.fits r' (List.mem_of_mem_erase hr')⟩,
    rfl, told_unlock _ hnodup⟩
  rw [huses]
  exact hcounted

end

/-- The calls so far, one after another. -/
def run (page_size : UInt64) (ops : List LockOp) : Option LockedPageManager :=
  ops.foldlM step (new page_size)

end LockedPageManager

/-- One call of a run, from a state that counts the ranges held. -/
theorem LockedPageManager.Tracks.step {k : Nat} (hk : k < 64) {page_size : UInt64}
    (hsize : page_size.toNat = 2 ^ k) {m : LockedPageManager} {before : List LockOp} (op : LockOp)
    (h : m.Tracks page_size (outstanding before))
    (hfits : ∀ r, op = .LockRange r → r.Fits page_size)
    (hpaired : ∀ r, op = .UnlockRange r → r ∈ outstanding before ∧
      (outstanding before).length ≤ 2 ^ 32) :
    ∃ m' calls, m.step op = some m' ∧ m'.Tracks page_size (outstanding (before ++ [op])) ∧
      m'.locker = m.locker ++ calls ∧
      Told page_size (touching page_size (outstanding before))
        (touching page_size (outstanding (before ++ [op]))) calls := by
  rw [outstanding_concat]
  cases op with
  | LockRange r => exact h.LockRange hk hsize (hfits r rfl)
  | UnlockRange r => exact h.UnlockRange hk hsize (hpaired r rfl).1 (hpaired r rfl).2

/-- **The histogram counts the ranges on each page.** After every call of a run in which each range
that is unlocked has been locked, it has the pages of the ranges that are locked, with the number of
ranges on each; the asserts hold, and the operating system is told of a page when its first range is
locked and when its last one is unlocked, and at no other time. The counters are `int`, so that
fewer than `2 ^ 31` ranges may be locked at a time. -/
theorem LockRange_UnlockRange (k : Nat) (hk : k < 64) (page_size : UInt64)
    (hsize : page_size.toNat = 2 ^ k) (ops : List LockOp) (hpaired : Paired ops)
    (hfits : ∀ r, .LockRange r ∈ ops → r.Fits page_size)
    (hfew : ∀ before, before <+: ops → (outstanding before).length < 2 ^ 31) :
    ∀ before, before <+: ops → ∃ m, LockedPageManager.run page_size before = some m ∧
      (∀ page, (m.histogram[page]?).map Int32.toInt =
        if touching page_size (outstanding before) page = 0 then none
        else some (touching page_size (outstanding before) page : Int)) ∧
      ∀ op, before ++ [op] <+: ops → ∃ m' calls, m.step op = some m' ∧
        m'.locker = m.locker ++ calls ∧
        Told page_size (touching page_size (outstanding before))
          (touching page_size (outstanding (before ++ [op]))) calls := by
  have hstep : ∀ before op m, before ++ [op] <+: ops →
      LockedPageManager.Tracks page_size m (outstanding before) →
      ∃ m' calls, m.step op = some m' ∧ m'.Tracks page_size (outstanding (before ++ [op])) ∧
        m'.locker = m.locker ++ calls ∧
        Told page_size (touching page_size (outstanding before))
          (touching page_size (outstanding (before ++ [op]))) calls := by
    intro before op m hprefix h
    refine h.step hk hsize op (fun r hop => hfits r ?_) (fun r hop => ⟨?_, ?_⟩)
    · exact hprefix.subset (by simp [hop])
    · exact hpaired before r (hop ▸ hprefix)
    · have := hfew before ((List.prefix_append _ _).trans hprefix)
      omega
  intro before hprefix
  suffices hrun : ∃ m, LockedPageManager.run page_size before = some m ∧
      m.Tracks page_size (outstanding before) by
    obtain ⟨m, hm, h⟩ := hrun
    refine ⟨m, hm, fun page => ?_, fun op hop => ?_⟩
    · rw [h.counted page]
      split
      · rfl
      · have hlt : touching page_size (outstanding before) page < 2 ^ 31 :=
          List.countP_le_length.trans_lt (hfew before hprefix)
        rw [Option.map_some, Int32.toInt_ofNat_of_lt hlt]
    · obtain ⟨m', calls, hm', -, hcalls, htold⟩ := hstep before op m hop h
      exact ⟨m', calls, hm', hcalls, htold⟩
  induction before using List.reverseRecOn with
  | nil => exact ⟨_, rfl, LockedPageManager.tracks_new page_size⟩
  | append_singleton before op ih =>
    obtain ⟨m, hm, h⟩ := ih ((List.prefix_append _ _).trans hprefix)
    obtain ⟨m', calls, hm', h', -⟩ := hstep before op m hprefix h
    refine ⟨m', ?_, h'⟩
    unfold LockedPageManager.run at hm ⊢
    rw [List.foldlM_append, hm]
    simpa using hm'

/-- Two ranges over one page boundary. -/
def twoRanges : List LockOp :=
  [.LockRange ⟨4000, 200⟩, .LockRange ⟨4095, 1⟩, .UnlockRange ⟨4000, 200⟩,
    .UnlockRange ⟨4095, 1⟩]

theorem LockRange_UnlockRange_twoRanges :
    ∃ m, LockedPageManager.run 4096 twoRanges = some m ∧
      ∀ page : UInt64, (m.histogram[page]?).map Int32.toInt = none := by
  have hpaired : ∀ l ∈ twoRanges.inits, ∀ r, l.getLast? = some (.UnlockRange r) →
      r ∈ outstanding l.dropLast := by
    simp [twoRanges, outstanding, LockOp.held]
  have hfew : ∀ l ∈ twoRanges.inits, (outstanding l).length < 2 ^ 31 := by
    simp [twoRanges, outstanding, LockOp.held]
  have hfits : ∀ r, .LockRange r ∈ twoRanges → r.Fits 4096 := by
    simp [twoRanges, MemoryRange.Fits]
  obtain ⟨m, hm, hcount, -⟩ := LockRange_UnlockRange 12 (by decide) 4096 rfl twoRanges
    (fun before r h => by simpa using hpaired _ ((List.mem_inits _ _).2 h) r (by simp)) hfits
    (fun before h => hfew before ((List.mem_inits _ _).2 h)) twoRanges (List.prefix_refl _)
  exact ⟨m, hm, hcount⟩

/-- With `2 ^ 31` ranges locked on a page, the counter of the page is negative. -/
theorem histogram_overflows :
    ∃ m, LockedPageManager.run 4096 (List.replicate (2 ^ 31) (.LockRange ⟨0, 1⟩)) = some m ∧
      touching 4096 (outstanding (List.replicate (2 ^ 31) (.LockRange ⟨0, 1⟩))) 0 = 2 ^ 31 ∧
      (m.histogram[(0 : UInt64)]?).map Int32.toInt = some (-2 ^ 31) := by
  have hrun : ∀ n, ∃ m, LockedPageManager.run 4096 (List.replicate n (.LockRange ⟨0, 1⟩)) = some m ∧
      m.Tracks 4096 (outstanding (List.replicate n (.LockRange ⟨0, 1⟩))) := by
    intro n
    induction n with
    | zero => exact ⟨_, rfl, LockedPageManager.tracks_new 4096⟩
    | succ n ih =>
      obtain ⟨m, hm, h⟩ := ih
      obtain ⟨m', calls, hm', h', -⟩ := h.step (k := 12) (by decide) rfl
        (.LockRange ⟨0, 1⟩) (by rintro r ⟨rfl⟩; simp [MemoryRange.Fits]) nofun
      rw [List.replicate_succ']
      refine ⟨m', ?_, h'⟩
      unfold LockedPageManager.run at hm ⊢
      rw [List.foldlM_append, hm]
      simpa using hm'
  have htouching : ∀ n,
      touching 4096 (outstanding (List.replicate n (.LockRange ⟨0, 1⟩))) 0 = n := by
    intro n
    induction n with
    | zero => rfl
    | succ n ih =>
      rw [List.replicate_succ', outstanding_concat]
      change touching 4096 (_ :: _) 0 = _
      rw [touching_cons, ih, if_pos (by decide)]
  obtain ⟨m, hm, h⟩ := hrun (2 ^ 31)
  refine ⟨m, hm, htouching _, ?_⟩
  rw [h.counted, htouching]
  rfl

end TriTip
