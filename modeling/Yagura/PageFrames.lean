import Yagura.PagingSteps

/-!
# The page allocator

What `page_alloc`, `page_ref` and `page_unref` do to the bitmap, the reference
counts and the free counter, and what they keep: a page is free exactly if its
count is zero, and the counter is the number of free pages.
-/

namespace Yagura

open Function List Prog

namespace Paging

instance : Inhabited Paging :=
  ⟨{ numPages := 0, bitmap := fun _ => false, refCounts := fun _ => 0, freeKibibytes := 0, mem := fun _ _ => 0,
     dir := fun _ _ => 0, dirAddr := fun _ => 0, dirLive := fun _ => false, numDirs := 0, smpActive := false }⟩

variable {s : Paging} {i : Nat}

def taken (s : Paging) (i : Nat) : Paging :=
  { s.setRef i 1 with bitmap := update s.bitmap i false, freeKibibytes := s.freeKibibytes - 4 }

def released (s : Paging) (i : Nat) : Paging :=
  { s.setRef i 0 with bitmap := update s.bitmap i true, freeKibibytes := s.freeKibibytes + 4 }

def refd (s : Paging) (i : Nat) : Paging :=
  if s.refCounts i < UINT8_MAX then s.setRef i (s.refCounts i + 1) else s

def unrefd (s : Paging) (i : Nat) : Paging :=
  if s.refCounts i < UINT8_MAX then if s.refCounts i = 1 then s.released i else s.setRef i (s.refCounts i - 1) else s

def freePages (s : Paging) : Finset Nat := (Finset.range s.numPages).filter fun i => s.bitmap i = true

structure PagesSound (s : Paging) : Prop where
  bound : s.numPages ≤ 2 ^ 20
  bits : ∀ i, i < s.numPages → (s.bitmap i = true ↔ s.refCounts i = 0)
  counts : ∀ i, i < s.numPages → s.refCounts i ≤ UINT8_MAX
  free : s.freeKibibytes.toNat = 4 * s.freePages.card

def Counted (s : Paging) (x : Nat → Nat) : Prop := ∀ i, i < s.numPages → s.refCounts i = UINT8_MAX ∨ s.refCounts i = x i

theorem mem_freePages : i ∈ s.freePages ↔ i < s.numPages ∧ s.bitmap i = true := by
  unfold freePages
  rw [Finset.mem_filter, Finset.mem_range]

theorem PagesSound.card_freePages_le (h : s.PagesSound) : s.freePages.card ≤ 2 ^ 20 := by
  calc s.freePages.card ≤ (Finset.range s.numPages).card := Finset.card_filter_le _ _
    _ = s.numPages := Finset.card_range _
    _ ≤ 2 ^ 20 := h.bound

/-! ## Keeping the allocator sound -/

theorem freePages_taken (hi : i < s.numPages) (hb : s.bitmap i = true) :
    (s.taken i).freePages.card + 1 = s.freePages.card := by
  have hmem : i ∈ s.freePages := mem_freePages.mpr ⟨hi, hb⟩
  have he : (s.taken i).freePages = s.freePages.erase i := by
    ext j
    rw [mem_freePages, Finset.mem_erase, mem_freePages]
    show j < s.numPages ∧ update s.bitmap i false j = true ↔ _
    by_cases hj : j = i
    · simp [hj]
    · simp [hj]
  rw [he, Finset.card_erase_add_one hmem]

theorem freePages_released (hi : i < s.numPages) (hb : s.bitmap i = false) :
    (s.released i).freePages.card = s.freePages.card + 1 := by
  have hmem : i ∉ s.freePages := by
    rw [mem_freePages, hb]
    simp
  have he : (s.released i).freePages = insert i s.freePages := by
    ext j
    rw [mem_freePages, Finset.mem_insert, mem_freePages]
    show j < s.numPages ∧ update s.bitmap i true j = true ↔ _
    by_cases hj : j = i
    · simp [hj, hi]
    · simp [hj]
  rw [he, Finset.card_insert_of_notMem hmem]

theorem PagesSound.taken (h : s.PagesSound) (hi : i < s.numPages) (hb : s.bitmap i = true) :
    (s.taken i).PagesSound where
  bound := h.bound
  bits := by
    intro j hj
    show update s.bitmap i false j = true ↔ update s.refCounts i 1 j = 0
    by_cases hji : j = i
    · simp [hji]
    · rw [update_of_ne hji, update_of_ne hji]
      exact h.bits j hj
  counts := by
    intro j hj
    show update s.refCounts i 1 j ≤ UINT8_MAX
    by_cases hji : j = i
    · rw [hji, update_self]
      decide
    · rw [update_of_ne hji]
      exact h.counts j hj
  free := by
    have hca := freePages_taken hi hb
    have hfr := h.free
    show (s.freeKibibytes - 4).toNat = 4 * (s.taken i).freePages.card
    have hle' : (4 : UInt32) ≤ s.freeKibibytes := by
      rw [UInt32.le_iff_toNat_le]
      show 4 ≤ _
      omega
    rw [UInt32.toNat_sub_of_le _ _ hle']
    show s.freeKibibytes.toNat - 4 = _
    omega

theorem PagesSound.released (h : s.PagesSound) (hi : i < s.numPages) (hb : s.bitmap i = false) :
    (s.released i).PagesSound where
  bound := h.bound
  bits := by
    intro j hj
    show update s.bitmap i true j = true ↔ update s.refCounts i 0 j = 0
    by_cases hji : j = i
    · simp [hji]
    · rw [update_of_ne hji, update_of_ne hji]
      exact h.bits j hj
  counts := by
    intro j hj
    show update s.refCounts i 0 j ≤ UINT8_MAX
    by_cases hji : j = i
    · rw [hji, update_self]
      decide
    · rw [update_of_ne hji]
      exact h.counts j hj
  free := by
    have hca := freePages_released hi hb
    have hle := h.card_freePages_le
    have hfr := h.free
    show (s.freeKibibytes + 4).toNat = 4 * (s.released i).freePages.card
    rw [UInt32.toNat_add, hfr, hca, Nat.mod_eq_of_lt]
    · show 4 * s.freePages.card + 4 = _
      omega
    · show 4 * s.freePages.card + 4 < _
      omega

theorem PagesSound.setRef {c : Nat} (h : s.PagesSound) (hr : 0 < s.refCounts i) (hc : 0 < c) (hle : c ≤ UINT8_MAX) :
    (s.setRef i c).PagesSound where
  bound := h.bound
  bits := by
    intro j hj
    show s.bitmap j = true ↔ update s.refCounts i c j = 0
    rw [h.bits j hj]
    by_cases hji : j = i
    · subst hji
      rw [update_self]
      omega
    · rw [update_of_ne hji]
  counts := by
    intro j hj
    show update s.refCounts i c j ≤ UINT8_MAX
    by_cases hji : j = i
    · rwa [hji, update_self]
    · rw [update_of_ne hji]
      exact h.counts j hj
  free := h.free

theorem PagesSound.refd (h : s.PagesSound) (hr : 0 < s.refCounts i) : (s.refd i).PagesSound := by
  unfold Paging.refd
  split
  · rename_i hlt
    exact h.setRef hr (Nat.succ_pos _) hlt
  · exact h

theorem PagesSound.unrefd (h : s.PagesSound) (hi : i < s.numPages) (hr : 0 < s.refCounts i) :
    (s.unrefd i).PagesSound := by
  have hb : s.bitmap i = false := by
    rw [← Bool.not_eq_true, h.bits i hi]
    omega
  unfold Paging.unrefd
  split
  · split
    · exact h.released hi hb
    · exact h.setRef hr (by omega) (by omega)
  · exact h

/-! ## Counting references -/

section
variable {s' : Paging} {x x' : Nat → Nat}

theorem Counted.at (h : s.Counted x) (hn : s'.numPages = s.numPages)
    (hr : ∀ j, j ≠ i → s'.refCounts j = s.refCounts j) (hx : ∀ j, j ≠ i → x' j = x j)
    (hi : i < s.numPages → s'.refCounts i = UINT8_MAX ∨ s'.refCounts i = x' i) : s'.Counted x' := by
  intro j hj
  rw [hn] at hj
  by_cases hji : j = i
  · subst hji
    exact hi hj
  · rw [hr j hji, hx j hji]
    exact h j hj

theorem refd_numPages : (s.refd i).numPages = s.numPages := by
  unfold refd
  split <;> rfl

theorem unrefd_numPages : (s.unrefd i).numPages = s.numPages := by
  unfold unrefd
  split
  · split <;> rfl
  · rfl

theorem refd_refCounts : (s.refd i).refCounts =
      update s.refCounts i (if s.refCounts i < UINT8_MAX then s.refCounts i + 1 else s.refCounts i) := by
  unfold refd
  split
  · rfl
  · rw [update_eq_self]

theorem unrefd_refCounts : (s.unrefd i).refCounts =
      update s.refCounts i (if s.refCounts i < UINT8_MAX then s.refCounts i - 1 else s.refCounts i) := by
  unfold unrefd
  split
  · split
    · rename_i h
      rw [h]
      rfl
    · rfl
  · rw [update_eq_self]

theorem Counted.taken (h : s.Counted x) (hx : ∀ j, j ≠ i → x' j = x j) (hi : x' i = 1) : (s.taken i).Counted x' := by
  refine h.at rfl (fun j hj => update_of_ne hj ..) hx fun _ => .inr ?_
  rw [hi]
  exact update_self ..

theorem Counted.refd (h : s.Counted x) (hs : s.PagesSound) (hx : ∀ j, j ≠ i → x' j = x j) (hi : x' i = x i + 1) :
    (s.refd i).Counted x' := by
  refine h.at refd_numPages (fun j hj => ?_) hx fun hn => ?_
  · rw [refd_refCounts, update_of_ne hj]
  · rw [refd_refCounts, update_self, hi]
    have hle := hs.counts i hn
    have hc := h i hn
    split <;> omega

theorem Counted.unrefd (h : s.Counted x) (hs : s.PagesSound) (hx : ∀ j, j ≠ i → x' j = x j) (hi : x' i = x i - 1) :
    (s.unrefd i).Counted x' := by
  refine h.at unrefd_numPages (fun j hj => ?_) hx fun hn => ?_
  · rw [unrefd_refCounts, update_of_ne hj]
  · rw [unrefd_refCounts, update_self, hi]
    have hle := hs.counts i hn
    have hc := h i hn
    split <;> omega

theorem refd_saturated {j : Nat} (hs : s.refCounts j = UINT8_MAX) : (s.refd i).refCounts j = UINT8_MAX := by
  rw [refd_refCounts]
  by_cases hj : j = i
  · subst hj
    rw [update_self, if_neg (by omega), hs]
  · rwa [update_of_ne hj]

theorem unrefd_saturated {j : Nat} (hs : s.refCounts j = UINT8_MAX) : (s.unrefd i).refCounts j = UINT8_MAX := by
  rw [unrefd_refCounts]
  by_cases hj : j = i
  · subst hj
    rw [update_self, if_neg (by omega), hs]
  · rwa [update_of_ne hj]

end

/-! ## The functions -/

def Lowest (s : Paging) (i : Nat) : Prop := i < s.numPages ∧ s.bitmap i = true ∧ ∀ j, j < i → s.bitmap j = false

theorem bitmapFindFirstSet_some (h : bitmapFindFirstSet s = some i) : s.Lowest i := by
  unfold bitmapFindFirstSet at h
  rw [find?_range_eq_some] at h
  obtain ⟨hb, hi, hj⟩ := h
  exact ⟨mem_range.mp hi, hb, fun j hlt => by simpa using hj j hlt⟩

theorem bitmapFindFirstSet_none (h : bitmapFindFirstSet s = none) (hi : i < s.numPages) : s.bitmap i = false := by
  unfold bitmapFindFirstSet at h
  rw [find?_eq_none] at h
  exact Bool.eq_false_iff.mpr (h i (mem_range.mpr hi))

theorem PagesSound.pageAlloc (h : s.PagesSound) : (∃ i, s.Lowest i ∧ Yagura.pageAlloc s = .ok (.ok i, s.taken i)) ∨
      (∀ i, i < s.numPages → s.bitmap i = false) ∧ Yagura.pageAlloc s = .ok (.error .ENOMEM, s) := by
  unfold Yagura.pageAlloc
  rw [get_bind]
  cases hf : bitmapFindFirstSet s with
  | none => exact .inr ⟨fun i => bitmapFindFirstSet_none hf, pure_run _⟩
  | some i =>
    have hlow := bitmapFindFirstSet_some hf
    refine .inl ⟨i, hlow, ?_⟩
    dsimp only
    rw [ensure_bind, if_pos ((h.bits i hlow.1).mp hlow.2.1), ensure_bind, if_pos hlow.2.1, modify_bind, pure_run]
    rfl

end Paging

section
variable {s : Paging} {a : Nat}

section
variable (ha : a % PAGE_SIZE = 0) (h : a / PAGE_SIZE < s.numPages → 0 < s.refCounts (a / PAGE_SIZE) ∧ s.bitmap (a / PAGE_SIZE) = false)
include ha h

theorem pageRef_run : pageRef a s = .ok ((), if a / PAGE_SIZE < s.numPages then s.refd (a / PAGE_SIZE) else s) := by
  unfold pageRef
  rw [ensure_bind, if_pos ha, get_bind]
  by_cases hn : a / PAGE_SIZE < s.numPages
  · obtain ⟨hr, hb⟩ := h hn
    rw [if_neg (by omega), ensure_bind, if_pos hr, ensure_bind, if_pos hb, if_pos hn]
    unfold Paging.refd
    split
    · rw [modify_run]
    · rw [pure_run]
  · rw [if_pos (by omega), if_neg hn, pure_run]

theorem pageUnref_run :
    pageUnref a s = .ok ((), if a / PAGE_SIZE < s.numPages then s.unrefd (a / PAGE_SIZE) else s) := by
  unfold pageUnref
  rw [ensure_bind, if_pos ha, get_bind]
  by_cases hn : a / PAGE_SIZE < s.numPages
  · obtain ⟨hr, hb⟩ := h hn
    rw [if_neg (by omega), ensure_bind, if_pos hr, ensure_bind, if_pos hb, if_pos hn]
    unfold Paging.unrefd
    split
    · split
      · rfl
      · rw [modify_run]
    · rw [pure_run]
  · rw [if_pos (by omega), if_neg hn, pure_run]

end

end

end Yagura
