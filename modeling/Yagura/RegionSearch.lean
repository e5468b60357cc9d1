import Yagura.RegionRuns

/-!
# Where a region can go

`vm_find_gap` looks at the gaps behind the regions, in order. What it should
come to is said of the free parts of the address space; it comes to that unless
a sum wraps or the only room is before the first region.
-/

namespace Yagura

open List

section
variable (r : Regions) (v a size : Nat)

def Regions.Free : Prop :=
  (r.vm v).start ≤ a ∧ a + size ≤ (r.vm v).stop ∧ ∀ i ∈ r.nodes v, (r.span i).stop ≤ a ∨ a + size ≤ (r.span i).start

def Regions.GapFound : Except Errno (Option Nat × Nat) → Prop
  | .ok (cursor, a) => r.Free v a size ∧ ∃ l₁ l₂, r.nodes v = l₁ ++ l₂ ∧ cursor = l₁.getLast? ∧
      (∀ i ∈ l₁, (r.span i).stop ≤ a) ∧ ∀ i ∈ l₂, a + size ≤ (r.span i).start
  | .error e => e = .ENOMEM ∧ ∀ a, ¬ r.Free v a size

def Regions.RoomBehind (stop : Nat) (l : List Nat) : Prop :=
  ∃ l₁ k l₂, l = l₁ ++ k :: l₂ ∧ (r.span k).stop + size ≤ r.gapEnd stop l₂.head?

/-- No sum wraps; and where the vm is large enough and has regions, there is room behind one of them, or there is none
before the first and no sum wraps behind the others either. -/
def Regions.SearchFits : Prop :=
  (r.vm v).start + size < 2 ^ 32 ∧
    ((r.vm v).start + size ≤ (r.vm v).stop → ∀ i ∈ (r.nodes v).head?, r.RoomBehind size (r.vm v).stop (r.nodes v) ∨
      (r.span i).start < (r.vm v).start + size ∧ ∀ j ∈ r.nodes v, (r.span j).stop + size < 2 ^ 32)

end

section
variable {r : Regions} {v a size stop k : Nat} {l l₁ l₂ : List Nat}

theorem length_nodesFrom {fuel : Nat} {hd : Option Nat} : (r.nodesFrom fuel hd).length ≤ fuel := by
  induction fuel generalizing hd with
  | zero => cases hd <;> simp [Regions.nodesFrom]
  | succ fuel ih =>
    cases hd with
    | none => simp [Regions.nodesFrom]
    | some i => simpa [Regions.nodesFrom] using ih

theorem Regions.WellFormed.listed (h : r.WellFormed v) : r.Listed v (r.nodes v) :=
  ⟨h.linked, h.sorted, length_nodesFrom⟩

theorem before_of_firstGap (hst : stop < 2 ^ 32) (hl : ∀ i ∈ l, (r.span i).start ≤ stop)
    (hn : r.firstGap size stop l = none) (ha : a + size ≤ stop)
    (hfr : ∀ i ∈ l, (r.span i).stop ≤ a ∨ a + size ≤ (r.span i).start) : ∀ i ∈ l, a + size ≤ (r.span i).start := by
  induction l with
  | nil => simp
  | cons k l ih =>
    rw [Regions.firstGap] at hn
    split at hn
    · cases hn
    next hk =>
    have hre := ih (fun i hi => hl i (by simp [hi])) hn fun i hi => hfr i (by simp [hi])
    have hend : a + size ≤ r.gapEnd stop l.head? := by
      cases l with
      | nil => exact ha
      | cons i l => exact hre i (by simp)
    have hks : ¬ (r.span k).stop ≤ a := by
      intro hle
      simp only [add32] at hk
      omega
    intro i hi
    rcases mem_cons.mp hi with rfl | hi
    · exact (hfr i (by simp)).resolve_left hks
    · exact hre i hi

section
variable (hst : stop < 2 ^ 32) (hl : ∀ i ∈ l, (r.span i).start < (r.span i).stop ∧ (r.span i).stop ≤ stop)
  (hs : l.Pairwise fun i j => (r.span i).stop ≤ (r.span j).start)
include hst hl hs

/-- A sum that wraps passes the test of the search, whatever the gap. -/
theorem firstGap_of_wrap (hsz : size < 2 ^ 32) {j : Nat} (hj : j ∈ l) (hwr : 2 ^ 32 ≤ (r.span j).stop + size) :
    r.firstGap size stop l ≠ none := by
  induction l with
  | nil => cases hj
  | cons k l ih =>
    rw [Regions.firstGap]
    split_ifs with hk
    · simp
    rcases mem_cons.mp hj with rfl | hj
    · have hend : (r.span j).stop ≤ r.gapEnd stop l.head? := by
        cases l with
        | nil => exact (hl j (by simp)).2
        | cons i l => exact (pairwise_cons.mp hs).1 i (by simp)
      have := (hl j (by simp)).2
      simp only [add32] at hk
      omega
    · exact ih (fun i hi => hl i (mem_cons_of_mem k hi)) (pairwise_cons.mp hs).2 hj

theorem firstGap_of_room (h : r.RoomBehind size stop l) :
    ∃ k, r.firstGap size stop l = some k ∧ (r.span k).stop + size < 2 ^ 32 := by
  obtain ⟨l₁, j, l₂, rfl, hroom⟩ := h
  have hend : r.gapEnd stop l₂.head? ≤ stop := by
    cases l₂ with
    | nil => exact le_rfl
    | cons i l₂ =>
      have := hl i (by simp)
      exact this.1.le.trans this.2
  induction l₁ with
  | nil => exact ⟨j, by rw [nil_append, Regions.firstGap, add32, Nat.mod_eq_of_lt (by omega), if_pos hroom], by omega⟩
  | cons k l₁ ih =>
    rw [cons_append, Regions.firstGap]
    split_ifs with hk
    · have := (pairwise_cons.mp hs).1 j (by simp)
      have := hl j (by simp)
      exact ⟨k, rfl, by omega⟩
    · exact ih (fun i hi => hl i (mem_cons_of_mem k hi)) (pairwise_cons.mp hs).2

end

theorem Regions.WellFormed.found (h : r.WellFormed v) (hl : r.nodes v = l₁ ++ k :: l₂)
    (hle : (r.span k).stop + size ≤ r.gapEnd (r.vm v).stop l₂.head?) :
    r.GapFound v size (.ok (some k, (r.span k).stop)) := by
  have hs := h.sorted
  have hreg := h.region
  rw [hl] at hs hreg
  simp only [pairwise_append, pairwise_cons, mem_cons] at hs
  obtain ⟨-, ⟨-, hs2⟩, hs1⟩ := hs
  have hk := hreg k (by simp)
  have h1 : ∀ i ∈ l₁ ++ [k], (r.span i).stop ≤ (r.span k).stop := by
    intro i hi
    rcases mem_append.mp hi with hi | hi
    · have := hs1 i hi k (.inl rfl)
      omega
    · simp [mem_singleton.mp hi]
  have h2 : ∀ i ∈ l₂, (r.span k).stop + size ≤ (r.span i).start := by
    cases l₂ with
    | nil => simp
    | cons j l₂ =>
      have hj := hreg j (by simp)
      have hle : (r.span k).stop + size ≤ (r.span j).start := hle
      intro i hi
      rcases mem_cons.mp hi with rfl | hi
      · exact hle
      · have := (pairwise_cons.mp hs2).1 i hi
        omega
  have hup : (r.span k).stop + size ≤ (r.vm v).stop := by
    cases l₂ with
    | nil => exact hle
    | cons j l₂ =>
      have := h2 j (by simp)
      have := hreg j (by simp)
      omega
  refine ⟨⟨by omega, hup, fun i hi => ?_⟩, l₁ ++ [k], l₂, by simp [hl], by simp, h1, h2⟩
  rw [hl] at hi
  rcases mem_append.mp hi with hi | hi
  · exact .inl (h1 i (by simp [hi]))
  · rcases mem_cons.mp hi with rfl | hi
    · exact .inl le_rfl
    · exact .inr (h2 i hi)

end

theorem gap_found_iff {r : Regions} {v size : Nat} (h : r.WellFormed v)
    (hvm : (r.vm v).start ≤ (r.vm v).stop ∧ (r.vm v).stop < 2 ^ 32) (hsize : 0 < size ∧ size < 2 ^ 32) :
    ∃ out, vmFindGap r v size = .ok out ∧ (r.GapFound v size out ↔ r.SearchFits v size) := by
  refine ⟨_, h.listed.vmFindGap_eq, ?_⟩
  have hreg := h.region
  have hsp : ∀ i ∈ r.nodes v, (r.span i).start < (r.span i).stop ∧ (r.span i).stop ≤ (r.vm v).stop :=
    fun i hi => ⟨(hreg i hi).1, (hreg i hi).2.2.2.2⟩
  have hroom (hr : r.RoomBehind size (r.vm v).stop (r.nodes v)) := firstGap_of_room hvm.2 hsp h.sorted hr
  have hwrap {j : Nat} := firstGap_of_wrap (j := j) hvm.2 hsp h.sorted hsize.2
  unfold Regions.SearchFits
  split
  · next hlt =>
    simp only [add32] at hlt
    refine iff_of_true ⟨rfl, fun a ha => ?_⟩ ⟨by omega, fun hle => by omega⟩
    obtain ⟨hlo, hhi, -⟩ := ha
    omega
  next hlt =>
  cases hl : r.nodes v with
  | nil =>
    constructor
    · rintro ⟨⟨-, hhi, -⟩, -⟩
      exact ⟨by omega, by simp⟩
    · rintro ⟨hwr, -⟩
      rw [add32, Nat.mod_eq_of_lt hwr] at hlt
      exact ⟨⟨le_rfl, by omega, by simp [hl]⟩, [], [], hl, rfl, by simp, by simp⟩
  | cons i l =>
    rw [hl] at hreg hroom hwrap
    have hi := hreg i (by simp)
    cases hk : r.firstGap size (r.vm v).stop (i :: l) with
    | some k =>
      obtain ⟨l₁, l₂, hl', hle⟩ := firstGap_some hk
      constructor
      · rintro ⟨⟨hlo, hhi, -⟩, -⟩
        have hwr : (r.span k).stop + size < 2 ^ 32 := by omega
        rw [add32, Nat.mod_eq_of_lt hwr] at hle
        exact ⟨by omega, fun _ _ _ => .inl ⟨l₁, k, l₂, hl', hle⟩⟩
      · rintro ⟨hno, hfit⟩
        rw [add32, Nat.mod_eq_of_lt hno] at hlt
        have hwr : (r.span k).stop + size < 2 ^ 32 := by
          rcases hfit (by omega) i rfl with hr | ⟨-, hr⟩
          · obtain ⟨k', hk', hwr⟩ := hroom hr
            cases hk.symm.trans hk'
            exact hwr
          · exact hr k (by simp [hl'])
        rw [add32, Nat.mod_eq_of_lt hwr] at hle
        exact h.found (hl.trans hl') hle
    | none =>
      have hno : ∀ j ∈ i :: l, (r.span j).stop + size < 2 ^ 32 := fun j hj => by
        by_contra hge
        exact hwrap hj (by omega) hk
      have hi2 := hno i (by simp)
      have hnr : ¬ r.RoomBehind size (r.vm v).stop (i :: l) := fun hr => by
        obtain ⟨k, hk', -⟩ := hroom hr
        cases hk.symm.trans hk'
      constructor
      · rintro ⟨-, hnn⟩
        refine ⟨by omega, fun hfit j hj => .inr ⟨?_, hno⟩⟩
        obtain rfl : i = j := by simpa using hj
        by_contra hge
        -- there is room before the first region
        refine hnn (r.vm v).start ⟨le_rfl, hfit, fun j hj => .inr ?_⟩
        have hs := h.sorted
        rw [hl] at hj hs
        rcases mem_cons.mp hj with rfl | hj
        · omega
        · have := (pairwise_cons.mp hs).1 j hj
          omega
      · rintro ⟨hwr, hfit⟩
        rw [add32, Nat.mod_eq_of_lt hwr] at hlt
        have hfirst := ((hfit (by omega) i rfl).resolve_left hnr).1
        refine ⟨rfl, fun a ha => ?_⟩
        obtain ⟨hlo, hhi, hfr⟩ := ha
        rw [hl] at hfr
        have := before_of_firstGap hvm.2 (fun j hj => by have := hreg j hj; omega) hk hhi hfr i (by simp)
        omega

def oneVm (regions : Option Nat) : Regions where
  node := fun _ => ⟨⟨0x2000, 0x4000, VM_RW⟩, none, none⟩
  freeList := []
  numNodes := 1
  slabs := []
  vm := fun _ => ⟨0x1000, 0x4000, 0, regions, 1, 0⟩
  numVms := 1

theorem oneVm_wellFormed (regions : Option Nat) (h : regions = none ∨ regions = some 0) :
    (oneVm regions).WellFormed 0 := by
  rcases h with rfl | rfl
  · exact ⟨⟨none, rfl, rfl⟩, .nil, by decide⟩
  · exact ⟨⟨some 0, rfl, rfl, rfl, rfl⟩, by decide, by decide⟩

/-- The page before the only region is free, and the search does not see it; in an empty vm the search gives out a
range that leaves it. -/
theorem gap_missed : ((oneVm (some 0)).WellFormed 0 ∧ vmFindGap (oneVm (some 0)) 0 0x1000 = .ok (.error .ENOMEM) ∧
      (oneVm (some 0)).Free 0 0x1000 0x1000) ∧
    ((oneVm none).WellFormed 0 ∧ vmFindGap (oneVm none) 0 0xfffff000 = .ok (.ok (none, 0x1000)) ∧
      ¬ (oneVm none).Free 0 0x1000 0xfffff000) := by
  refine ⟨⟨oneVm_wellFormed _ (.inr rfl), by decide +kernel, by decide, by decide, by decide⟩,
    oneVm_wellFormed _ (.inl rfl), by decide +kernel, ?_⟩
  rintro ⟨-, hhi, -⟩
  exact absurd hhi (by decide)

/-- Two regions with a page between them. -/
def twoRegions : Regions where
  node := fun i => if i = 0 then ⟨⟨0x1000, 0x2000, VM_RW⟩, none, some 1⟩ else ⟨⟨0x3000, 0x4000, VM_RW⟩, some 0, none⟩
  freeList := []
  numNodes := 2
  slabs := []
  vm := fun _ => ⟨0x1000, 0x4000, 0, some 0, 1, 0⟩
  numVms := 1

theorem gap_found_between : ∃ out, vmFindGap twoRegions 0 0x1000 = .ok out ∧ twoRegions.GapFound 0 0x1000 out := by
  have h : twoRegions.WellFormed 0 := ⟨⟨some 1, rfl, rfl, rfl, rfl, rfl, rfl⟩, by decide, by decide⟩
  obtain ⟨out, hout, hiff⟩ := gap_found_iff h (by decide) (by decide : 0 < 0x1000 ∧ 0x1000 < 2 ^ 32)
  refine ⟨out, hout, hiff.mpr ⟨by decide, ?_⟩⟩
  rintro - i -
  exact .inl ⟨[], 0, [1], by decide, by decide⟩

end Yagura
