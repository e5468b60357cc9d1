import Yagura.VmSteps
import Yagura.PagingSteps
import Yagura.Trans

/-!
# Region lists stay well formed

Every node is on the list of one vm, on the free list of the slab cache or
held by the function that is running. The lists of the vms in use are linked
both ways, ordered and within the vm's bounds. The functions that edit the
lists keep that, as long as no sum of an address and a size wraps.
-/

namespace Yagura

open Function List Nat Prog Regions

/-! ## The invariant -/

def Regions.Live (r : Regions) (v : Nat) : Prop := v < r.numVms ∧ 0 < (r.vm v).refCount

structure SpanOk (g : Nat) (u : Vm) (sp : Span) : Prop where
  le : sp.start + g ≤ sp.stop
  startAligned : sp.start % PAGE_SIZE = 0
  stopAligned : sp.stop % PAGE_SIZE = 0
  lower : u.start ≤ sp.start
  upper : sp.stop ≤ u.stop

/-- `L v` are the nodes of vm `v` in order, `H` the nodes held by the running function. -/
structure RegInv (g : Nat) (r : Regions) (L : Nat → List Nat) (H : List Nat) : Prop where
  linked : ∀ v, r.Live v → r.node.Linked (r.vm v).regions (L v)
  nodup : ∀ v, r.Live v → (L v).Nodup
  disjoint : ∀ v w, r.Live v → r.Live w → v ≠ w → (L v).Disjoint (L w)
  loose : (H ++ r.freeList).Nodup
  apart : ∀ v, r.Live v → (L v).Disjoint (H ++ r.freeList)
  looseLt : ∀ i ∈ H ++ r.freeList, i < r.numNodes
  listLt : ∀ v, r.Live v → ∀ i ∈ L v, i < r.numNodes
  sorted : ∀ v, r.Live v → (L v).Pairwise fun i j => (r.span i).stop ≤ (r.span j).start
  span : ∀ v, r.Live v → ∀ i ∈ L v, SpanOk g (r.vm v) (r.span i)
  kernel : r.Live 0 ∧ (r.vm 0).start = KERNEL_HEAP_START ∧ (r.vm 0).stop = KERNEL_HEAP_END
  user : ∀ v, r.Live v → v ≠ 0 → (r.vm v).start = USER_START ∧ (r.vm v).stop = KERNEL_VIRT_ADDR

structure SameVms (r r' : Regions) : Prop where
  numVms : r'.numVms = r.numVms
  start : ∀ v, (r'.vm v).start = (r.vm v).start
  stop : ∀ v, (r'.vm v).stop = (r.vm v).stop
  pageDirectory : ∀ v, (r'.vm v).pageDirectory = (r.vm v).pageDirectory
  refCount : ∀ v, (r'.vm v).refCount = (r.vm v).refCount
  addr : ∀ v, (r'.vm v).addr = (r.vm v).addr

variable {r : Regions} {x : Nat} {l : List Nat} {c : Option Nat}

theorem SameVms.of_vm {r' : Regions} (hn : r'.numVms = r.numVms) (h : r'.vm = r.vm) : SameVms r r' := by
  constructor <;> simp [hn, h]

theorem SameVms.refl (r : Regions) : SameVms r r := .of_vm rfl rfl

theorem SameVms.trans {r' r'' : Regions} (h : SameVms r r') (h' : SameVms r' r'') : SameVms r r'' where
  numVms := h'.numVms.trans h.numVms
  start v := (h'.start v).trans (h.start v)
  stop v := (h'.stop v).trans (h.stop v)
  pageDirectory v := (h'.pageDirectory v).trans (h.pageDirectory v)
  refCount v := (h'.refCount v).trans (h.refCount v)
  addr v := (h'.addr v).trans (h.addr v)

theorem SameVms.setVm {v : Nat} {hd : Option Nat} : SameVms r (r.setVm v { r.vm v with regions := hd }) := by
  constructor <;> intros <;> simp only [Regions.setVm, update_apply] <;> split <;> simp_all

namespace SameVms

variable {r r' : Regions} (h : SameVms r r') (v : Nat)
include h

theorem live : r'.Live v ↔ r.Live v := by
  rw [Regions.Live, Regions.Live, h.numVms, h.refCount]

theorem spanOk {g : Nat} {sp : Span} : SpanOk g (r'.vm v) sp ↔ SpanOk g (r.vm v) sp := by
  constructor <;> rintro ⟨h1, h2, h3, h4, h5⟩
  · exact ⟨h1, h2, h3, h.start v ▸ h4, h.stop v ▸ h5⟩
  · exact ⟨h1, h2, h3, (h.start v).symm ▸ h4, (h.stop v).symm ▸ h5⟩

end SameVms

/-! ## Editing a list -/

inductive InsertAt (x : Nat) : List Nat → Option Nat → List Nat → Prop
  | head (l : List Nat) : InsertAt x l none (x :: l)
  | after (l₁ : List Nat) (c : Nat) (l₂ : List Nat) : InsertAt x (l₁ ++ c :: l₂) (some c) (l₁ ++ c :: x :: l₂)

theorem InsertAt.perm {l' : List Nat} (h : InsertAt x l c l') : l'.Perm (x :: l) := by
  cases h with
  | head => exact .refl _
  | after l₁ c l₂ =>
    have : (l₁ ++ [c] ++ x :: l₂).Perm (x :: (l₁ ++ [c] ++ l₂)) := perm_middle
    simpa using this

theorem InsertAt.mem {i : Nat} {l' : List Nat} (h : InsertAt x l c l') : i ∈ l' ↔ i = x ∨ i ∈ l := by
  rw [h.perm.mem_iff, mem_cons]

theorem exists_insertAt (hc : ∀ k, c = some k → k ∈ l) : ∃ l', InsertAt x l c l' := by
  cases c with
  | none => exact ⟨_, .head l⟩
  | some k =>
    obtain ⟨l₁, l₂, rfl⟩ := append_of_mem (hc k rfl)
    exact ⟨_, .after l₁ k l₂⟩

section
variable {g v x i : Nat} {r r' : Regions} {L : Nat → List Nat} {H l : List Nat} {c : Option Nat} {sp : Span}
  {u : Vm} {l₂ l₁ : List Nat}

@[simp] theorem setSpan_vm : (r.setSpan i sp).vm = r.vm := rfl

theorem setSpan_span (j : Nat) : (r.setSpan i sp).span j = if j = i then sp else r.span j := Heap.setVal_val ..

theorem setSpan_same : SameVms r (r.setSpan i sp) := .of_vm rfl rfl

@[simp] theorem setVm_vm : (r.setVm v u).vm = update r.vm v u := rfl

theorem RegInv.replace {H' : List Nat} (h : RegInv g r L H) (hsa : SameVms r r') (hv : r.Live v)
    (hvm : ∀ w, w ≠ v → (r'.vm w).regions = (r.vm w).regions)
    (hnod : ∀ w, r.Live w → w ≠ v → ∀ i ∈ L w, r'.node i = r.node i) (hnum : r'.numNodes = r.numNodes)
    (hpe : (l ++ (H' ++ r'.freeList)).Perm (L v ++ (H ++ r.freeList)))
    (hli : r'.node.Linked (r'.vm v).regions l)
    (hso : l.Pairwise fun i j => (r'.span i).stop ≤ (r'.span j).start)
    (hsn : ∀ i ∈ l, SpanOk g (r.vm v) (r'.span i)) : RegInv g r' (update L v l) H' := by
  obtain ⟨hnd, hlo, hap⟩ := nodup_append'.mp
    (hpe.nodup_iff.mpr (nodup_append'.mpr ⟨h.nodup v hv, h.loose, h.apart v hv⟩))
  have hmem : ∀ i ∈ l ++ (H' ++ r'.freeList), i < r'.numNodes ∧ ∀ w, r.Live w → w ≠ v → i ∉ L w := by
    intro i hi
    rw [hnum]
    rcases mem_append.mp (hpe.mem_iff.mp hi) with hi | hi
    · exact ⟨h.listLt v hv i hi, fun w hw hne hi' => h.disjoint w v hw hv hne hi' hi⟩
    · exact ⟨h.looseLt i hi, fun w hw _ hi' => h.apart w hw hi' hi⟩
  have hsp : ∀ w, r.Live w → w ≠ v → ∀ i ∈ L w, r'.span i = r.span i := fun w hw hne i hi =>
    congrArg Cell.val (hnod w hw hne i hi)
  -- what holds of the new list and of the others
  have each : ∀ P : Nat → List Nat → Prop, P v l → (∀ w, r.Live w → w ≠ v → P w (L w)) →
      ∀ w, r'.Live w → P w (update L v l w) := by
    intro P hl ho w hw
    by_cases hwv : w = v
    · rwa [hwv, update_self]
    · rw [update_of_ne hwv]
      exact ho w ((hsa.live w).mp hw) hwv
  have hl : ∀ i ∈ l, i ∈ l ++ (H' ++ r'.freeList) := fun i hi => mem_append_left _ hi
  refine ⟨each _ hli fun w hw hne => ?_, each (fun _ => List.Nodup) hnd fun w hw _ => h.nodup w hw,
    fun w w' hw hw' => each (fun w' m => w ≠ w' → (update L v l w).Disjoint m) (fun hne => ?_)
      (fun w' hw' hne' => ?_) w' hw', hlo,
    each (fun _ m => m.Disjoint (H' ++ r'.freeList)) hap fun w hw hne i hi hi' =>
      (hmem i (mem_append_right _ hi')).2 w hw hne hi, fun i hi => (hmem i (mem_append_right _ hi)).1,
    each (fun _ m => ∀ i ∈ m, i < r'.numNodes) (fun i hi => (hmem i (hl i hi)).1) fun w hw _ i hi =>
      hnum ▸ h.listLt w hw i hi, each (fun _ => List.Pairwise _) hso fun w hw hne => ?_,
    each (fun w m => ∀ i ∈ m, SpanOk g (r'.vm w) (r'.span i)) (fun i hi => (hsa.spanOk v).mpr (hsn i hi))
      fun w hw hne i hi => ?_,
    ⟨(hsa.live 0).mpr h.kernel.1, (hsa.start 0).trans h.kernel.2.1, (hsa.stop 0).trans h.kernel.2.2⟩,
    fun w hw h0 => ?_⟩
  · rw [hvm w hne]
    exact (h.linked w hw).congr fun i hi => by rw [hnod w hw hne i hi]; exact ⟨rfl, rfl⟩
  · rw [update_of_ne hne]
    exact fun i hi hi' => (hmem i (hl i hi')).2 w ((hsa.live w).mp hw) hne hi
  · refine each (fun w m => w ≠ w' → m.Disjoint (L w')) (fun _ i hi hi' => (hmem i (hl i hi)).2 w' hw' hne' hi') ?_ w hw
    exact fun w hw _ hne => h.disjoint w w' hw hw' hne
  · exact (h.sorted w hw).imp_of_mem fun hi hj hij => by rwa [hsp w hw hne _ hi, hsp w hw hne _ hj]
  · rw [hsa.spanOk, hsp w hw hne i hi]
    exact h.span w hw i hi
  · rw [hsa.start, hsa.stop]
    exact h.user w ((hsa.live w).mp hw) h0

theorem RegInv.setSpan_held (h : RegInv g r L H) (hx : x ∈ H ++ r.freeList) : RegInv g (r.setSpan x sp) L H := by
  have hne : ∀ v, r.Live v → ∀ i ∈ L v, (r.setSpan x sp).span i = r.span i := by
    intro v hv i hi
    rw [setSpan_span, if_neg]
    rintro rfl
    exact h.apart v hv hi hx
  refine { h with linked := ?_, sorted := ?_, span := ?_ }
  · intro v hv
    exact (h.linked v hv).congr fun i _ => ⟨Heap.setVal_prev .., Heap.setVal_next ..⟩
  · intro v hv
    exact (h.sorted v hv).imp_of_mem fun hi hj hij => by rwa [hne v hv _ hi, hne v hv _ hj]
  · intro v hv i hi
    rw [hne v hv i hi]
    exact h.span v hv i hi

theorem RegInv.setSpan_mem (h : RegInv g r L H) (hv : r.Live v) (hl : L v = l₁ ++ i :: l₂)
    (hok : SpanOk g (r.vm v) sp) (h1 : ∀ j ∈ l₁, (r.span j).stop ≤ sp.start)
    (h2 : ∀ j ∈ l₂, sp.stop ≤ (r.span j).start) : RegInv g (r.setSpan i sp) L H := by
  have hi : i ∈ L v := by simp [hl]
  have hnd := hl ▸ h.nodup v hv
  have hne : ∀ j, j ∈ l₁ ∨ j ∈ l₂ → (r.setSpan i sp).span j = r.span j := by
    intro j hj
    rw [setSpan_span, if_neg]
    rintro rfl
    simp only [nodup_append, nodup_cons, mem_cons] at hnd
    rcases hj with hj | hj
    · exact hnd.2.2 j hj j (.inl rfl) rfl
    · exact hnd.2.1.1 hj
  have hi' : (r.setSpan i sp).span i = sp := by rw [setSpan_span, if_pos rfl]
  rw [← update_eq_self v L]
  refine h.replace setSpan_same hv (fun _ _ => rfl) (fun w hw hwv j hj => ?_) rfl (.refl _)
    ((h.linked v hv).congr fun j _ => ⟨Heap.setVal_prev .., Heap.setVal_next ..⟩) ?_ fun j hj => ?_
  · refine (Heap.setVal_apply ..).trans (if_neg ?_)
    rintro rfl
    exact h.disjoint w v hw hv hwv hj hi
  · have hs := h.sorted v hv
    rw [hl] at hs ⊢
    simp only [pairwise_append, pairwise_cons, mem_cons] at hs ⊢
    obtain ⟨hs1, ⟨hs2, hs3⟩, hs4⟩ := hs
    refine ⟨hs1.imp_of_mem fun ha hb hab => ?_, ⟨fun b hb => ?_, hs3.imp_of_mem fun ha hb hab => ?_⟩, ?_⟩
    · rwa [hne _ (.inl ha), hne _ (.inl hb)]
    · rw [hi', hne _ (.inr hb)]
      exact h2 b hb
    · rwa [hne _ (.inr ha), hne _ (.inr hb)]
    · intro a ha b hb
      rw [hne _ (.inl ha)]
      rcases hb with rfl | hb
      · rw [hi']
        exact h1 a ha
      · rw [hne _ (.inr hb)]
        exact hs4 a ha b (.inr hb)
  · rw [setSpan_span]
    split
    · exact hok
    · exact h.span v hv j hj

theorem RegInv.setSpan_within (h : RegInv g r L H) (hv : r.Live v) (hi : i ∈ L v) (hok : SpanOk g (r.vm v) sp)
    (h1 : (r.span i).start ≤ sp.start) (h2 : sp.stop ≤ (r.span i).stop) : RegInv g (r.setSpan i sp) L H := by
  obtain ⟨l₁, l₂, hl⟩ := append_of_mem hi
  have hs := h.sorted v hv
  rw [hl] at hs
  simp only [pairwise_append, pairwise_cons, mem_cons] at hs
  refine h.setSpan_mem hv hl hok (fun j hj => ?_) fun j hj => ?_
  · exact (hs.2.2 j hj i (.inl rfl)).trans h1
  · exact h2.trans (hs.2.1.1 j hj)

theorem RegInv.le_start_of_head {a : Nat} (h : RegInv g r L H) (hv : r.Live v)
    (hs : l₂.Pairwise fun i j => (r.span i).stop ≤ (r.span j).start) (hm : ∀ i ∈ l₂, i ∈ L v)
    (ha : r.endsBefore a l₂.head? = true) : ∀ j ∈ l₂, a ≤ (r.span j).start := by
  cases l₂ with
  | nil => simp
  | cons i l =>
    have hi : a ≤ (r.span i).start := by simpa [endsBefore] using ha
    have hle := (h.span v hv i (hm i (by simp))).le
    intro j hj
    rcases mem_cons.mp hj with rfl | hj
    · exact hi
    · have := (pairwise_cons.mp hs).1 j hj
      omega

theorem link_same : SameVms r (r.link v c x) := (@SameVms.setVm r v _).trans (.of_vm rfl rfl)

theorem unlink_same : SameVms r (r.unlink v x) := (@SameVms.setVm r v _).trans (.of_vm rfl rfl)

@[simp] theorem link_span (i : Nat) : (r.link v c x).span i = r.span i := Heap.insertAfter_val ..

@[simp] theorem unlink_span (i : Nat) : (r.unlink v x).span i = r.span i := by
  simp [Regions.unlink, Regions.span]

theorem RegInv.insert_sorted (h : RegInv g r L H) (hv : r.Live v) (hins : InsertAt x (L v) c l)
    (hf : r.Fits v c x) : l.Pairwise fun i j => (r.span i).stop ≤ (r.span j).start := by
  obtain ⟨hb, ha⟩ := hf
  have hs := h.sorted v hv
  have hlk := h.linked v hv
  generalize hl : L v = l₀ at hins hs hlk
  cases hins with
  | head =>
    refine pairwise_cons.mpr ⟨h.le_start_of_head hv hs (fun i hi => hl ▸ hi) ?_, hs⟩
    rwa [Regions.after, hlk.head] at ha
  | after l₁ k l₂ =>
    have hk := (h.span v hv k (by simp [hl])).le
    have hb := hb k rfl
    simp only [pairwise_append, pairwise_cons, mem_cons] at hs ⊢
    obtain ⟨hs1, ⟨hs2, hs3⟩, hs4⟩ := hs
    have hx := h.le_start_of_head hv hs3 (fun i hi => by simp [hl, hi]) (by rwa [Regions.after, hlk.next] at ha)
    refine ⟨hs1, ⟨?_, hx, hs3⟩, ?_⟩
    · rintro j (rfl | hj)
      · exact hb
      · exact hs2 j hj
    · rintro i hi j (rfl | rfl | hj)
      · exact hs4 i hi j (.inl rfl)
      · have := hs4 i hi k (.inl rfl)
        omega
      · exact hs4 i hi j (.inr hj)

theorem RegInv.link (h : RegInv g r L (x :: H)) (hv : r.Live v) (hins : InsertAt x (L v) c l)
    (hok : SpanOk g (r.vm v) (r.span x)) (hf : r.Fits v c x) :
    RegInv g (r.link v c x) (update L v l) H := by
  have hx : x ∉ L v := fun hx => h.apart v hv hx (by simp)
  have hc : ∀ k, c = some k → k ∈ L v := by
    intro k hk
    generalize L v = l₀ at hins
    cases hins with
    | head => cases hk
    | after l₁ k' l₂ => cases hk; simp
  refine h.replace link_same hv (fun w hwv => ?_) (fun w hw hwv i hi => ?_) rfl ?_ ?_ ?_ fun i hi => ?_
  · simp only [Regions.link, setVm_vm, update_of_ne hwv]
  · refine (h.linked v hv).insertAfter_other hc (h.disjoint w v hw hv hwv hi) ?_
    rintro rfl
    exact h.apart w hw hi (by simp)
  · exact (hins.perm.append_right _).trans perm_middle.symm
  · have hlk := h.linked v hv
    have hnd := h.nodup v hv
    generalize L v = l₀ at hins hlk hnd hx
    simp only [Regions.link, setVm_vm, update_self]
    cases hins with
    | head => exact hlk.insertAfter_none hnd hx
    | after l₁ k l₂ => exact hlk.insertAfter_some hnd hx
  · simp only [link_span]
    exact h.insert_sorted hv hins hf
  · rw [link_span]
    rcases hins.mem.mp hi with rfl | hi
    · exact hok
    · exact h.span v hv i hi

theorem RegInv.unlink (h : RegInv g r L H) (hv : r.Live v) (hl : L v = l₁ ++ x :: l₂) :
    RegInv g (r.unlink v x) (update L v (l₁ ++ l₂)) (x :: H) := by
  have hsub : (l₁ ++ l₂).Sublist (L v) := by
    rw [hl]
    exact List.Sublist.append (.refl _) (sublist_cons_self ..)
  refine h.replace unlink_same hv (fun w hwv => ?_) (fun w hw hwv i hi => ?_) rfl ?_ ?_ ?_ fun i hi => ?_
  · simp only [Regions.unlink, setVm_vm, update_of_ne hwv]
  · exact (h.linked v hv).remove_other (by simp [hl]) (h.disjoint w v hw hv hwv hi)
  · rw [hl]
    exact perm_middle.trans (perm_middle.symm.append_right _)
  · have hlk := h.linked v hv
    have hnd := h.nodup v hv
    rw [hl] at hlk hnd
    simp only [Regions.unlink, setVm_vm, update_self]
    exact hlk.remove hnd
  · simp only [unlink_span]
    exact (h.sorted v hv).sublist hsub
  · rw [unlink_span]
    exact h.span v hv i (hsub.subset hi)

theorem RegInv.loosen {H' fl : List Nat} (h : RegInv g r L H) (hp : (H' ++ fl).Perm (H ++ r.freeList)) :
    RegInv g { r with freeList := fl } L H' :=
  { h with
    loose := hp.nodup_iff.mpr h.loose
    apart := fun v hv _ hi hi' => h.apart v hv hi (hp.mem_iff.mp hi')
    looseLt := fun i hi => h.looseLt i (hp.mem_iff.mp hi) }

end

/-! ## Searching a list -/

section
variable {g v a size fuel : Nat} {r : Regions} {L : Nat → List Nat} {H l : List Nat} {hd : Option Nat}
  {c q : Option Nat} {i : Nat}

structure Regions.Listed (r : Regions) (v : Nat) (l : List Nat) : Prop where
  linked : r.node.Linked (r.vm v).regions l
  sorted : l.Pairwise fun i j => (r.span i).stop ≤ (r.span j).start
  length : l.length ≤ r.numNodes

theorem RegInv.listed (h : RegInv g r L H) (hv : r.Live v) : r.Listed v (L v) := by
  refine ⟨h.linked v hv, h.sorted v hv, ?_⟩
  have hsub : L v ⊆ range r.numNodes := fun i hi => mem_range.mpr (h.listLt v hv i hi)
  simpa using (subperm_of_subset (h.nodup v hv) hsub).length_le

theorem endsBefore_next (hs : r.node.Seg (some i) (r.node i).next l q none)
    (hp : (i :: l).Pairwise fun i j => (r.span i).stop ≤ (r.span j).start) :
    r.endsBefore (r.span i).stop (r.node i).next = true := by
  cases l with
  | nil =>
    rw [hs.2]
    rfl
  | cons j l =>
    rw [hs.1]
    exact decide_eq_true ((pairwise_cons.mp hp).1 j (by simp))

def Regions.holds (r : Regions) (a i : Nat) : Bool := (r.span i).start ≤ a ∧ a < (r.span i).stop

theorem holds_iff : r.holds a i = true ↔ (r.span i).start ≤ a ∧ a < (r.span i).stop := decide_eq_true_iff

theorem findRegionFrom_eq {p : Option Nat} (hs : r.node.Seg p hd l q none)
    (hp : l.Pairwise fun i j => (r.span i).stop ≤ (r.span j).start) (hle : l.length ≤ fuel) :
    findRegionFrom r a fuel hd = .ok (l.find? (r.holds a)) := by
  induction l generalizing fuel p hd with
  | nil =>
    obtain ⟨-, rfl⟩ := hs
    cases fuel <;> rfl
  | cons i l ih =>
    obtain ⟨rfl, -, hs⟩ := hs
    cases fuel with
    | zero => simp at hle
    | succ fuel =>
      rw [findRegionFrom, if_pos (endsBefore_next hs hp)]
      split
      · next hi => rw [find?_cons_of_pos (holds_iff.mpr hi)]
      · next hi =>
        rw [find?_cons_of_neg (mt holds_iff.mp hi)]
        exact ih hs hp.of_cons (by simpa using hle)

theorem Regions.Listed.vmFindRegion_eq (h : r.Listed v l) : vmFindRegion r v a = .ok (l.find? (r.holds a)) := by
  obtain ⟨q, hs⟩ := h.linked
  exact findRegionFrom_eq hs h.sorted h.length

theorem RegInv.vmFindRegion_ok (h : RegInv g r L H) (hv : r.Live v) (hf : vmFindRegion r v a = .ok (some i)) :
    i ∈ L v ∧ (r.span i).start ≤ a ∧ a < (r.span i).stop := by
  have hi := Except.ok.inj ((h.listed hv).vmFindRegion_eq.symm.trans hf)
  exact ⟨mem_of_find?_eq_some hi, holds_iff.mp (find?_some hi)⟩

def Regions.gapEnd (r : Regions) (stop : Nat) : Option Nat → Nat
  | some n => (r.span n).start
  | none => stop

def Regions.firstGap (r : Regions) (size stop : Nat) : List Nat → Option Nat
  | [] => none
  | k :: l => if add32 (r.span k).stop size ≤ r.gapEnd stop l.head? then some k else r.firstGap size stop l

def Regions.behind (r : Regions) : Option Nat → Except Errno (Option Nat × Nat)
  | some k => .ok (some k, (r.span k).stop)
  | none => .error .ENOMEM

theorem findGapFrom_eq {stop k : Nat} (hs : r.node.Seg (some k) hd l q none)
    (hp : l.Pairwise fun i j => (r.span i).stop ≤ (r.span j).start) (hle : l.length ≤ fuel) :
    findGapFrom r size stop fuel (some k) hd = .ok (r.behind (r.firstGap size stop (k :: l))) := by
  induction l generalizing fuel k hd with
  | nil =>
    obtain ⟨-, rfl⟩ := hs
    have hnil : findGapFrom r size stop fuel (some k) none =
        .ok (if add32 (r.span k).stop size ≤ stop then .ok (some k, (r.span k).stop) else .error .ENOMEM) := by
      cases fuel <;> rfl
    have hla : r.firstGap size stop [k] = if add32 (r.span k).stop size ≤ stop then some k else none := rfl
    rw [hnil, hla, apply_ite r.behind]
    rfl
  | cons i l ih =>
    obtain ⟨rfl, -, hs⟩ := hs
    cases fuel with
    | zero => simp at hle
    | succ fuel =>
      have hco : r.firstGap size stop (k :: i :: l) =
          if add32 (r.span k).stop size ≤ (r.span i).start then some k else r.firstGap size stop (i :: l) := rfl
      rw [findGapFrom, if_pos (endsBefore_next hs hp), hco]
      split
      · rfl
      · exact ih hs hp.of_cons (by simpa using hle)

theorem Regions.Listed.vmFindGap_eq (h : r.Listed v l) : vmFindGap r v size =
    .ok (if (r.vm v).stop < add32 (r.vm v).start size then .error .ENOMEM
      else if l = [] then .ok (none, (r.vm v).start) else r.behind (r.firstGap size (r.vm v).stop l)) := by
  obtain ⟨q, hs⟩ := h.linked
  have hp := h.sorted
  have hle := h.length
  unfold vmFindGap
  split
  · rfl
  · cases l with
    | nil =>
      rw [hs.2]
      rfl
    | cons i l =>
      obtain ⟨hi, -, hs⟩ := hs
      rw [hi]
      cases hn : r.numNodes with
      | zero => simp [hn] at hle
      | succ fuel =>
        dsimp only
        rw [findGapFrom, if_pos (endsBefore_next hs hp), if_neg (cons_ne_nil i l)]
        exact findGapFrom_eq hs hp.of_cons (by simpa [hn] using hle)

theorem firstGap_some {stop k : Nat} (h : r.firstGap size stop l = some k) :
    ∃ l₁ l₂, l = l₁ ++ k :: l₂ ∧ add32 (r.span k).stop size ≤ r.gapEnd stop l₂.head? := by
  induction l with
  | nil => cases h
  | cons i l ih =>
    rw [firstGap] at h
    split at h
    · next hle =>
      cases h
      exact ⟨[], l, rfl, hle⟩
    · obtain ⟨l₁, l₂, rfl, hle⟩ := ih h
      exact ⟨i :: l₁, l₂, rfl, hle⟩

theorem RegInv.vmFindGap_ok (h : RegInv g r L H) (hv : r.Live v) (hf : vmFindGap r v size = .ok (.ok (c, a))) :
    (L v = [] ∧ c = none ∧ a = (r.vm v).start ∧ add32 a size ≤ (r.vm v).stop) ∨
      ∃ l₁ k l₂, L v = l₁ ++ k :: l₂ ∧ c = some k ∧ a = (r.span k).stop ∧
        add32 a size ≤ r.gapEnd (r.vm v).stop l₂.head? := by
  have hf := Except.ok.inj ((h.listed hv).vmFindGap_eq.symm.trans hf)
  split at hf
  · cases hf
  · next hle =>
    split at hf
    · next hnil =>
      cases hf
      exact .inl ⟨hnil, rfl, rfl, by omega⟩
    · cases hk : r.firstGap size (r.vm v).stop (L v) with
      | none =>
        rw [hk] at hf
        cases hf
      | some k =>
        rw [hk] at hf
        cases hf
        obtain ⟨l₁, l₂, hl, hle⟩ := firstGap_some hk
        exact .inr ⟨l₁, k, l₂, hl, rfl, rfl, hle⟩

def Regions.Ends (r : Regions) (v : Nat) (l : List Nat) (b : Nat) : Prop :=
  b = (r.vm v).start ∨ ∃ k ∈ l, b = (r.span k).stop

theorem RegInv.vmFindGap_ends (h : RegInv g r L H) (hv : r.Live v) (hf : vmFindGap r v size = .ok (.ok (c, a))) :
    r.Ends v (L v) a := by
  obtain ⟨-, -, rfl, -⟩ | ⟨l₁, k, l₂, hl, -, rfl, -⟩ := h.vmFindGap_ok hv hf
  · exact .inl rfl
  · exact .inr ⟨k, by simp [hl], rfl⟩

theorem findSlotFrom_ok {b : Nat} {p p' : Option Nat} (hs : r.node.Seg p' hd l q none)
    (h : findSlotFrom r b size fuel p hd = .ok (.ok (c, a))) : a = b ∧ (c = p ∨ ∃ k ∈ l, c = some k) := by
  have hsl : ∀ p, slotAfter r b size p = .ok (c, a) → a = b ∧ c = p := by
    intro p hp
    unfold slotAfter at hp
    split at hp
    · split at hp
      · cases hp
      · simp only [Except.ok.injEq, Prod.mk.injEq] at hp
        exact ⟨hp.2.symm, hp.1.symm⟩
    · simp only [Except.ok.injEq, Prod.mk.injEq] at hp
      exact ⟨hp.2.symm, hp.1.symm⟩
  induction l generalizing fuel p p' hd with
  | nil =>
    obtain ⟨-, rfl⟩ := hs
    have : slotAfter r b size p = .ok (c, a) := by
      cases fuel <;> simpa [findSlotFrom] using h
    exact (hsl p this).imp_right .inl
  | cons j l ih =>
    obtain ⟨rfl, -, hs⟩ := hs
    cases fuel with
    | zero => simp [findSlotFrom] at h
    | succ fuel =>
      simp only [findSlotFrom] at h
      split at h
      · split at h
        · cases h
        · obtain ⟨ha, hc | ⟨k, hk, hc⟩⟩ := ih hs h
          · exact ⟨ha, .inr ⟨j, by simp, hc⟩⟩
          · exact ⟨ha, .inr ⟨k, .tail _ hk, hc⟩⟩
      · exact (hsl p (by simpa using h)).imp_right .inl

theorem RegInv.findSlot_ok {b : Nat} (h : RegInv g r L H) (hv : r.Live v)
    (hf : findSlot r v b size = .ok (.ok (c, a))) : a = b ∧ ∀ k, c = some k → k ∈ L v := by
  obtain ⟨q, hs⟩ := h.linked v hv
  obtain ⟨ha, rfl | ⟨k, hk, rfl⟩⟩ := findSlotFrom_ok hs hf
  · exact ⟨ha, by simp⟩
  · exact ⟨ha, fun k' hk' => by cases hk'; exact hk⟩

theorem RegInv.gap_spanOk (h : RegInv g r L H) (flags : Nat) (hv : r.Live v)
    (hf : vmFindGap r v size = .ok (.ok (c, a))) (hlt : a + size < 2 ^ 32) (hg : g ≤ size)
    (hsize : size % PAGE_SIZE = 0) : (∀ k, c = some k → k ∈ L v) ∧ SpanOk g (r.vm v) ⟨a, add32 a size, flags⟩ := by
  have hadd : add32 a size = a + size := mod_eq_of_lt hlt
  have hb : (r.vm v).start % PAGE_SIZE = 0 := by
    by_cases h0 : v = 0
    · rw [h0, h.kernel.2.1]
      rfl
    · rw [(h.user v hv h0).1]
      rfl
  have hal : ∀ b, b % PAGE_SIZE = 0 → (b + size) % PAGE_SIZE = 0 := by
    intro b hb
    rw [add_mod, hb, hsize]
    rfl
  rw [hadd]
  obtain ⟨-, rfl, rfl, hle⟩ | ⟨l₁, k, l₂, hl, rfl, rfl, hle⟩ := h.vmFindGap_ok hv hf
  · rw [hadd] at hle
    exact ⟨by simp, by simp only; omega, hb, hal _ hb, le_rfl, hle⟩
  · rw [hadd] at hle
    have hk := h.span v hv k (by simp [hl])
    refine ⟨by rintro _ ⟨⟩; simp [hl], by simp only; omega, hk.stopAligned, hal _ hk.stopAligned,
      by have := hk.le; have := hk.lower; simp only; omega, ?_⟩
    cases l₂ with
    | nil => exact hle
    | cons n l₂ =>
      have hn := h.span v hv n (by simp [hl])
      have : (r.span k).stop + size ≤ (r.span n).start := hle
      have := hn.le
      have := hn.upper
      simp only
      omega

end

/-! ## The slab cache -/

section
variable {g : Nat} {m m' : Machine} {L : Nat → List Nat} {H : List Nat} {r : Regions} {a x : Nat} {c : Option Nat}

theorem RegInv.addSlab {sp : Span} (h : RegInv g r L H) (hnil : r.freeList = []) :
    RegInv g (r.addSlab sp) L (r.numNodes :: H) := by
  have hne : ∀ v, r.Live v → ∀ i ∈ L v, (r.addSlab sp).node i = r.node i := by
    intro v hv i hi
    have := h.listLt v hv i hi
    exact update_of_ne (by omega) _ _
  have hsp : ∀ v, r.Live v → ∀ i ∈ L v, (r.addSlab sp).span i = r.span i := fun v hv i hi =>
    congrArg Cell.val (hne v hv i hi)
  have hfr : ∀ i, i ∈ (r.addSlab sp).freeList ↔ r.numNodes + 1 ≤ i ∧ i < r.numNodes + 1 + slabObjs := by
    intro i
    simp only [Regions.addSlab, mem_reverse, mem_range'_1]
  have hH : ∀ i ∈ H, i < r.numNodes := fun i hi => h.looseLt i (by simp [hi])
  refine { h with
    linked := fun v hv => (h.linked v hv).congr fun i hi => by rw [hne v hv i hi]; exact ⟨rfl, rfl⟩
    loose := ?_, apart := ?_, looseLt := ?_, listLt := ?_
    sorted := fun v hv => (h.sorted v hv).imp_of_mem fun hi hj hij => by rwa [hsp v hv _ hi, hsp v hv _ hj]
    span := fun v hv i hi => by rw [hsp v hv i hi]; exact h.span v hv i hi }
  · have hH' : H.Nodup := by
      have := h.loose
      rw [hnil, append_nil] at this
      exact this
    refine nodup_cons.mpr ⟨?_, nodup_append.mpr ⟨hH', ?_, ?_⟩⟩
    · intro hmem
      rcases mem_append.mp hmem with hi | hi
      · have := hH _ hi
        omega
      · have := (hfr _).mp hi
        omega
    · exact nodup_reverse.mpr nodup_range'
    · rintro i hi j hj rfl
      have := hH i hi
      have := (hfr i).mp hj
      omega
  · intro v hv i hi hi'
    have hlt := h.listLt v hv i hi
    rcases mem_cons.mp hi' with rfl | hi'
    · omega
    · rcases mem_append.mp hi' with hi' | hi'
      · exact h.apart v hv hi (by simp [hi'])
      · have := (hfr i).mp hi'
        omega
  · intro i hi
    show i < r.numNodes + 1 + slabObjs
    rcases mem_cons.mp hi with rfl | hi
    · omega
    · rcases mem_append.mp hi with hi | hi
      · have := hH i hi
        omega
      · exact ((hfr i).mp hi).2
  · intro v hv i hi
    have := h.listLt v hv i hi
    show i < r.numNodes + 1 + slabObjs
    omega

structure SlabStep (m : Machine) (L : Nat → List Nat) (m' : Machine) (L' : Nat → List Nat) : Prop where
  same : SameVms m.rg m'.rg
  current : m'.current = m.current
  span : ∀ i < m.rg.numNodes, m'.rg.span i = m.rg.span i
  sub : ∀ v, ∀ i ∈ L v, i ∈ L' v
  other : ∀ v, v ≠ 0 → L' v = L v
  grown : ∀ i ∈ L' 0, i ∈ L 0 ∨ ∃ b, m.rg.Ends 0 (L 0) b ∧ (m'.rg.span i).stop = b + PAGE_SIZE

theorem SlabStep.refl (m : Machine) (L : Nat → List Nat) (p : Paging) : SlabStep m L (m.setPg p) L :=
  ⟨.refl _, rfl, fun _ _ => rfl, fun _ _ hi => hi, fun _ _ => rfl, fun _ hi => .inl hi⟩

structure SameSpaces (m m' : Machine) : Prop where
  vms : SameVms m.rg m'.rg
  current : m'.current = m.current

theorem SameSpaces.refl (m : Machine) : SameSpaces m m := ⟨.refl _, rfl⟩

theorem SameSpaces.trans {m m' m'' : Machine} (h : SameSpaces m m') (h' : SameSpaces m' m'') : SameSpaces m m'' :=
  ⟨h.vms.trans h'.vms, h'.current.trans h.current⟩

theorem SlabStep.spaces {L' : Nat → List Nat} (h : SlabStep m L m' L') : SameSpaces m m' := ⟨h.same, h.current⟩

def Machine.shape (m : Machine) : Nat × (Nat → Nat) × (Nat → Bool) × Nat × Bool := m.pg.shape

theorem paging_gives {α : Type} {f : Nat → PagingProg α} (hf : ∀ d, Keeps Paging.shape (f d)) :
    Gives (paging f) m fun _ m' => ∃ p, p.shape = m.pg.shape ∧ m' = m.setPg p := by
  intro b m' hrun
  obtain ⟨p, hp, rfl⟩ := on_ok.mp hrun
  exact ⟨p, hf _ _ _ _ hp, rfl⟩

/-- `m'` comes from `m` by a function that keeps the lists; `H` is held. -/
def Kept (g : Nat) (m : Machine) (H : List Nat) (m' : Machine) : Prop :=
  ∃ L', RegInv g m'.rg L' H ∧ SameSpaces m m' ∧ m'.shape = m.shape

section
variable {m'' : Machine} {p : Paging} {q : Regions} {H' : List Nat}

theorem RegInv.kept (h : RegInv g m.rg L H) : Kept g m H m := ⟨L, h, .refl m, rfl⟩

theorem Kept.setPg (h : Kept g m H m') (hp : p.shape = m'.pg.shape) : Kept g m H (m'.setPg p) := by
  obtain ⟨L', h', hs, hsh⟩ := h
  exact ⟨L', h', ⟨hs.vms, hs.current⟩, hp.trans hsh⟩

theorem Kept.setRg (h : Kept g m H m') (hq : RegInv g q L H') (hs : SameVms m'.rg q) : Kept g m H' (m'.setRg q) := by
  obtain ⟨-, -, hs', hsh⟩ := h
  exact ⟨L, hq, ⟨hs'.vms.trans hs, hs'.current⟩, hsh⟩

theorem Kept.free (h : Kept g m (x :: H) m') : Kept g m H (m'.free x) := by
  obtain ⟨L', h', hs⟩ := h
  exact Kept.setRg ⟨L', h', hs⟩ (h'.loosen perm_middle) (.of_vm rfl rfl)

theorem RegInv.respan {i : Nat} {sp : Span} (h : RegInv g m.rg L H) (hp : p.shape = m.pg.shape)
    (h' : RegInv g (m.rg.setSpan i sp) L H) : Kept g m H ((m.setPg p).setRg (m.rg.setSpan i sp)) :=
  (h.kept.setPg hp).setRg h' setSpan_same

theorem Kept.trans (h : Kept g m H m') (h' : Kept g m' H' m'') : Kept g m H' m'' := by
  obtain ⟨-, -, hs, hsh⟩ := h
  obtain ⟨L'', h'', hs', hsh'⟩ := h'
  exact ⟨L'', h'', hs.trans hs', hsh'.trans hsh⟩

end

theorem addSlab_span {sp : Span} : (r.addSlab sp).span r.numNodes = sp := by
  simp [Regions.span, Regions.addSlab]

theorem RegInv.kernelGap_mem {size : Nat} (h : RegInv g r L H) (hgap : vmFindGap r 0 size = .ok (.ok (c, a))) :
    KERNEL_HEAP_START ≤ a ∧ a ≤ KERNEL_HEAP_END := by
  have hk := h.kernel
  obtain rfl | ⟨k, hk', rfl⟩ := h.vmFindGap_ends hk.1 hgap
  · rw [hk.2.1]
    decide
  · have hs := h.span 0 hk.1 k hk'
    have := hs.le
    have := hs.lower
    have := hs.upper
    omega

section
variable (h : RegInv g m.rg L H) (hg : g ≤ PAGE_SIZE)
include h hg

theorem EnsureOut.regInv {r : Except Errno Unit} (he : EnsureOut m r m') :
    ∃ L', RegInv g m'.rg L' H ∧ SlabStep m L m' L' ∧ m'.shape = m.shape := by
  cases he with
  | full | noGap => exact ⟨L, h, .refl m L m.pg, rfl⟩
  | noPage _ _ hp => exact ⟨L, h, .refl m L _, pageTableMapAnon_shape _ _ _ hp⟩
  | @grow c a p hnil hgap hp hf =>
    have hk := h.kernel
    have ha := (h.kernelGap_mem hgap).2
    have hlt : a + PAGE_SIZE < 2 ^ 32 := by
      simp only [KERNEL_HEAP_END, PAGE_SIZE] at *
      omega
    obtain ⟨hc, hok⟩ := h.gap_spanOk VM_RW hk.1 hgap hlt hg rfl
    obtain ⟨l, hins⟩ := exists_insertAt (x := m.rg.numNodes) hc
    have h' := (h.addSlab hnil).link hk.1 hins (by rw [addSlab_span]; exact hok) hf
    have hsa : SameVms m.rg (m.rg.addSlab (slabSpan a)) := .of_vm rfl rfl
    refine ⟨_, h', ⟨hsa.trans link_same, rfl, fun i hi => ?_, fun v i hi => ?_, fun v hv => update_of_ne hv _ _,
      fun i hi => ?_⟩, pageTableMapAnon_shape _ _ _ hp⟩
    · rw [setRg_rg, link_span]
      exact congrArg Cell.val (update_of_ne (Nat.ne_of_lt hi) _ _)
    · by_cases hv : v = 0
      · subst hv
        exact hins.mem.mpr (.inr hi)
      · rwa [update_of_ne hv]
    · rcases hins.mem.mp hi with rfl | hi
      · refine .inr ⟨a, h.vmFindGap_ends hk.1 hgap, ?_⟩
        rw [setRg_rg, link_span]
        exact (congrArg Span.stop addSlab_span).trans (Nat.mod_eq_of_lt hlt)
      · exact .inl hi

theorem slabCacheAlloc_error {e : Errno} (hs : slabCacheAlloc m = .ok (.error e, m')) : Kept g m H m' := by
  cases slabCacheAlloc_gives _ _ hs with
  | fail he =>
    obtain ⟨L', h', hst, hsh⟩ := EnsureOut.regInv h hg he
    exact ⟨L', h', hst.spaces, hsh⟩

theorem slabCacheAlloc_regInv (hs : slabCacheAlloc m = .ok (.ok x, m')) :
    ∃ L', RegInv g m'.rg L' (x :: H) ∧ SlabStep m L m' L' ∧ Kept g m (x :: H) m' := by
  cases slabCacheAlloc_gives _ _ hs with
  | @take m₁ _ rest he hl =>
    obtain ⟨L', h', hst, hsh⟩ := EnsureOut.regInv h hg he
    have h'' : RegInv g { m₁.rg with freeList := rest } L' (x :: H) := h'.loosen (by rw [hl]; exact perm_middle.symm)
    have hst' : SlabStep m L (m₁.setRg { m₁.rg with freeList := rest }) L' :=
      ⟨hst.same.trans (.of_vm rfl rfl), hst.current, hst.span, hst.sub, hst.other, hst.grown⟩
    exact ⟨L', h'', hst', L', h'', hst'.spaces, hsh⟩

end

end

section
variable {g v i a size newSize flags : Nat} {m : Machine} {L : Nat → List Nat} {H : List Nat}

theorem alignedAdd (ha : a % PAGE_SIZE = 0) (hsize : size % PAGE_SIZE = 0) : (a + size) % PAGE_SIZE = 0 := by
  rw [add_mod, ha, hsize]
  rfl

theorem aligned_lt {b : Nat} (ha : a % PAGE_SIZE = 0) (hb : b % PAGE_SIZE = 0) (hab : a < b) : a + PAGE_SIZE ≤ b := by
  simp only [PAGE_SIZE] at *
  omega

/-! ## Mapping -/

section
variable {place : Regions → Except Trap (Except Errno (Option Nat × Nat))} {map : Nat → MachineProg (Except Errno Unit)}
variable {r : Except Errno Nat} {m' : Machine}

theorem MapOut.kept {P : Nat → Prop} (ho : MapOut v size flags place map m r m') (h : RegInv g m.rg L H)
    (hg : g ≤ PAGE_SIZE) (hv : m.rg.Live v)
    (hmap : ∀ a m, Gives (map a) m fun _ m' => ∃ p, p.shape = m.pg.shape ∧ m' = m.setPg p)
    (hpl : ∀ {x m₁ L₁ c a}, RegInv g m₁.rg L₁ (x :: H) → SlabStep m L m₁ L₁ → place m₁.rg = .ok (.ok (c, a)) →
      (∀ k, c = some k → k ∈ L₁ v) ∧ SpanOk g (m₁.rg.vm v) ⟨a, add32 a size, flags⟩ ∧ P a) :
    Kept g m H m' ∧ ∀ a, r = .ok a → P a := by
  cases ho with
  | noNode hs => exact ⟨slabCacheAlloc_error h hg hs, nofun⟩
  | noPlace hs _ =>
    obtain ⟨L₁, h1, hst, hk⟩ := slabCacheAlloc_regInv h hg hs
    exact ⟨hk.free, nofun⟩
  | noMap hs _ hm =>
    obtain ⟨L₁, h1, hst, hk⟩ := slabCacheAlloc_regInv h hg hs
    obtain ⟨p, hp, rfl⟩ := hmap _ _ _ _ hm
    exact ⟨(hk.setPg hp).free, nofun⟩
  | @done m₁ m₂ x a c hs hr hm hf =>
    obtain ⟨L₁, h1, hst, hk⟩ := slabCacheAlloc_regInv h hg hs
    obtain ⟨p, hp, rfl⟩ := hmap _ _ _ _ hm
    obtain ⟨hc, hok, hP⟩ := hpl h1 hst hr
    obtain ⟨l, hins⟩ := exists_insertAt (x := x) hc
    refine ⟨(hk.setPg hp).setRg ((h1.setSpan_held (by simp)).link ((hst.same.live v).mpr hv) hins ?_ hf)
      (setSpan_same.trans link_same), fun b hb => ?_⟩
    · rw [setSpan_span, if_pos rfl]
      exact hok
    · cases hb
      exact hP

end

theorem mapIfRw_gives {f : Nat → Nat → PagingProg (Except Errno Unit)} (hf : ∀ d pf, Keeps Paging.shape (f d pf)) :
    Gives (mapIfRw flags f) m fun _ m' => ∃ p, p.shape = m.pg.shape ∧ m' = m.setPg p :=
  .ite (fun _ => .pteFlags fun _ => paging_gives fun _ => hf _ _) fun _ => .pure ⟨m.pg, rfl, rfl⟩

theorem allocAt_kept (h : RegInv g m.rg L H) (hg : g ≤ PAGE_SIZE) (hv : m.rg.Live v)
    (hok : SpanOk g (m.rg.vm v) ⟨a, add32 a size, flags⟩) : Gives (allocAt v a size flags) m fun _ m' => Kept g m H m' := by
  intro r m' hrun
  refine ((mapRegion_gives r m' hrun).kept (P := fun _ => True) h hg hv
    (fun _ _ => mapIfRw_gives fun _ _ => pageTableMapAnon_shape) fun h1 hst hpl => ?_).1
  obtain ⟨rfl, hc⟩ := h1.findSlot_ok ((hst.same.live v).mpr hv) hpl
  exact ⟨hc, (hst.same.spanOk v).mpr hok, trivial⟩

section
variable (h : RegInv g m.rg L H) (hg : g ≤ PAGE_SIZE) (hv : m.rg.Live v)
  (hfit : ∀ {m₁ L₁ H₁ c a}, RegInv g m₁.rg L₁ H₁ → SlabStep m L m₁ L₁ → vmFindGap m₁.rg v size = .ok (.ok (c, a)) →
    a + size < 2 ^ 32)
  (hpos : 0 < size) (hsize : size % PAGE_SIZE = 0)
include h hg hv hfit hpos hsize

theorem MapOut.gap_kept {map : Nat → MachineProg (Except Errno Unit)} {r : Except Errno Nat} {m' : Machine}
    (ho : MapOut v size flags (vmFindGap · v size) map m r m')
    (hmap : ∀ a m, Gives (map a) m fun _ m' => ∃ p, p.shape = m.pg.shape ∧ m' = m.setPg p) : Kept g m H m' ∧
      ∀ a, r = .ok a → a + size < 2 ^ 32 ∧ SpanOk g (m.rg.vm v) ⟨a, add32 a size, flags⟩ := by
  refine ho.kept h hg hv hmap fun h1 hst hpl => ?_
  have hgs := hg.trans (by simpa using aligned_lt (zero_mod _) hsize hpos)
  have hlt := hfit h1 hst hpl
  obtain ⟨hc, hok⟩ := h1.gap_spanOk flags ((hst.same.live v).mpr hv) hpl hlt hgs hsize
  exact ⟨hc, hok, hlt, (hst.same.spanOk v).mp hok⟩

theorem alloc_kept : Gives (alloc v size flags) m fun r m' => Kept g m H m' ∧
    ∀ a, r = .ok a → a + size < 2 ^ 32 ∧ SpanOk g (m.rg.vm v) ⟨a, add32 a size, flags⟩ := fun r m' hrun =>
  (mapRegion_gives r m' hrun).gap_kept h hg hv hfit hpos hsize fun _ _ => mapIfRw_gives fun _ _ => pageTableMapAnon_shape

end

/-! ## Splitting -/

theorem RegInv.cut {x : Nat} {m₁ : Machine} {L₁ : Nat → List Nat} {A B : Span} (h : RegInv g m.rg L H)
    (h1 : RegInv g m₁.rg L₁ (x :: H)) (hst : SlabStep m L m₁ L₁)
    (hf : ((m₁.rg.setSpan x B).setSpan i A).Fits v (some i) x) (hv : m.rg.Live v) (hi : i ∈ L v)
    (hA : SpanOk g (m.rg.vm v) A) (hB : SpanOk g (m.rg.vm v) B) (hlo : (m.rg.span i).start ≤ A.start)
    (hup : A.stop ≤ (m.rg.span i).stop) :
    ∃ L', RegInv g (((m₁.rg.setSpan x B).setSpan i A).link v (some i) x) L' H := by
  have hv1 := (hst.same.live v).mpr hv
  have hi1 := hst.sub v i hi
  have hx : i ≠ x := by
    rintro rfl
    exact h1.apart v hv1 hi1 (by simp)
  have hsi : (m₁.rg.setSpan x B).span i = m.rg.span i := by
    rw [setSpan_span, if_neg hx, hst.span i (h.listLt v hv i hi)]
  have hsx : ((m₁.rg.setSpan x B).setSpan i A).span x = B := by
    rw [setSpan_span, if_neg (Ne.symm hx), setSpan_span, if_pos rfl]
  have h2 : RegInv g ((m₁.rg.setSpan x B).setSpan i A) L₁ (x :: H) :=
    (h1.setSpan_held (by simp)).setSpan_within hv1 hi1 ((hst.same.spanOk v).mpr hA) (by rwa [hsi]) (by rwa [hsi])
  obtain ⟨l, hins⟩ := exists_insertAt (x := x) (l := L₁ v) (c := some i) (by rintro _ ⟨⟩; exact hi1)
  exact ⟨_, h2.link hv1 hins (by rw [hsx]; exact (hst.same.spanOk v).mpr hB) hf⟩

section
variable {r : Except Errno Unit} {m' : Machine}

theorem SplitOut.kept (ho : SplitOut v i a size flags m r m') (h : RegInv g m.rg L H) (hg : g ≤ PAGE_SIZE)
    (hv : m.rg.Live v) (hi : i ∈ L v) (hle : (m.rg.span i).start ≤ a) (hlt : a + size < 2 ^ 32)
    (hso : add32 a size ≤ (m.rg.span i).stop) (hpos : 0 < size) (ha : a % PAGE_SIZE = 0)
    (hsize : size % PAGE_SIZE = 0) : Kept g m H m' := by
  have hadd : add32 a size = a + size := mod_eq_of_lt hlt
  have hsi := h.span v hv i hi
  have hend := alignedAdd ha hsize
  have hgs : PAGE_SIZE ≤ size := by simpa using aligned_lt (zero_mod _) hsize hpos
  rw [hadd] at hso
  have hlow := hsi.lower
  have hup := hsi.upper
  cases ho with
  | whole =>
    exact h.kept.setRg (h.setSpan_within hv hi ⟨hsi.le, hsi.startAligned, hsi.stopAligned, hlow, hup⟩ le_rfl le_rfl)
      setSpan_same
  | noNode hs => exact slabCacheAlloc_error h hg hs
  | noRight hs hs' =>
    obtain ⟨L₁, h1, hse, hk⟩ := slabCacheAlloc_regInv h hg hs
    exact (hk.trans (slabCacheAlloc_error h1 hg hs')).free
  | @left m₁ x hst hne hs hf =>
    obtain ⟨L₁, h1, hse, hk⟩ := slabCacheAlloc_regInv h hg hs
    rw [hadd] at hne hf ⊢
    have hlt' := aligned_lt hend hsi.stopAligned (lt_of_le_of_ne hso hne)
    obtain ⟨L', h2⟩ := h.cut h1 hse hf hv hi ⟨by simp only; omega, ha, hend, by simp only; omega, by simp only; omega⟩
      ⟨by simp only; omega, hend, hsi.stopAligned, by simp only; omega, hup⟩ hle hso
    exact hk.setRg h2 (setSpan_same.trans (setSpan_same.trans link_same))
  | @right m₁ x hst hne hs hf =>
    obtain ⟨L₁, h1, hse, hk⟩ := slabCacheAlloc_regInv h hg hs
    have hlt' := aligned_lt hsi.startAligned ha (lt_of_le_of_ne hle hst)
    obtain ⟨L', h2⟩ := h.cut h1 hse hf hv hi
      ⟨by simp only; omega, hsi.startAligned, ha, hlow, by simp only; omega⟩
      ⟨by simp only; omega, ha, hsi.stopAligned, by simp only; omega, hup⟩ le_rfl (by simp only; omega)
    exact hk.setRg h2 (setSpan_same.trans (setSpan_same.trans link_same))
  | @middle m₁ m₂ x y q q' hst hne hs hs' hq hf hq' hf' =>
    subst hq'
    rw [hadd] at hne hq
    have hlt1 := aligned_lt hsi.startAligned ha (lt_of_le_of_ne hle hst)
    have hlt2 := aligned_lt hend hsi.stopAligned (lt_of_le_of_ne hso hne)
    obtain ⟨L₁, h1, hst1, hk1⟩ := slabCacheAlloc_regInv h hg hs
    obtain ⟨L₂, h2, hst2, hk2⟩ := slabCacheAlloc_regInv h1 hg hs'
    have hsa := hst1.same.trans hst2.same
    have hv2 : m₂.rg.Live v := (hsa.live v).mpr hv
    have hi1 := hst1.sub v i hi
    have hi2 := hst2.sub v i hi1
    have hsp : m₂.rg.span i = m.rg.span i :=
      (hst2.span i (h1.listLt v ((hst1.same.live v).mpr hv) i hi1)).trans (hst1.span i (h.listLt v hv i hi))
    have hxi : i ≠ x := by rintro rfl; exact h2.apart v hv2 hi2 (by simp)
    have hyi : i ≠ y := by rintro rfl; exact h2.apart v hv2 hi2 (by simp)
    have hxy : x ≠ y := by
      have := h2.loose
      simp only [cons_append, nodup_cons, mem_cons, not_or] at this
      exact Ne.symm this.1.1
    -- both new nodes are written while they are still held
    have h3 : RegInv g q L₂ (x :: y :: H) := by
      rw [hq]
      refine RegInv.setSpan_within (v := v) ?_ hv2 hi2
        ((hsa.spanOk v).mpr ⟨by simp only; omega, hsi.startAligned, ha, hlow, by simp only; omega⟩) ?_ ?_
      · have : RegInv g m₂.rg L₂ (x :: y :: H) := h2.loosen (.swap ..)
        exact (this.setSpan_held (by simp)).setSpan_held (by simp)
      · rw [setSpan_span, if_neg hyi, setSpan_span, if_neg hxi, hsp]
      · rw [setSpan_span, if_neg hyi, setSpan_span, if_neg hxi, hsp]
        simp only
        omega
    have hsa' : SameVms m₂.rg q := by
      rw [hq]
      exact setSpan_same.trans (setSpan_same.trans setSpan_same)
    have hqx : q.span x = ⟨a, a + size, flags⟩ := by
      rw [hq, setSpan_span, if_neg (Ne.symm hxi), setSpan_span, if_neg hxy, setSpan_span, if_pos rfl]
    have hqy : q.span y = ⟨a + size, (m.rg.span i).stop, (m.rg.span i).flags⟩ := by
      rw [hq, setSpan_span, if_neg (Ne.symm hyi), setSpan_span, if_pos rfl]
    have hall := hsa.trans hsa'
    have hvq : q.Live v := (hsa'.live v).mpr hv2
    obtain ⟨l, hins⟩ := exists_insertAt (x := x) (l := L₂ v) (c := some i) (by rintro _ ⟨⟩; exact hi2)
    have h4 : RegInv g (q.link v (some i) x) (update L₂ v l) (y :: H) := by
      refine h3.link hvq hins ?_ hf
      rw [hqx]
      exact (hall.spanOk v).mpr ⟨by simp only; omega, ha, hend, by simp only; omega, by simp only; omega⟩
    obtain ⟨l', hins'⟩ := exists_insertAt (x := y) (l := update L₂ v l v) (c := some x)
      (by rintro _ ⟨⟩; rw [update_self]; exact hins.mem.mpr (.inl rfl))
    refine (hk1.trans hk2).setRg (h4.link ((link_same.live v).mpr hvq) hins' ?_ hf')
      (hsa'.trans (link_same.trans link_same))
    rw [link_span, hqy]
    exact ((hall.trans link_same).spanOk v).mpr ⟨by simp only; omega, hend, hsi.stopAligned, by simp only; omega, hup⟩

theorem SetFlagsOut.kept (ho : SetFlagsOut v a size flags m r m') (h : RegInv g m.rg L H) (hg : g ≤ PAGE_SIZE)
    (hv : m.rg.Live v) (hlt : a + size < 2 ^ 32) (hpos : 0 < size) (ha : a % PAGE_SIZE = 0)
    (hsize : size % PAGE_SIZE = 0) : Kept g m H m' := by
  have hsp {i : Nat} {r : Except Errno Unit} {m₁ : Machine} (hr : vmFindRegion m.rg v a = .ok (some i))
      (hle : add32 a size ≤ (m.rg.span i).stop) (hs : SplitOut v i a size flags m r m₁) : Kept g m H m₁ := by
    obtain ⟨hi, hst, -⟩ := h.vmFindRegion_ok hv hr
    exact hs.kept h hg hv hi hst hlt hle hpos ha hsize
  cases ho with
  | refused => exact h.kept
  | noSplit hr hle hs => exact hsp hr hle hs
  | unmapped hr hle hs _ _ hp => exact (hsp hr hle hs).setPg (pageTableUnmap_shape _ _ _ hp)
  | changed hr hle hs _ _ hp => exact (hsp hr hle hs).setPg (pageTableSetFlags_shape _ _ _ hp)

end

/-! ## Mapping a mapped range -/

theorem VirtOut.kept {src : Nat} {r : Except Errno Nat} {m' : Machine} (ho : VirtOut v src size flags m r m')
    (h : RegInv g m.rg L H) (hg : g ≤ PAGE_SIZE) (hv : m.rg.Live v)
    (hfit : ∀ {m₁ L₁ H₁ c a}, RegInv g m₁.rg L₁ H₁ → SlabStep m L m₁ L₁ → vmFindGap m₁.rg v size = .ok (.ok (c, a)) →
      a + size < 2 ^ 32) (hpos : 0 < size) (hsize : size % PAGE_SIZE = 0) : Kept g m H m' := by
  have hco {a : Nat} {m₁ m₂ : Machine} (hc : copyPages a src size m₁ = .ok ((), m₂)) :
      ∃ p, p.shape = m₁.pg.shape ∧ m₂ = m₁.setPg p := paging_gives (fun _ => .forUp (fun _ => copyPage_shape) _ _) _ _ hc
  cases ho with
  | noAlloc _ ha => exact (alloc_kept h hg hv hfit hpos hsize _ _ ha).1
  | writable _ _ ha hc =>
    obtain ⟨p, hp, rfl⟩ := hco hc
    exact (alloc_kept h hg hv hfit hpos hsize _ _ ha).1.setPg hp
  | @readOnly a m₁ _ _ _ _ _ ha hc hf =>
    obtain ⟨p, hp, rfl⟩ := hco hc
    obtain ⟨hk, ha⟩ := alloc_kept h hg hv hfit hpos hsize _ _ ha
    obtain ⟨hlt, hok⟩ := ha a rfl
    have ⟨L₁, h1, hs, _⟩ := hk
    have h1' : RegInv g (m₁.setPg p).rg L₁ H := h1
    exact (hk.setPg hp).trans ((setFlags_gives _ _ hf).kept h1' hg ((hs.vms.live v).mpr hv) hlt hpos hok.startAligned hsize)
  | shared _ _ hm =>
    exact (hm.gap_kept h hg hv hfit hpos hsize fun _ _ => .pteFlags fun _ => paging_gives fun _ =>
      pageTableShallowCopy_shape).1

/-! ## Resizing -/

theorem RegInv.vm_stop_lt {r : Regions} (h : RegInv g r L H) (hv : r.Live v) : (r.vm v).stop < 2 ^ 32 := by
  by_cases h0 : v = 0
  · rw [h0, h.kernel.2.2]
    decide
  · rw [(h.user v hv h0).2]
    decide

theorem sub32_eq {a b : Nat} (hab : b ≤ a) (ha : a < 2 ^ 32) : sub32 a b = a - b := by
  unfold sub32
  omega

theorem setSpan_unlink {r : Regions} {sp : Span} : (r.setSpan i sp).unlink v i = (r.unlink v i).setSpan i sp := by
  simp only [unlink, setSpan, Heap.setVal_remove, setVm]

theorem mapTail_shape {d pf : Nat} : Keeps Paging.shape (mapTail flags d a size pf) :=
  .ite pageTableMapAnon_shape (.pure _)

section
variable {r : Except Errno Nat} {m' : Machine}

theorem MoveOut.kept {pf : Nat} (ho : MoveOut v i newSize pf m r m') (h : RegInv g m.rg L H) (hg : g ≤ PAGE_SIZE)
    (hv : m.rg.Live v) (hi : i ∈ L v)
    (hne : (m.rg.span i).start < (m.rg.span i).stop) (hlt : (m.rg.span i).start + newSize < 2 ^ 32)
    (hnx : m.rg.endsBefore (add32 (m.rg.span i).start newSize + 1) (m.rg.node i).next = false)
    (hgap : ∀ c b, vmFindGap m.rg v newSize = .ok (.ok (c, b)) → b + newSize < 2 ^ 32) (hpos : 0 < newSize)
    (hsize : newSize % PAGE_SIZE = 0) : Kept g m H m' := by
  cases ho with
  | noGap => exact h.kept
  | noCopy _ hp => exact h.kept.setPg (pageTableShallowCopy_shape _ _ _ hp)
  | noExtend _ _ hp1 hp2 hp3 =>
    exact h.kept.setPg ((pageTableUnmap_shape _ _ _ hp3).trans ((mapTail_shape _ _ _ hp2).trans
      (pageTableShallowCopy_shape _ _ _ hp1)))
  | @done c b old p₁ p₂ p₃ q hf _ hp1 hp2 hp3 hq hfit =>
    have hgs : PAGE_SIZE ≤ newSize := by simpa using aligned_lt (zero_mod _) hsize hpos
    obtain ⟨-, hok⟩ := h.gap_spanOk (m.rg.span i).flags hv hf (hgap c b hf) (by omega) hsize
    obtain ⟨l₁, l₂, hl⟩ := append_of_mem hi
    have hadd : add32 b newSize = b + newSize := mod_eq_of_lt (hgap c b hf)
    -- the gap is not the one behind the region itself
    have hcur : ∀ k, c = some k → k ∈ l₁ ++ l₂ := by
      rintro k rfl
      obtain ⟨-, hn, -⟩ | ⟨k₁, k', k₂, hk, hn, rfl, hle⟩ := h.vmFindGap_ok hv hf
      · cases hn
      cases hn
      have hk' : k ∈ L v := by simp [hk]
      rw [hl] at hk'
      by_cases hki : k = i
      · subst hki
        have hlk := h.linked v hv
        rw [hk] at hlk
        rw [hlk.next, show add32 (m.rg.span k).start newSize = (m.rg.span k).start + newSize from
          mod_eq_of_lt hlt] at hnx
        cases k₂ with
        | nil => exact absurd rfl (ne_true_of_eq_false hnx)
        | cons n k₂ =>
          simp only [head?_cons, endsBefore, gapEnd, decide_eq_false_iff_not] at hnx hle
          omega
      · simp only [mem_append, mem_cons] at hk' ⊢
        tauto
    obtain ⟨l, hins⟩ := exists_insertAt (x := i) (l := update L v (l₁ ++ l₂) v) (c := c)
      (by rw [update_self]; exact hcur)
    rw [setSpan_unlink] at hq
    subst hq
    have hsa : SameVms m.rg ((m.rg.unlink v i).setSpan i ⟨b, add32 b newSize, (m.rg.span i).flags⟩) :=
      unlink_same.trans setSpan_same
    have h2 : RegInv g ((m.rg.unlink v i).setSpan i ⟨b, add32 b newSize, (m.rg.span i).flags⟩) _ (i :: H) :=
      (h.unlink hv hl).setSpan_held (by simp)
    have hsh := (pageTableUnmap_shape _ _ _ hp3).trans ((mapTail_shape _ _ _ hp2).trans
      (pageTableShallowCopy_shape _ _ _ hp1))
    refine (h.kept.setPg hsh).setRg (h2.link ((hsa.live v).mpr hv) hins ?_ hfit) (hsa.trans link_same)
    rw [setSpan_span, if_pos rfl]
    exact (hsa.spanOk v).mpr hok

theorem ResizeOut.kept (ho : ResizeOut v a newSize m r m') (h : RegInv g m.rg L H) (hg : g ≤ PAGE_SIZE)
    (hv : m.rg.Live v) (hlt : a + newSize < 2 ^ 32)
    (hend : ∀ i ∈ L v, (m.rg.span i).start = a → (m.rg.node i).next = none → a + newSize ≤ (m.rg.vm v).stop)
    (hgap : ∀ c b, vmFindGap m.rg v newSize = .ok (.ok (c, b)) → b + newSize < 2 ^ 32) (hpos : 0 < newSize)
    (ha : a % PAGE_SIZE = 0) (hsize : newSize % PAGE_SIZE = 0) : Kept g m H m' := by
  have hadd : add32 a newSize = a + newSize := mod_eq_of_lt hlt
  have hgs : PAGE_SIZE ≤ newSize := by simpa using aligned_lt (zero_mod _) hsize hpos
  have hal := alignedAdd ha hsize
  cases ho with
  | refused => exact h.kept
  | noGrow _ _ _ _ _ hp => exact h.kept.setPg (mapTail_shape _ _ _ hp)
  | @shrink i p hr hst hlt' hp =>
    obtain ⟨hi, -, hso⟩ := h.vmFindRegion_ok hv hr
    have hsi := h.span v hv i hi
    have hmax := h.vm_stop_lt hv
    have hlow := hsi.lower
    have hup := hsi.upper
    rw [sub32_eq (by omega) (by omega)] at hlt'
    rw [hadd]
    exact h.respan (pageTableUnmap_shape _ _ _ hp) (h.setSpan_within hv hi
      ⟨by simp only; omega, ha, hal, by simp only; omega, by simp only; omega⟩ (by simp only; omega) (by simp only; omega))
  | @grow i old p hr hst _ _ _ hnx hp =>
    obtain ⟨hi, -, hso⟩ := h.vmFindRegion_ok hv hr
    have hsi := h.span v hv i hi
    have hlow := hsi.lower
    obtain ⟨l₁, l₂, hl⟩ := append_of_mem hi
    have hlk := h.linked v hv
    have hs := h.sorted v hv
    rw [hl] at hlk hs
    simp only [pairwise_append, pairwise_cons, mem_cons] at hs
    rw [hadd, hlk.next] at hnx
    have h2 : ∀ j ∈ l₂, a + newSize ≤ (m.rg.span j).start := fun j hj =>
      (le_succ _).trans (h.le_start_of_head hv hs.2.1.2 (fun k hk => by simp [hl, hk]) hnx j hj)
    have hup : a + newSize ≤ (m.rg.vm v).stop := by
      cases l₂ with
      | nil => exact hend i hi hst hlk.next
      | cons n l₂ =>
        have hn := h.span v hv n (by simp [hl])
        have := h2 n (by simp)
        have := hn.le
        have := hn.upper
        omega
    rw [hadd]
    refine h.respan (mapTail_shape _ _ _ hp) (h.setSpan_mem hv hl
      ⟨by simp only; omega, ha, hal, by simp only; omega, hup⟩ (fun j hj => ?_) h2)
    rw [← hst]
    exact hs.2.2 j hj i (.inl rfl)
  | move hr hst _ _ hnx hm =>
    obtain ⟨hi, -, hso⟩ := h.vmFindRegion_ok hv hr
    subst hst
    exact hm.kept h hg hv hi hso hlt hnx hgap hpos hsize

end

/-! ## Unmapping -/

theorem RegInv.release {p : Paging} (h : RegInv g m.rg L H) (hv : m.rg.Live v) (hi : i ∈ L v)
    (hp : p.shape = m.pg.shape) : Kept g m H (((m.setPg p).setRg (m.rg.unlink v i)).free i) := by
  obtain ⟨l₁, l₂, hl⟩ := append_of_mem hi
  exact ((h.kept.setPg hp).setRg (h.unlink hv hl) unlink_same).free

section
variable {r : Except Errno Unit} {m' : Machine}

theorem UnmapOut.kept (ho : UnmapOut v a size m r m') (h : RegInv g m.rg L H) (hg : g ≤ PAGE_SIZE) (hv : m.rg.Live v)
    (hlt : a + size < 2 ^ 32) (ha : a % PAGE_SIZE = 0) (hsize : size % PAGE_SIZE = 0) : Kept g m H m' := by
  have hadd : add32 a size = a + size := mod_eq_of_lt hlt
  have hend := alignedAdd ha hsize
  cases ho with
  | refused => exact h.kept
  | whole hr _ _ hp => exact h.release hv (h.vmFindRegion_ok hv hr).1 (pageTableUnmap_shape _ _ _ hp)
  | @front i p hr hst hso hp =>
    obtain ⟨hi, -, -⟩ := h.vmFindRegion_ok hv hr
    have hsi := h.span v hv i hi
    have hlow := hsi.lower
    rw [hadd] at hso ⊢
    have hlt' := aligned_lt hend hsi.stopAligned hso
    exact h.respan (pageTableUnmap_shape _ _ _ hp) (h.setSpan_within hv hi
      ⟨by simp only; omega, hend, hsi.stopAligned, by simp only; omega, hsi.upper⟩ (by simp only; omega) le_rfl)
  | @back i p hr hst hso hp =>
    obtain ⟨hi, hle, -⟩ := h.vmFindRegion_ok hv hr
    have hsi := h.span v hv i hi
    have hup := hsi.upper
    have hlt' := aligned_lt hsi.startAligned ha (lt_of_le_of_ne hle hst)
    rw [hadd] at hso
    rw [show sub32 (m.rg.span i).stop size = a by rw [← hso, sub32_eq (by omega) hlt]; omega]
    exact h.respan (pageTableUnmap_shape _ _ _ hp) (h.setSpan_within hv hi
      ⟨by simp only; omega, hsi.startAligned, ha, hsi.lower, by simp only; omega⟩ le_rfl (by simp only; omega))
  | noNode _ hs => exact slabCacheAlloc_error h hg hs
  | @middle i x m₁ p q hr hst hso hs hp hq hf =>
    obtain ⟨hi, hle, -⟩ := h.vmFindRegion_ok hv hr
    have hsi := h.span v hv i hi
    have hlow := hsi.lower
    have hup := hsi.upper
    obtain ⟨L₁, h1, hse, hk⟩ := slabCacheAlloc_regInv h hg hs
    subst hq
    rw [hadd] at hso hf ⊢
    have hlt1 := aligned_lt hsi.startAligned ha (lt_of_le_of_ne hle hst)
    have hlt2 := aligned_lt hend hsi.stopAligned hso
    obtain ⟨L', h2⟩ := h.cut h1 hse hf hv hi
      ⟨by simp only; omega, hsi.startAligned, ha, hlow, by simp only; omega⟩
      ⟨by simp only; omega, hend, hsi.stopAligned, by simp only; omega, hup⟩ le_rfl (by simp only; omega)
    exact (hk.setPg (pageTableUnmap_shape _ _ _ hp)).setRg h2 (setSpan_same.trans (setSpan_same.trans link_same))

theorem FreeOut.kept (ho : FreeOut a m r m') (h : RegInv g m.rg L H)
    (hli : ∀ v, m.Target (isKernelAddress a = true) v → m.rg.Live v) : Kept g m H m' := by
  cases ho with
  | refused => exact h.kept
  | @done v i p _ ht hr _ hp =>
    exact h.release (hli v ht) (h.vmFindRegion_ok (hli v ht) hr).1 (pageTableUnmap_shape _ _ _ hp)

end

end

end Yagura
