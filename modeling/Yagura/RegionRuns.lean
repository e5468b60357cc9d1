import Yagura.RegionSound
import Yagura.LifeSteps

/-!
# Region lists over whole runs

Creating, cloning and destroying address spaces keeps the region lists well
formed too, and so does every call of a run whose sums do not wrap.
-/

namespace Yagura

open Function List Nat Prog Regions

/-! ## The kernel heap -/

structure Regular (g : Nat) (m : Machine) (L : Nat → List Nat) (H : List Nat) : Prop where
  regs : RegInv g m.rg L H
  addr : ∀ v < m.rg.numVms, v ≠ 0 → isKernelAddress (m.rg.vm v).addr = true
  dir : ∀ v < m.rg.numVms, (m.rg.vm v).pageDirectory < m.pg.numDirs
  dirAddr : ∀ d < m.pg.numDirs, isKernelAddress (m.pg.dirAddr d) = true

section
variable {g : Nat} {m m' : Machine} {L L' : Nat → List Nat} {H H' : List Nat}

theorem isKernelAddress_iff {a : Nat} : isKernelAddress a = true ↔ KERNEL_VIRT_ADDR ≤ a := by
  unfold isKernelAddress
  rw [Bool.and_eq_true, decide_eq_true_iff, decide_eq_true_iff]
  unfold KERNEL_VIRT_ADDR
  omega

theorem Regular.same (h : Regular g m L H) (h' : RegInv g m'.rg L' H') (hv : SameVms m.rg m'.rg)
    (hp : m'.shape = m.shape) : Regular g m' L' H' := by
  simp only [Machine.shape, Paging.shape, Prod.mk.injEq] at hp
  obtain ⟨-, har, -, hnum, -⟩ := hp
  refine ⟨h', fun v hlt h0 => ?_, fun v hlt => ?_, fun d hlt => ?_⟩
  · rw [hv.addr]
    exact h.addr v (hv.numVms ▸ hlt) h0
  · rw [hv.pageDirectory, hnum]
    exact h.dir v (hv.numVms ▸ hlt)
  · rw [har]
    exact h.dirAddr d (hnum ▸ hlt)

theorem Regular.kept (h : Regular g m L H) (hk : Kept g m H' m') : ∃ L', Regular g m' L' H' := by
  obtain ⟨L', h', hs, hp⟩ := hk
  exact ⟨L', h.same h' hs.vms hp⟩

theorem roundUp_small {size : Nat} (hpos : 0 < size) (hle : size ≤ PAGE_SIZE) : roundUp size = PAGE_SIZE := by
  simp only [roundUp, roundDown, add32, PAGE_SIZE] at *
  omega

theorem kmalloc_gives {size : Nat} (h : RegInv g m.rg L H) (hg : g ≤ PAGE_SIZE) (hpos : 0 < size)
    (hle : size ≤ PAGE_SIZE) :
    Gives (kmalloc size) m fun r m' => Kept g m H m' ∧ ∀ a, r = some a → isKernelAddress a = true := by
  have hk := h.kernel
  refine .bindOr (P := fun r m' => Kept g m H m' ∧ ∀ a, r = .ok a → isKernelAddress a = true)
    (.get <| .ite (fun _ => .pure ⟨h.kept, nofun⟩) fun _ => .ite (fun _ => .pure ⟨h.kept, nofun⟩) fun _ =>
      .vmForFlags fun v hv => ?_) (fun _ _ hk => .pure ⟨hk.1, nofun⟩) fun a _ hk => .pure ⟨hk.1, ?_⟩
  · obtain ⟨-, rfl⟩ | ⟨hn, -⟩ := hv
    · rw [roundUp_small hpos hle]
      intro r m' hrun
      obtain ⟨hk', hr⟩ := alloc_kept h hg hk.1 (fun h1 _ hgap => by
        have := (h1.kernelGap_mem hgap).2
        simp only [KERNEL_HEAP_END, PAGE_SIZE] at *
        omega) (by decide) rfl r m' hrun
      refine ⟨hk', fun a ha => isKernelAddress_iff.mpr (le_trans ?_ (hr a ha).2.lower)⟩
      rw [hk.2.1]
      decide
    · exact absurd rfl hn
  · rintro _ ⟨⟩
    exact hk.2 a rfl

theorem kfree_gives {a : Nat} (h : RegInv g m.rg L H) (ha : isKernelAddress a = true) :
    Gives (kfree a) m fun _ m' => Kept g m H m' := by
  refine .ite (fun _ => .pure h.kept) fun _ => .bind vmFree_gives fun _ _ ho _ _ hrun => (ensure_ok.mp hrun).2 ▸
    ho.kept h fun v ht => ?_
  obtain ⟨-, rfl⟩ | ⟨hn, -⟩ := ht
  · exact h.kernel.1
  · exact absurd ha hn

end

/-! ## Vms that come and go -/

section
variable {g v : Nat} {r : Regions} {L : Nat → List Nat} {H : List Nat} {u : Vm}

theorem RegInv.setVm (h : RegInv g r L H) (h0 : v ≠ 0) (hr : u.regions = (r.vm v).regions)
    (hs : u.start = (r.vm v).start) (he : u.stop = (r.vm v).stop) (hc : 0 < u.refCount → 0 < (r.vm v).refCount) :
    RegInv g (r.setVm v u) L H := by
  have hvm : ∀ w, ((r.setVm v u).vm w).regions = (r.vm w).regions ∧ ((r.setVm v u).vm w).start = (r.vm w).start ∧
      ((r.setVm v u).vm w).stop = (r.vm w).stop := by
    intro w
    rw [setVm_vm]
    by_cases hw : w = v
    · subst hw
      rw [update_self]
      exact ⟨hr, hs, he⟩
    · rw [update_of_ne hw]
      exact ⟨rfl, rfl, rfl⟩
  have hli : ∀ w, (r.setVm v u).Live w → r.Live w := by
    rintro w ⟨hlt, hpos⟩
    refine ⟨hlt, ?_⟩
    rw [setVm_vm] at hpos
    by_cases hw : w = v
    · subst hw
      rw [update_self] at hpos
      exact hc hpos
    · rwa [update_of_ne hw] at hpos
  have hk : (r.setVm v u).vm 0 = r.vm 0 := by
    rw [setVm_vm, update_of_ne (Ne.symm h0)]
  refine ⟨fun w hw => ?_, fun w hw => h.nodup w (hli w hw), fun w w' hw hw' => h.disjoint w w' (hli w hw)
    (hli w' hw'), h.loose, fun w hw => h.apart w (hli w hw), h.looseLt, fun w hw => h.listLt w (hli w hw),
    fun w hw => h.sorted w (hli w hw), fun w hw i hi => ?_, ⟨⟨h.kernel.1.1, ?_⟩, ?_, ?_⟩, fun w hw => ?_⟩
  · rw [(hvm w).1]
    exact h.linked w (hli w hw)
  · obtain ⟨h1, h2, h3, h4, h5⟩ := h.span w (hli w hw) i hi
    exact ⟨h1, h2, h3, (hvm w).2.1.symm ▸ h4, (hvm w).2.2.symm ▸ h5⟩
  · rw [hk]
    exact h.kernel.1.2
  · rw [hk]
    exact h.kernel.2.1
  · rw [hk]
    exact h.kernel.2.2
  · rw [(hvm w).2.1, (hvm w).2.2]
    exact h.user w (hli w hw)

theorem RegInv.kill (h : RegInv g r L H) (h0 : v ≠ 0) (hv : r.Live v) (hr : u.regions = (r.vm v).regions)
    (hs : u.start = (r.vm v).start) (he : u.stop = (r.vm v).stop) (hc : u.refCount = 0) :
    RegInv g (r.setVm v u) L (L v ++ H) := by
  have h' : RegInv g (r.setVm v u) L H := h.setVm h0 hr hs he (by omega)
  have hne : ∀ w, (r.setVm v u).Live w → w ≠ v ∧ r.Live w := by
    rintro w ⟨hlt, hpos⟩
    rw [setVm_vm] at hpos
    by_cases hw : w = v
    · subst hw
      rw [update_self] at hpos
      omega
    · rw [update_of_ne hw] at hpos
      exact ⟨hw, hlt, hpos⟩
  refine { h' with loose := ?_, apart := ?_, looseLt := ?_ }
  · rw [append_assoc]
    exact nodup_append'.mpr ⟨h.nodup v hv, h.loose, h.apart v hv⟩
  · intro w hw
    obtain ⟨hwv, hw'⟩ := hne w hw
    rw [append_assoc]
    exact disjoint_append_right.mpr ⟨h.disjoint w v hw' hv hwv, h.apart w hw'⟩
  · intro i hi
    rw [append_assoc] at hi
    rcases mem_append.mp hi with hi | hi
    · exact h.listLt v hv i hi
    · exact h.looseLt i hi

theorem RegInv.addVm (h : RegInv g r L H) (hs : u.start = USER_START) (he : u.stop = KERNEL_VIRT_ADDR)
    (hr : u.regions = none) : RegInv g (r.addVm u) (update L r.numVms []) H := by
  have hpos : r.numVms ≠ 0 := by
    have := h.kernel.1.1
    omega
  have hold : ∀ w, w ≠ r.numVms → (r.addVm u).vm w = r.vm w ∧ update L r.numVms [] w = L w := fun w hw =>
    ⟨update_of_ne hw _ _, update_of_ne hw _ _⟩
  have hnew : (r.addVm u).vm r.numVms = u ∧ update L r.numVms [] r.numVms = [] :=
    ⟨update_self .., update_self ..⟩
  have hli : ∀ w, (r.addVm u).Live w → w = r.numVms ∨ (w ≠ r.numVms ∧ r.Live w) := by
    rintro w ⟨hlt, hc⟩
    by_cases hw : w = r.numVms
    · exact .inl hw
    · rw [(hold w hw).1] at hc
      have : w < r.numVms + 1 := hlt
      exact .inr ⟨hw, by omega, hc⟩
  have hmem : ∀ w, (r.addVm u).Live w → ∀ i ∈ update L r.numVms [] w, r.Live w ∧ w ≠ r.numVms ∧ i ∈ L w := by
    intro w hw i hi
    obtain rfl | ⟨hne, hw'⟩ := hli w hw
    · rw [hnew.2] at hi
      cases hi
    · rw [(hold w hne).2] at hi
      exact ⟨hw', hne, hi⟩
  refine ⟨fun w hw => ?_, fun w hw => ?_, fun w w' hw hw' hne i hi hi' => ?_, h.loose, fun w hw i hi hi' => ?_, h.looseLt,
    fun w hw i hi => ?_, fun w hw => ?_, fun w hw i hi => ?_, ?_, fun w hw h0 => ?_⟩
  · obtain rfl | ⟨hne, hw'⟩ := hli w hw
    · rw [hnew.1, hnew.2, hr]
      exact ⟨none, rfl, rfl⟩
    · rw [(hold w hne).1, (hold w hne).2]
      exact h.linked w hw'
  · obtain rfl | ⟨hne, hw'⟩ := hli w hw
    · rw [hnew.2]
      exact nodup_nil
    · rw [(hold w hne).2]
      exact h.nodup w hw'
  · obtain ⟨hv, -, hi⟩ := hmem w hw i hi
    obtain ⟨hv', -, hi'⟩ := hmem w' hw' i hi'
    exact h.disjoint w w' hv hv' hne hi hi'
  · obtain ⟨hv, -, hi⟩ := hmem w hw i hi
    exact h.apart w hv hi hi'
  · obtain ⟨hv, -, hi⟩ := hmem w hw i hi
    exact h.listLt w hv i hi
  · obtain rfl | ⟨hne, hw'⟩ := hli w hw
    · rw [hnew.2]
      exact List.Pairwise.nil
    · rw [(hold w hne).2]
      exact h.sorted w hw'
  · obtain ⟨hv, hne, hi⟩ := hmem w hw i hi
    rw [(hold w hne).1]
    exact h.span w hv i hi
  · rw [Regions.Live, (hold 0 (Ne.symm hpos)).1]
    exact ⟨⟨succ_pos _, h.kernel.1.2⟩, h.kernel.2⟩
  · obtain rfl | ⟨hne, hw'⟩ := hli w hw
    · rw [hnew.1]
      exact ⟨hs, he⟩
    · rw [(hold w hne).1]
      exact h.user w hw' h0

end

/-! ## Destroying -/

def Machine.CurrentLive (m : Machine) : Prop := ∀ v, m.current = some v → m.rg.Live v

def Machine.Orderly (g : Nat) (H : List Nat) (m : Machine) : Prop := (∃ L, Regular g m L H) ∧ m.CurrentLive

section
variable {g v : Nat} {m m' : Machine} {L : Nat → List Nat} {H l : List Nat}

theorem SameSpaces.currentLive (h : SameSpaces m m') (hc : m.CurrentLive) : m'.CurrentLive := by
  intro v hv
  rw [h.current] at hv
  exact (h.vms.live v).mpr (hc v hv)

theorem Regular.orderly (h : Regular g m L H) (hcur : m.CurrentLive) (hk : Kept g m H m') : m'.Orderly g H := by
  obtain ⟨L', h', hs, hp⟩ := hk
  exact ⟨⟨L', h.same h' hs.vms hp⟩, hs.currentLive hcur⟩

theorem freeRegions_list {fuel : Nat} {hd p q : Option Nat} (hs : m.rg.node.Seg p hd l q none) :
    Gives (freeRegions fuel hd) m fun _ m' => m' = m.setRg { m.rg with freeList := l.reverse ++ m.rg.freeList } := by
  induction l generalizing fuel hd p m with
  | nil =>
    obtain ⟨-, rfl⟩ := hs
    have : freeRegions fuel none = pure () := by cases fuel <;> rfl
    rw [this]
    exact .pure rfl
  | cons i l ih =>
    obtain ⟨rfl, -, hs⟩ := hs
    cases fuel with
    | zero => exact .trap
    | succ fuel =>
      refine .get <| .free fun u m' hrun => ?_
      rw [ih (m := m.free i) hs u m' hrun]
      simp [Machine.free, Machine.setRg]

theorem Regular.setVm {u : Vm} {H' : List Nat} (h : Regular g m L H) (h' : RegInv g (m.rg.setVm v u) L H')
    (ha : u.addr = (m.rg.vm v).addr) (hd : u.pageDirectory < m.pg.numDirs) :
    Regular g (m.setRg (m.rg.setVm v u)) L H' where
  regs := h'
  addr w hw h0 := by
    rw [setRg_rg, setVm_vm]
    by_cases hwv : w = v
    · subst hwv
      rw [update_self, ha]
      exact h.addr w hw h0
    · rw [update_of_ne hwv]
      exact h.addr w hw h0
  dir w hw := by
    rw [setRg_rg, setVm_vm]
    by_cases hwv : w = v
    · subst hwv
      rwa [update_self]
    · rw [update_of_ne hwv]
      exact h.dir w hw
  dirAddr := h.dirAddr

theorem Regular.leave {d : Nat} (h : Regular g m L H) : Regular g ((m.setPg (m.pg.dropDir d)).enter v) L H :=
  ⟨h.regs, h.addr, h.dir, h.dirAddr⟩

theorem setVm_live {r : Regions} {u : Vm} {w : Nat} (hu : u.refCount = (r.vm v).refCount) :
    (r.setVm v u).Live w ↔ r.Live w := by
  unfold Regions.Live
  rw [setVm_vm]
  by_cases hw : w = v
  · rw [hw, update_self, hu]
    rfl
  · rw [update_of_ne hw]
    rfl

theorem DestroyOut.regular (ho : DestroyOut v m m') (h : Regular g m L (l ++ H)) (h0 : v ≠ 0) (hv : v < m.rg.numVms)
    (hlk : m.rg.node.Linked (m.rg.vm v).regions l) :
    (∃ L', Regular g m' L' H) ∧ (∀ w, m'.rg.Live w ↔ m.rg.Live w) ∧
      ∃ saved, m.current = some saved ∧ m'.current = some (if v = saved then 0 else saved) := by
  cases ho with
  | @run saved fl p₁ p₂ m₂ _ hc hf hpd hp1 hp2 hk hk' =>
    obtain ⟨q, hs⟩ := hlk
    have hfl := freeRegions_list (m := m.enter v) hs _ _ hf
    simp only [Machine.setRg, Machine.enter, Machine.mk.injEq, mk.injEq, true_and, and_true] at hfl
    have hsh : p₂.shape = m.pg.shape :=
      (Keeps.forUp (fun _ => destroyPde_shape) _ _ _ _ _ hp2).trans
        (Keeps.forUp (fun _ => destroyTable_shape) _ _ _ _ _ hp1)
    -- the list goes back to the slab cache, the vm loses its directory
    have h1 : Regular g (((m.enter v).setPg p₂).setRg { m.rg with freeList := fl }) L H := by
      refine h.same (h.regs.loosen ?_) (.of_vm rfl rfl) hsh
      rw [hfl, ← append_assoc]
      exact (perm_append_comm.trans ((reverse_perm l).append_right H)).append_right _
    have h2 : Regular g (((m.enter v).setPg p₂).setRg ({ m.rg with freeList := fl }.setVm v
        { m.rg.vm v with pageDirectory := 0 })) L H := by
      have hpos : 0 < p₂.numDirs := zero_lt_of_lt (h1.dir v hv)
      exact h1.setVm (h1.regs.setVm h0 rfl rfl rfl id) rfl hpos
    obtain ⟨L₃, h3', hs3, hp3⟩ := kfree_gives h2.regs (h1.dirAddr _ (h1.dir v hv)) _ _ hk
    have h3 := (h2.same h3' hs3.vms hp3).leave (d := (m.rg.vm v).pageDirectory) (v := if v = saved then 0 else saved)
    obtain ⟨L₄, h4, hs4, hp4⟩ := kfree_gives h3.regs (h.addr v hv h0) _ _ hk'
    exact ⟨⟨L₄, h3.same h4 hs4.vms hp4⟩, fun w => (hs4.vms.live w).trans ((hs3.vms.live w).trans (setVm_live rfl)), saved,
      hc, hs4.current⟩

theorem Regular.recount (h : Regular g m L H) (hv : m.rg.Live v) (h0 : v ≠ 0) (hcur : m.CurrentLive) {n : Nat}
    (hn : 0 < n) : (m.setRg (m.rg.setVm v { m.rg.vm v with refCount := n })).Orderly g H := by
  refine ⟨⟨L, h.setVm (h.regs.setVm h0 rfl rfl rfl fun _ => hv.2) rfl (h.dir v hv.1)⟩, fun w hw => ?_⟩
  obtain ⟨hlt, hpos⟩ := hcur w hw
  refine ⟨hlt, ?_⟩
  rw [setRg_rg, setVm_vm]
  by_cases hwv : w = v
  · subst hwv
    rwa [update_self]
  · rwa [update_of_ne hwv]

theorem UnrefOut.orderly (ho : UnrefOut v m m') (h0 : v ≠ 0) (h : Regular g m L H) (hv : m.rg.Live v)
    (hcur : m.CurrentLive) : m'.Orderly g H := by
  cases ho with
  | keep hc => exact h.recount hv h0 hcur (by omega)
  | last hc ho =>
    have h1 := h.setVm (h.regs.kill (u := { m.rg.vm v with refCount := 0 }) h0 hv rfl rfl rfl rfl) rfl (h.dir v hv.1)
    obtain ⟨⟨L', h2⟩, hli, saved, hs, hs'⟩ := ho.regular h1 h0 hv.1 (by
      rw [setRg_rg, setVm_vm, update_self]
      exact h.regs.linked v hv)
    refine ⟨⟨L', h2⟩, fun w hw => ?_⟩
    rw [hs'] at hw
    cases hw
    split
    · exact h2.regs.kernel.1
    · next hne =>
      rw [hli]
      obtain ⟨hlt, hpos⟩ := hcur saved hs
      refine ⟨hlt, ?_⟩
      rw [setRg_rg, setVm_vm, update_of_ne (Ne.symm hne)]
      exact hpos

end

/-! ## Creating -/

section
variable {g v : Nat} {m m' : Machine} {L : Nat → List Nat} {H : List Nat} {r : Except Errno Nat}

theorem Regular.addDir {a phys : Nat} (h : Regular g m L H) (ha : isKernelAddress a = true) :
    Regular g (m.setPg (m.pg.addDir a phys)) L H where
  regs := h.regs
  addr := h.addr
  dir v hv := lt_succ_of_lt (h.dir v hv)
  dirAddr d hd := by
    show isKernelAddress (update m.pg.dirAddr m.pg.numDirs a d) = true
    by_cases hn : d = m.pg.numDirs
    · rw [hn, update_self]
      exact ha
    · rw [update_of_ne hn]
      have : d < m.pg.numDirs + 1 := hd
      exact h.dirAddr d (by omega)

theorem Regular.addVm {u : Vm} (h : Regular g m L H) (hs : u.start = USER_START) (he : u.stop = KERNEL_VIRT_ADDR)
    (hr : u.regions = none) (ha : isKernelAddress u.addr = true) (hd : u.pageDirectory < m.pg.numDirs) :
    Regular g (m.setRg (m.rg.addVm u)) (update L m.rg.numVms []) H := by
  have hvm : ∀ w < m.rg.numVms + 1, (w = m.rg.numVms ∧ (m.rg.addVm u).vm w = u) ∨
      (w < m.rg.numVms ∧ (m.rg.addVm u).vm w = m.rg.vm w) := by
    intro w hw
    by_cases hn : w = m.rg.numVms
    · exact .inl ⟨hn, by rw [hn]; exact update_self ..⟩
    · exact .inr ⟨by omega, update_of_ne hn _ _⟩
  refine ⟨h.regs.addVm hs he hr, fun w hw h0 => ?_, fun w hw => ?_, h.dirAddr⟩
  · obtain ⟨-, hu⟩ | ⟨hlt, hu⟩ := hvm w hw
    · rw [setRg_rg, hu]
      exact ha
    · rw [setRg_rg, hu]
      exact h.addr w hlt h0
  · obtain ⟨-, hu⟩ | ⟨hlt, hu⟩ := hvm w hw
    · rw [setRg_rg, hu]
      exact hd
    · rw [setRg_rg, hu]
      exact h.dir w hlt

theorem addVm_live {r : Regions} {u : Vm} (hv : r.Live v) : (r.addVm u).Live v := by
  refine ⟨lt_succ_of_lt hv.1, ?_⟩
  have : (r.addVm u).vm v = r.vm v := update_of_ne (by have := hv.1; omega) _ _
  rw [this]
  exact hv.2

def MadeDir (g : Nat) (H : List Nat) (m : Machine) (r : Except Errno Nat) (m' : Machine) : Prop :=
  (∃ L', Regular g m' L' H) ∧ SameSpaces m m' ∧ ∀ d, r = .ok d → d < m'.pg.numDirs

theorem CreateDirOut.made (ho : CreateDirOut m r m') (h : Regular g m L H) (hg : g ≤ PAGE_SIZE) : MadeDir g H m r m' := by
  have hma {r m₁} (ha : kmalloc PAGE_SIZE m = .ok (r, m₁)) : ((∃ L', Regular g m₁ L' H) ∧ SameSpaces m m₁) ∧
      ∀ a, r = some a → isKernelAddress a = true := by
    obtain ⟨hk, ha⟩ := kmalloc_gives h.regs hg (by decide) le_rfl _ _ ha
    obtain ⟨L', h', hs, hp⟩ := hk
    exact ⟨⟨⟨L', h.same h' hs.vms hp⟩, hs⟩, ha⟩
  cases ho with
  | noPage ha => exact ⟨(hma ha).1.1, (hma ha).1.2, nofun⟩
  | @done a phys m₁ ha hv =>
    obtain ⟨⟨⟨L', h'⟩, hs⟩, ha⟩ := hma ha
    refine ⟨⟨L', h'.addDir (ha a rfl)⟩, ⟨hs.vms, hs.current⟩, ?_⟩
    rintro _ ⟨⟩
    exact lt_succ_self _

theorem CloneDirOut.made (ho : CloneDirOut m r m') (h : Regular g m L H) (hg : g ≤ PAGE_SIZE) : MadeDir g H m r m' := by
  cases ho with
  | noDir hd =>
    obtain ⟨h', hs, -⟩ := (pageDirectoryCreate_gives _ _ hd).made h hg
    exact ⟨h', hs, nofun⟩
  | @noTable dst i e m₁ p hd hp | @done dst m₁ p hd hp =>
    obtain ⟨⟨L', h'⟩, hs, hdir⟩ := (pageDirectoryCreate_gives _ _ hd).made h hg
    have hsh : p.shape = m₁.pg.shape := Keeps.forUpOr (fun _ => clonePde_shape) _ _ _ _ _ hp
    have h2 : Regular g (m₁.setPg p) L' H := h'.same h'.regs (.of_vm rfl rfl) hsh
    refine ⟨⟨L', h2⟩, ⟨hs.vms, hs.current⟩, ?_⟩
    simp only [Paging.shape, Prod.mk.injEq] at hsh
    have hlt := lt_of_lt_of_eq (hdir dst rfl) hsh.2.2.2.1.symm
    rintro _ ⟨⟩ <;> exact hlt

theorem SpaceOut.orderly {x : MachineProg (Except Errno Nat)} {k : Nat → Nat → MachineProg (Except Errno Nat)}
    (ho : SpaceOut x k m r m') (h : Regular g m L H) (hg : g ≤ PAGE_SIZE) (hcur : m.CurrentLive)
    (hx : ∀ {m L}, Regular g m L H → Gives x m (MadeDir g H m))
    (hk : ∀ {a dir m₂ L₂}, Regular g m₂ L₂ H → SameSpaces m m₂ → isKernelAddress a = true → dir < m₂.pg.numDirs →
      Gives (k a dir) m₂ fun _ m' => m'.Orderly g H) : m'.Orderly g H := by
  have hma {r m₁} (ha : kmalloc sizeofVm m = .ok (r, m₁)) := kmalloc_gives h.regs hg (by decide) (by decide) _ _ ha
  cases ho with
  | noVm ha => exact h.orderly hcur (hma ha).1
  | noDir ha hd hf =>
    obtain ⟨hk1, ha⟩ := hma ha
    obtain ⟨L₁, h1⟩ := h.kept hk1
    obtain ⟨-, -, hs1, -⟩ := hk1
    obtain ⟨⟨L₂, h2⟩, hs2, -⟩ := hx h1 _ _ hd
    exact h2.orderly ((hs1.trans hs2).currentLive hcur) (kfree_gives h2.regs (ha _ rfl) _ _ hf)
  | made ha hd hrun =>
    obtain ⟨hk1, ha⟩ := hma ha
    obtain ⟨L₁, h1⟩ := h.kept hk1
    obtain ⟨-, -, hs1, -⟩ := hk1
    obtain ⟨⟨L₂, h2⟩, hs2, hdir⟩ := hx h1 _ _ hd
    exact hk h2 (hs1.trans hs2) (ha _ rfl) (hdir _ rfl) _ _ hrun

theorem vmCreate_gives (h : Regular g m L H) (hg : g ≤ PAGE_SIZE) (hcur : m.CurrentLive) :
    Gives (vmCreate USER_START KERNEL_VIRT_ADDR) m fun _ m' => m'.Orderly g H := by
  refine fun r m' hrun => (newSpace_gives r m' hrun).orderly h hg hcur
    (fun h1 _ _ hd => (pageDirectoryCreate_gives _ _ hd).made h1 hg) fun h2 hs ha hdir => .bind newVm_gives ?_
  rintro _ _ ⟨-, rfl⟩
  exact .pure ⟨⟨_, h2.addVm rfl rfl rfl ha hdir⟩, fun w hw => addVm_live (hs.currentLive hcur w hw)⟩

end

/-! ## Cloning -/

theorem appendClone_eq {r : Regions} {v it x : Nat} {prev : Option Nat} (hnx : ∀ p, prev = some p → (r.node p).next = none)
    (hne : ∀ p, prev = some p → p ≠ x) (hnil : prev = none → (r.vm v).regions = none) :
    appendClone v it x prev r = (r.setSpan x (r.span it)).link v prev x := by
  cases prev with
  | none =>
    have hr := hnil rfl
    simp only [appendClone, link, setSpan, setVm, Heap.insertAfter, hr, Heap.setPrev?,
      mk.injEq, and_true]
    funext j
    simp only [Heap.setNext_apply, Heap.setPrev_apply, Heap.setVal_apply, update_apply]
    split <;> rfl
  | some p =>
    have hp := hnx p rfl
    have hpx := hne p rfl
    have hp' : (r.node.setVal x (r.span it) p).next = none := by rw [Heap.setVal_next, hp]
    have hse : update r.vm v (r.vm v) = r.vm := update_eq_self ..
    simp only [appendClone, link, setSpan, setVm, Heap.insertAfter, hp', Heap.setPrev?,
      mk.injEq, and_true, hse]
    funext j
    simp only [Heap.setNext_apply, Heap.setPrev_apply, Heap.setVal_apply, update_apply]
    by_cases hj : j = x
    · subst hj
      simp [Ne.symm hpx]
    · by_cases hj' : j = p
      · subst hj'
        simp [hj]
      · simp [hj, hj']

section
variable {g v w : Nat} {m m' : Machine} {r : Regions} {L : Nat → List Nat} {H : List Nat} {out : Except Errno Nat}

theorem insertAt_last {x : Nat} (l : List Nat) : InsertAt x l l.getLast? (l ++ [x]) := by
  rcases eq_nil_or_concat l with rfl | ⟨l, p, rfl⟩
  · exact .head []
  · simp only [concat_eq_append, append_assoc, getLast?_append, getLast?_singleton, Option.some_or]
    exact .after l p []

theorem RegInv.append {it x : Nat} (h : RegInv g r L (x :: H)) (hw : r.Live w)
    (hok : SpanOk g (r.vm w) (r.span it)) (hbe : ∀ k ∈ L w, (r.span k).stop ≤ (r.span it).start) :
    RegInv g (appendClone w it x (L w).getLast? r) (update L w (L w ++ [x])) H ∧
      SameVms r (appendClone w it x (L w).getLast? r) ∧
      ∀ i, (appendClone w it x (L w).getLast? r).span i = if i = x then r.span it else r.span i := by
  have hmem : ∀ p, (L w).getLast? = some p → p ∈ L w := fun p hp => mem_of_getLast? hp
  have hne : ∀ p, (L w).getLast? = some p → p ≠ x := by
    rintro p hp rfl
    exact h.apart w hw (hmem p hp) (by simp)
  have hnx : ∀ p, (L w).getLast? = some p → (r.node p).next = none := by
    intro p hp
    obtain ⟨l, hl⟩ := getLast?_eq_some_iff.mp hp
    have hlk := h.linked w hw
    rw [hl] at hlk
    exact hlk.next
  have hnil : (L w).getLast? = none → (r.vm w).regions = none := by
    intro hn
    obtain ⟨q, hs⟩ := h.linked w hw
    rw [getLast?_eq_none_iff.mp hn] at hs
    exact hs.2
  rw [appendClone_eq hnx hne hnil]
  have hsx : (r.setSpan x (r.span it)).span x = r.span it := by rw [setSpan_span, if_pos rfl]
  refine ⟨(h.setSpan_held (by simp)).link hw (insertAt_last _) (by rw [hsx]; exact hok) ⟨?_, ?_⟩,
    setSpan_same.trans link_same, fun i => ?_⟩
  · intro k hk
    rw [hsx, setSpan_span, if_neg (hne k hk)]
    exact hbe k (hmem k hk)
  · cases hl : (L w).getLast? with
    | none =>
      rw [Regions.after, setSpan_vm, hnil hl]
      rfl
    | some p =>
      have : ((r.setSpan x (r.span it)).node p).next = none := by
        rw [← hnx p hl]
        exact Heap.setVal_next ..
      rw [Regions.after, this]
      rfl
  · rw [link_span, setSpan_span]

theorem cloneRegions_gives {rest l : List Nat} {fuel : Nat} (h : Regular g m L H) (hg : g ≤ PAGE_SIZE)
    (hv : m.rg.Live v) (hw : m.rg.Live w) (hv0 : v ≠ 0) (hw0 : w ≠ 0) (hne : v ≠ w) (hcur : m.CurrentLive)
    (hl : L v = l ++ rest) (hbe : ∀ k ∈ L w, ∀ j ∈ rest, (m.rg.span k).stop ≤ (m.rg.span j).start) :
    Gives (cloneRegions w fuel (L w).getLast? rest.head?) m fun _ m' => m'.Orderly g H := by
  induction rest generalizing fuel l m L with
  | nil =>
    have : cloneRegions w fuel (L w).getLast? none = pure (.ok ()) := by cases fuel <;> rfl
    rw [head?_nil, this]
    exact .pure ⟨⟨L, h⟩, hcur⟩
  | cons it rest ih =>
    cases fuel with
    | zero => exact .trap
    | succ fuel =>
      refine .bindOr .run (fun e m₁ hs => ?_) fun x m₁ hs => ?_
      · have hk := slabCacheAlloc_error h.regs hg hs
        obtain ⟨L₁, h1⟩ := h.kept hk
        obtain ⟨-, -, hs, -⟩ := hk
        exact .bind vmUnref_gives fun _ _ ho => .pure
          (ho.2.orderly ho.1 h1 ((hs.vms.live w).mpr hw) (hs.currentLive hcur))
      obtain ⟨L₁, h1, hst, hk⟩ := slabCacheAlloc_regInv h.regs hg hs
      have hli : ∀ u, m₁.rg.Live u ↔ m.rg.Live u := hst.same.live
      have hv1 := (hli v).mpr hv
      have hlt : ∀ u, m.rg.Live u → ∀ i ∈ L u, m₁.rg.span i = m.rg.span i := fun u hu i hi =>
        hst.span i (h.regs.listLt u hu i hi)
      have hit : it ∈ L v := by simp [hl]
      have hits : m₁.rg.span it = m.rg.span it := hlt v hv it hit
      have hok : SpanOk g (m₁.rg.vm w) (m₁.rg.span it) := by
        obtain ⟨h1, h2, h3, h4, h5⟩ := h.regs.span v hv it hit
        have hb := h.regs.user v hv hv0
        have hb' := h.regs.user w hw hw0
        rw [hits, hst.same.spanOk]
        exact ⟨h1, h2, h3, by rw [hb'.1, ← hb.1]; exact h4, by rw [hb'.2, ← hb.2]; exact h5⟩
      obtain ⟨h2, hsa, hsp⟩ := h1.append ((hli w).mpr hw) hok (fun k hk => by
        rw [hst.other w hw0] at hk
        rw [hlt w hw k hk, hits]
        exact hbe k hk it (by simp))
      rw [hst.other w hw0] at h2 hsa hsp
      refine .edit <| .get ?_
      rw [setRg_rg]
      generalize hq : appendClone w it x (L w).getLast? m₁.rg = q at h2 hsa hsp ⊢
      have hxu : ∀ u, m.rg.Live u → u ≠ 0 → ∀ i ∈ L u, q.span i = m.rg.span i := by
        intro u hu hu0 i hi
        rw [hsp, if_neg, hlt u hu i hi]
        rintro rfl
        exact h1.apart u ((hli u).mpr hu) (by rw [hst.other u hu0]; exact hi) (by simp)
      have hLv : update L₁ w (L w ++ [x]) v = L v := by
        rw [update_of_ne hne, hst.other v hv0]
      have hLw : update L₁ w (L w ++ [x]) w = L w ++ [x] := update_self ..
      have hso := h.regs.sorted v hv
      rw [hl] at hso
      have haf := (pairwise_cons.mp (pairwise_append.mp hso).2.1).1
      have hnx : (q.node it).next = rest.head? := by
        have hlk := h2.linked v ((hsa.live v).mpr hv1)
        rw [hLv, hl] at hlk
        exact hlk.next
      obtain ⟨-, -, hs, hsh⟩ := hk.setRg h2 hsa
      have hgi := @ih (m₁.setRg q) (update L₁ w (L w ++ [x])) (l ++ [it]) fuel
        (h.same h2 hs.vms hsh) ((hs.vms.live v).mpr hv) ((hs.vms.live w).mpr hw) (hs.currentLive hcur)
        (by rw [hLv, hl]; simp) (by
          intro k hk j hj
          rw [hLw] at hk
          rw [setRg_rg, hxu v hv hv0 j (by simp [hl, hj])]
          rcases mem_append.mp hk with hk | hk
          · rw [hxu w hw hw0 k hk]
            exact hbe k hk j (.tail _ hj)
          · rw [mem_singleton.mp hk, hsp, if_pos rfl, hits]
            exact haf j hj)
      rw [hLw, ← hnx] at hgi
      simpa using hgi

theorem vmClone_gives (h : Regular g m L H) (hg : g ≤ PAGE_SIZE) (hcur : m.CurrentLive) :
    Gives vmClone m fun _ m' => m'.Orderly g H := by
  refine .get ?_
  cases hv : m.current with
  | none => exact .trap
  | some v =>
    refine .ensure fun hv0 r m' hrun => (newSpace_gives r m' hrun).orderly h hg hcur
      (fun h1 _ _ hd => (pageDirectoryCloneCurrent_gives _ _ hd).made h1 hg)
      fun {a dir m₂ L₂} h2 hsp ha hdir => .bind newVm_gives ?_
    rintro _ m₃ ⟨rfl, hm3⟩
    have hli := hcur v hv
    have hli2 : m₂.rg.Live v := (hsp.vms.live v).mpr hli
    obtain ⟨hst, hen⟩ := h.regs.user v hli hv0
    have hne : v ≠ m₂.rg.numVms := by
      have := hli2.1
      omega
    have h3 : Regular g m₃ (update L₂ m₂.rg.numVms []) H := hm3 ▸ h2.addVm hst hen rfl ha hdir
    have hnew : m₃.rg.Live m₂.rg.numVms := by
      rw [hm3]
      refine ⟨lt_succ_self _, ?_⟩
      rw [setRg_rg, show (m₂.rg.addVm _).vm m₂.rg.numVms = _ from update_self ..]
      exact one_pos
    have hnil : update L₂ m₂.rg.numVms [] m₂.rg.numVms = [] := update_self ..
    have hli3 : m₃.rg.Live v := hm3 ▸ addVm_live hli2
    have hcur3 : m₃.CurrentLive := hm3 ▸ fun u hu => addVm_live (hsp.currentLive hcur u hu)
    have hgi := @cloneRegions_gives g v m₂.rg.numVms m₃ (update L₂ m₂.rg.numVms []) H (update L₂ m₂.rg.numVms [] v) []
      m₃.rg.numNodes h3 hg hli3 hnew hv0 (by have := hli2.1; omega) hne hcur3 rfl (by rw [hnil]; simp)
    rw [hnil, ← (h3.regs.linked v hli3).head] at hgi
    exact .get <| .bindOr hgi (fun _ _ hk => .pure hk) fun _ _ hk => .pure hk

end

/-! ## Runs -/

def Regions.nodesFrom (r : Regions) : Nat → Option Nat → List Nat
  | fuel + 1, some i => i :: r.nodesFrom fuel (r.node i).next
  | _, _ => []

def Regions.nodes (r : Regions) (v : Nat) : List Nat := r.nodesFrom r.numNodes (r.vm v).regions

structure Regions.WellFormed (r : Regions) (v : Nat) : Prop where
  linked : r.node.Linked (r.vm v).regions (r.nodes v)
  sorted : (r.nodes v).Pairwise fun i j => (r.span i).stop ≤ (r.span j).start
  region : ∀ i ∈ r.nodes v, (r.span i).start < (r.span i).stop ∧ (r.span i).start % PAGE_SIZE = 0 ∧
    (r.span i).stop % PAGE_SIZE = 0 ∧ (r.vm v).start ≤ (r.span i).start ∧ (r.span i).stop ≤ (r.vm v).stop

section
variable {g v : Nat} {r : Regions} {L : Nat → List Nat} {H : List Nat}

theorem nodesFrom_eq {l : List Nat} {fuel : Nat} {p hd q : Option Nat} (hs : r.node.Seg p hd l q none)
    (hle : l.length ≤ fuel) : r.nodesFrom fuel hd = l := by
  induction l generalizing fuel p hd with
  | nil =>
    obtain ⟨-, rfl⟩ := hs
    cases fuel <;> rfl
  | cons i l ih =>
    obtain ⟨rfl, -, hs⟩ := hs
    cases fuel with
    | zero => simp at hle
    | succ fuel =>
      rw [nodesFrom, ih hs (by simpa using hle)]

theorem RegInv.nodes_eq (h : RegInv g r L H) (hv : r.Live v) : r.nodes v = L v := by
  obtain ⟨q, hs⟩ := h.linked v hv
  exact nodesFrom_eq hs (h.listed hv).length

theorem RegInv.wellFormed (h : RegInv 1 r L H) (hv : r.Live v) : r.WellFormed v := by
  constructor
  · rw [h.nodes_eq hv]
    exact h.linked v hv
  · rw [h.nodes_eq hv]
    exact h.sorted v hv
  · rw [h.nodes_eq hv]
    intro i hi
    obtain ⟨h1, h2, h3, h4, h5⟩ := h.span v hv i hi
    exact ⟨h1, h2, h3, h4, h5⟩

end

def Machine.target (m : Machine) (kernel : Bool) : Nat := if kernel then 0 else m.current.getD 0

/-- `b` can be added to every address a gap of `v` may start at. -/
def Regions.Roomy (r : Regions) (v b : Nat) : Prop :=
  (r.vm v).start + b < 2 ^ 32 ∧ ∀ i ∈ r.nodes v, (r.span i).stop + b < 2 ^ 32
  deriving Decidable

/-- A new slab page may come before the region that is placed. -/
def slack (v : Nat) : Nat := if v = 0 then PAGE_SIZE else 0

/-- The range wraps, which `validate_range` refuses, or ends before the last page of the address space. -/
def EndsInside (a size : Nat) : Prop := 2 ^ 32 ≤ a + size ∨ a + size + PAGE_SIZE ≤ 2 ^ 32
  deriving Decidable

/-- The addresses of what the memory manager itself keeps in the kernel heap: slab pages, vms and directories. -/
def Machine.objects (m : Machine) : List Nat :=
  let vms := (List.range m.rg.numVms).filter fun v => v ≠ 0 ∧ 0 < (m.rg.vm v).refCount
  let dirs := (List.range m.pg.numDirs).filter fun d => d ≠ 0 ∧ m.pg.dirLive d = true
  m.rg.slabs ++ vms.map (fun v => (m.rg.vm v).addr) ++ dirs.map m.pg.dirAddr

/-- The region at `a` holds none of these; otherwise the next access to one would fault. -/
def Machine.Spares (m : Machine) (a : Nat) : Prop :=
  match vmFindRegion m.rg 0 (roundDown a) with
  | .ok (some i) => ∀ o ∈ m.objects, ¬((m.rg.span i).start ≤ o ∧ o < (m.rg.span i).stop)
  | _ => True

/-- The sums a call computes do not wrap, no region grows past the end of its vm, the vm it is given is in use, and it
leaves the memory manager's own objects alone. -/
def Machine.Tame (m : Machine) : Op → Prop
  | .ref v | .unref v | .enter v => m.rg.Live v
  | .alloc size flags =>
    let v := m.target (flags.toNat &&& VM_USER = 0)
    size.toNat + PAGE_SIZE ≤ 2 ^ 32 ∧ m.rg.Roomy v (roundUp size.toNat + slack v)
  | .allocAt a size _ => EndsInside a.toNat size.toNat
  | .physMap a size flags =>
    let v := m.target (flags.toNat &&& VM_USER = 0)
    (PAGE_SIZE ≤ a.toNat ∨ EndsInside a.toNat size.toNat) ∧
      m.rg.Roomy v ((pageAlignRange a.toNat size.toNat).2 + slack v)
  | .virtMap a size flags =>
    let v := m.target (flags.toNat &&& VM_USER = 0)
    (PAGE_SIZE ≤ a.toNat ∨ EndsInside a.toNat size.toNat) ∧
      m.rg.Roomy v ((pageAlignRange a.toNat size.toNat).2 + slack v)
  | .resize a newSize =>
    let v := m.target (isKernelAddress a.toNat)
    let size := (pageAlignRange a.toNat newSize.toNat).2
    m.Spares a.toNat ∧ EndsInside a.toNat newSize.toNat ∧ m.rg.Roomy v size ∧
      ∀ i ∈ m.rg.nodes v, (m.rg.span i).start = roundDown a.toNat → (m.rg.node i).next = none →
        roundDown a.toNat + size ≤ (m.rg.vm v).stop
  | .setFlags a size _ => m.Spares a.toNat ∧ EndsInside a.toNat size.toNat
  | .unmap a size => m.Spares a.toNat ∧ EndsInside a.toNat size.toNat
  | .free a => m.Spares a.toNat
  | _ => True

section
variable {a size : Nat}

theorem validateRange_ok {a size : Nat} : validateRange a size = .ok () ↔ a ≠ 0 ∧ size ≠ 0 ∧ a ≤ add32 a size := by
  unfold validateRange
  split
  · next h => simp [h]
  · next h =>
    split
    · next h' => simp [h']
    · next h' =>
      split
      · next hlt => simp [not_le.mpr hlt]
      · next hlt => simp [h, h', not_lt.mp hlt]

theorem pageAlignRange_aligned : (pageAlignRange a size).2 % PAGE_SIZE = 0 := by
  simp only [pageAlignRange, sub32, roundUp, roundDown, PAGE_SIZE]
  omega

theorem roundDown_aligned : roundDown a % PAGE_SIZE = 0 := mul_mod_left ..

section
variable (hv : validateRange a size = .ok ()) (ha : a < 2 ^ 32) (hs : size < 2 ^ 32)
include hv ha hs

theorem add_lt_of_validateRange : a + size < 2 ^ 32 := by
  obtain ⟨-, h0, hle⟩ := validateRange_ok.mp hv
  simp only [add32] at hle
  omega

theorem pageAlignRange_pos (he : PAGE_SIZE ≤ a ∨ EndsInside a size) : 0 < (pageAlignRange a size).2 := by
  have hlt := add_lt_of_validateRange hv ha hs
  obtain ⟨h0, h1, -⟩ := validateRange_ok.mp hv
  simp only [pageAlignRange, sub32, roundUp, roundDown, add32, EndsInside, PAGE_SIZE] at *
  omega

theorem pageAlignRange_end (he : EndsInside a size) : roundDown a + (pageAlignRange a size).2 < 2 ^ 32 := by
  have hlt := add_lt_of_validateRange hv ha hs
  simp only [pageAlignRange, sub32, roundUp, roundDown, add32, EndsInside, PAGE_SIZE] at *
  omega

end

theorem roundUp_pos (h0 : size ≠ 0) (hle : size + PAGE_SIZE ≤ 2 ^ 32) : 0 < roundUp size := by
  simp only [roundUp, roundDown, add32, PAGE_SIZE] at *
  omega

end

section
variable {g v size flags : Nat} {m m' : Machine} {L : Nat → List Nat} {H : List Nat} {out : Except Errno Nat}

theorem target_eq {k : Prop} [Decidable k] (ht : m.Target k v) : m.target (decide k) = v := by
  unfold Machine.target
  obtain ⟨hk, rfl⟩ | ⟨hk, hc, -⟩ := ht
  · rw [decide_eq_true hk, if_pos rfl]
  · rw [decide_eq_false hk, if_neg (by decide), hc]
    rfl

theorem Machine.CurrentLive.target {k : Prop} (hcur : m.CurrentLive) (h : Regular g m L H) (ht : m.Target k v) :
    m.rg.Live v := by
  obtain ⟨-, rfl⟩ | ⟨-, hc, -⟩ := ht
  · exact h.regs.kernel.1
  · exact hcur v hc

theorem RegInv.roomy_ends {r : Regions} {b e : Nat} (h : RegInv g r L H) (hv : r.Live v) (hr : r.Roomy v b)
    (he : r.Ends v (L v) e) : e + b < 2 ^ 32 := by
  obtain ⟨hs, hi⟩ := hr
  rw [h.nodes_eq hv] at hi
  obtain rfl | ⟨k, hk, rfl⟩ := he
  · exact hs
  · exact hi k hk

theorem Regular.gap_lt {m₁ : Machine} {L₁ : Nat → List Nat} {H₁ : List Nat} {c : Option Nat} {a : Nat}
    (h : Regular g m L H) (hv : m.rg.Live v) (hr : m.rg.Roomy v (size + slack v)) (h1 : RegInv g m₁.rg L₁ H₁)
    (hst : SlabStep m L m₁ L₁) (hgap : vmFindGap m₁.rg v size = .ok (.ok (c, a))) : a + size < 2 ^ 32 := by
  have hro : ∀ e, m.rg.Ends v (L v) e → e + (size + slack v) < 2 ^ 32 := fun e he => h.regs.roomy_ends hv hr he
  obtain rfl | ⟨k, hk, rfl⟩ := h1.vmFindGap_ends ((hst.same.live v).mpr hv) hgap
  · have := hro _ (.inl (hst.same.start v))
    omega
  by_cases h0 : v = 0
  · subst h0
    obtain hk | ⟨b, hb, hso⟩ := hst.grown k hk
    · have := hro _ (.inr ⟨k, hk, rfl⟩)
      rw [hst.span k (h.regs.listLt 0 hv k hk)]
      omega
    · have hb := hro b hb
      rw [slack, if_pos rfl] at hb
      omega
  · rw [hst.other v h0] at hk
    have := hro _ (.inr ⟨k, hk, rfl⟩)
    rw [hst.span k (h.regs.listLt v hv k hk)]
    omega

theorem validated_gives {α : Type} {x : MachineProg (Except Errno α)} {check : Except Errno Unit}
    {Q : Except Errno α → Machine → Prop} (he : ∀ e, Q (.error e) m) (h : check = .ok () → Gives x m Q) :
    Gives (match check with | .error e => pure (.error e) | .ok () => x) m Q := by
  cases check with
  | error e => exact .pure (he e)
  | ok u => exact h rfl

theorem Prog.Gives.discard {α β : Type} {x : MachineProg (Except Errno α)} {f : α → β} {Q : Machine → Prop}
    (h : Gives x m fun _ => Q) : Gives (discard x f) m fun _ => Q :=
  .bindOr h (fun _ _ hq => .pure hq) fun _ _ hq => .pure hq

theorem exec_gives {op : Op} (ht : m.Tame op) (h : Regular g m L H) (hg : g ≤ PAGE_SIZE) (hcur : m.CurrentLive) :
    Gives (exec op) m fun _ m' => m'.Orderly g H := by
  have hsa : m.Orderly g H := ⟨⟨L, h⟩, hcur⟩
  cases op with
  | create => exact vmCreate_gives h hg hcur
  | ref v =>
    refine .bind (P := fun _ m' => v ≠ 0 ∧ m' = m.setRg (m.rg.setVm v
      { m.rg.vm v with refCount := (m.rg.vm v).refCount + 1 })) (.ensure fun h0 _ _ hrun => ?_) ?_
    · obtain ⟨q, hq, rfl⟩ := on_ok.mp hrun
      exact ⟨h0, congrArg m.setRg (modify_ok.mp hq).symm⟩
    rintro _ _ ⟨h0, rfl⟩
    exact .pure (h.recount ht h0 hcur (succ_pos _))
  | unref v => exact .bind vmUnref_gives fun _ _ ho => .pure (ho.2.orderly ho.1 h ht hcur)
  | enter v =>
    refine .bind vmEnter_gives ?_
    rintro _ _ rfl
    exact .pure ⟨⟨L, h.regs, h.addr, h.dir, h.dirAddr⟩, fun w hw => by cases hw; exact ht⟩
  | clone => exact vmClone_gives h hg hcur
  | alloc size flags =>
    refine .get <| .ite (fun _ => .pure hsa) fun h0 => .ite (fun _ => .pure hsa) fun _ => .vmForFlags fun v hv r m' hrun => ?_
    have hli := hcur.target h hv
    rw [Machine.Tame, target_eq hv] at ht
    exact h.orderly hcur (alloc_kept h.regs hg hli (h.gap_lt hli ht.2) (roundUp_pos h0 ht.1) roundDown_aligned r m' hrun).1
  | allocAt a size flags =>
    refine .get <| validated_gives (fun _ => hsa) fun hr => .ite (fun _ => .pure hsa) fun _ => .ite (fun _ => .pure hsa)
      fun _ => .vmForFlags fun v hv => .ite (fun _ => .pure hsa) fun hb => .bind (allocAt_kept h.regs hg
        (hcur.target h hv) ?_) fun _ _ hk => .pure (h.orderly hcur hk)
    have hend := pageAlignRange_end hr a.toNat_lt size.toNat_lt ht
    have hpos := pageAlignRange_pos hr a.toNat_lt size.toNat_lt (.inr ht)
    have hge := aligned_lt (zero_mod _) pageAlignRange_aligned hpos
    have hadd : add32 (roundDown a.toNat) (pageAlignRange a.toNat size.toNat).2 = _ := mod_eq_of_lt hend
    have hal := alignedAdd (roundDown_aligned (a := a.toNat)) (@pageAlignRange_aligned a.toNat size.toNat)
    obtain ⟨hlow, hup⟩ := not_or.mp hb
    change SpanOk g (m.rg.vm v) ⟨_, add32 (roundDown a.toNat) (pageAlignRange a.toNat size.toNat).2, _⟩
    rw [hadd]
    exact ⟨by simp only; omega, roundDown_aligned, hal, not_lt.mp hlow, (le_of_eq hadd.symm).trans (not_lt.mp hup)⟩
  | physMap a size flags =>
    refine .get <| validated_gives (fun _ => hsa) fun hr => .ite (fun _ => .pure hsa) fun _ => .vmForFlags fun v hv => ?_
    have hli := hcur.target h hv
    rw [Machine.Tame, target_eq hv] at ht
    exact .bind mapRegion_gives fun _ _ ho => .pure (h.orderly hcur (ho.gap_kept h.regs hg hli (h.gap_lt hli ht.2)
      (pageAlignRange_pos hr a.toNat_lt size.toNat_lt ht.1) pageAlignRange_aligned fun _ _ => mapIfRw_gives fun _ _ =>
        pageTableMapPhys_shape).1)
  | virtMap a size flags =>
    refine .get <| validated_gives (fun _ => hsa) fun hr => .ite (fun _ => .pure hsa) fun _ => .ite (fun _ => .pure hsa)
      fun _ => .vmForFlags fun v hv => ?_
    have hli := hcur.target h hv
    rw [Machine.Tame, target_eq hv] at ht
    exact .bind virtMap_gives fun _ _ ho => .pure (h.orderly hcur (ho.kept h.regs hg hli (h.gap_lt hli ht.2)
      (pageAlignRange_pos hr a.toNat_lt size.toNat_lt ht.1) pageAlignRange_aligned))
  | resize a newSize =>
    refine validated_gives (fun _ => hsa) fun hr => .vmForAddr fun v hv => ?_
    have hli := hcur.target h hv
    have htv := target_eq hv
    rw [Bool.decide_eq_true] at htv
    rw [Machine.Tame, htv, h.regs.nodes_eq hli] at ht
    obtain ⟨-, hin, hro, hla⟩ := ht
    exact .bind resize_gives fun _ _ ho => .pure (h.orderly hcur (ho.kept h.regs hg hli
      (pageAlignRange_end hr a.toNat_lt newSize.toNat_lt hin) hla
      (fun c b hgap => h.regs.roomy_ends hli hro (h.regs.vmFindGap_ends hli hgap))
      (pageAlignRange_pos hr a.toNat_lt newSize.toNat_lt (.inr hin)) roundDown_aligned pageAlignRange_aligned))
  | setFlags a size flags =>
    exact .discard <| .get <| validated_gives (fun _ => hsa) fun hr => .ite (fun _ => .pure hsa) fun _ =>
      .vmForAddr fun v hv r m' hrun => h.orderly hcur ((setFlags_gives r m' hrun).kept h.regs hg (hcur.target h hv)
        (pageAlignRange_end hr a.toNat_lt size.toNat_lt ht.2) (pageAlignRange_pos hr a.toNat_lt size.toNat_lt (.inr ht.2))
        roundDown_aligned pageAlignRange_aligned)
  | unmap a size =>
    exact .discard <| validated_gives (fun _ => hsa) fun hr => .vmForAddr fun v hv r m' hrun =>
      h.orderly hcur ((unmap_gives r m' hrun).kept h.regs hg (hcur.target h hv)
        (pageAlignRange_end hr a.toNat_lt size.toNat_lt ht.2) roundDown_aligned pageAlignRange_aligned)
  | free a =>
    exact .discard fun r m' hrun => h.orderly hcur
      ((vmFree_gives r m' hrun).kept h.regs fun v hv => hcur.target h hv)
  | touch a dirty =>
    have hsh : ∀ d n, Keeps Paging.shape (touchPage d n dirty) := fun _ _ =>
      .bind .get fun _ => .bind .ensure fun _ => .modify fun _ => setEntry_shape
    exact .paging fun _ _ hp => .pure (h.orderly hcur (h.regs.kept.setPg (hsh _ _ _ _ _ hp)))

end

variable {m : Machine}

theorem Machine.Booted.regular (h : m.Booted) (g : Nat) : Regular g m (fun _ => []) [] ∧ m.CurrentLive := by
  have hlt : ∀ v < m.rg.numVms, v = 0 := fun v hv => by
    rw [h.oneVm] at hv
    omega
  have h0 : m.rg.Live 0 := ⟨by rw [h.oneVm]; exact one_pos, by rw [h.kernelVm.2.2.2.2]; exact one_pos⟩
  refine ⟨⟨⟨fun v hv => ?_, fun _ _ => .nil, fun _ _ _ _ _ _ hi => absurd hi (not_mem_nil), ?_,
    fun _ _ _ hi => absurd hi (not_mem_nil), ?_, fun _ _ _ hi => absurd hi (not_mem_nil), fun _ _ => .nil,
    fun _ _ _ hi => absurd hi (not_mem_nil), ⟨h0, h.kernelVm.1, h.kernelVm.2.1⟩,
    fun v hv hv0 => absurd (hlt v hv.1) hv0⟩, fun v hv hv0 => absurd (hlt v hv) hv0, fun v hv => ?_, fun d hd => ?_⟩, ?_⟩
  · rw [hlt v hv.1, h.kernelVm.2.2.2.1]
    exact ⟨none, rfl, rfl⟩
  · rw [h.noNodes.2.1]
    exact .nil
  · rw [h.noNodes.2.1]
    exact fun _ hi => absurd hi (not_mem_nil)
  · rw [hlt v hv, h.kernelVm.2.2.1, h.oneDir.1]
    exact one_pos
  · rw [h.oneDir.1] at hd
    rw [show d = 0 by omega]
    exact isKernelAddress_iff.mpr h.oneDir.2.2
  · intro v hv
    rcases h.current with hc | hc
    · rw [hc] at hv
      cases hv
    · rw [hc] at hv
      cases hv
      exact h0

theorem regions_regular_of_tame {m' : Machine} (hb : m.Booted) (hr : Run Machine.Step Machine.Tame m m') :
    (∃ L, Regular 1 m' L []) ∧ m'.CurrentLive := by
  obtain ⟨h0, hcur0⟩ := hb.regular 1
  refine Run.invariant (I := fun m => (∃ L, Regular 1 m L []) ∧ m.CurrentLive) hr ⟨⟨_, h0⟩, hcur0⟩ ?_
  rintro s op s' ⟨⟨L, h⟩, hcur⟩ ⟨out, hrun⟩ ht
  exact exec_gives ht h (by decide) hcur _ _ hrun

theorem wellFormed_of_tame {m' : Machine} (hb : m.Booted) (hr : Run Machine.Step Machine.Tame m m') {v : Nat}
    (hv : m'.rg.Live v) : m'.rg.WellFormed v := by
  obtain ⟨⟨L, h⟩, -⟩ := regions_regular_of_tame hb hr
  exact h.regs.wellFormed hv

/-! ## Two runs -/

instance Machine.decidableSpares (m : Machine) (a : Nat) : Decidable (m.Spares a) := by
  unfold Machine.Spares
  split <;> infer_instance

instance (m : Machine) : (op : Op) → Decidable (m.Tame op)
  | .ref _ | .unref _ | .enter _ | .alloc .. | .physMap .. | .virtMap .. | .resize .. | .setFlags .. | .unmap .. =>
    inferInstanceAs (Decidable (_ ∧ _))
  | .allocAt a size _ => inferInstanceAs (Decidable (EndsInside a.toNat size.toNat))
  | .free a => m.decidableSpares a.toNat
  | .create | .clone | .touch .. => .isTrue trivial

theorem wellFormed_after_alloc : ∃ m', Run Machine.Step Machine.Tame (bootMachine 300) m' ∧
    m'.rg.nodes 0 ≠ [] ∧ m'.rg.WellFormed 0 := by
  obtain ⟨m', hr, hp⟩ := exists_follow_prog exec Machine.Tame [.alloc 1 3] (bootMachine 300)
    (fun m => m.rg.nodes 0 ≠ []) (by decide +kernel)
  exact ⟨m', hr, hp, wellFormed_of_tame (bootMachine_booted 300) hr
    (regions_regular_of_tame (bootMachine_booted 300) hr).1.choose_spec.regs.kernel.1⟩

/-- A node is in one list or free, and the current address space is live. -/
theorem nodes_apart {m' : Machine} (hb : m.Booted) (hr : Run Machine.Step Machine.Tame m m') :
    m'.CurrentLive ∧ m'.rg.freeList.Nodup ∧ ∃ L : Nat → List Nat, ∀ v, m'.rg.Live v →
      m'.rg.node.Linked (m'.rg.vm v).regions (L v) ∧ (L v).Nodup ∧ (L v).Disjoint m'.rg.freeList ∧
        ∀ w, m'.rg.Live w → v ≠ w → (L v).Disjoint (L w) := by
  obtain ⟨⟨L, h⟩, hcur⟩ := regions_regular_of_tame hb hr
  refine ⟨hcur, h.regs.loose, L, fun v hv => ⟨h.regs.linked v hv, h.regs.nodup v hv, h.regs.apart v hv, ?_⟩⟩
  exact fun w hw => h.regs.disjoint v w hv hw

theorem nodes_apart_cloned : ∃ m', Run Machine.Step Machine.Tame (bootMachine 300) m' ∧
      (m'.rg.nodes 1 = [201, 197] ∧ m'.rg.nodes 2 = [198]) ∧
      ∃ L : Nat → List Nat, m'.rg.node.Linked (m'.rg.vm 1).regions (L 1) ∧ (L 1).Disjoint (L 2) := by
  obtain ⟨m', hr, hn, h1, h2⟩ := exists_follow_prog exec Machine.Tame
    [.create, .enter 1, .alloc 1 7, .clone, .alloc 1 7] (bootMachine 300)
    (fun m => (m.rg.nodes 1 = [201, 197] ∧ m.rg.nodes 2 = [198]) ∧ (1 < m.rg.numVms ∧ 0 < (m.rg.vm 1).refCount) ∧
      2 < m.rg.numVms ∧ 0 < (m.rg.vm 2).refCount) (by decide +kernel)
  obtain ⟨-, -, L, hL⟩ := nodes_apart (bootMachine_booted 300) hr
  exact ⟨m', hr, hn, L, (hL 1 h1).1, (hL 1 h1).2.2.2 2 h2 (by decide)⟩

/-- The rounded size is zero, and the region is put in all the same. -/
theorem empty_region_after_wrapped_alloc : ∃ m', Run Machine.Step (fun _ _ => True) (bootMachine 300) m' ∧
    m'.rg.Live 0 ∧ ∃ i ∈ m'.rg.nodes 0, (m'.rg.span i).start = (m'.rg.span i).stop ∧ ¬ m'.rg.WellFormed 0 := by
  obtain ⟨m', hr, hli, i, hi, he⟩ := exists_follow_prog exec (fun _ _ => True) [.alloc 0xfffff001 3] (bootMachine 300)
    (fun m => (0 < m.rg.numVms ∧ 0 < (m.rg.vm 0).refCount) ∧
      ∃ i ∈ m.rg.nodes 0, (m.rg.span i).start = (m.rg.span i).stop) (by decide +kernel)
  refine ⟨m', hr, hli, i, hi, he, fun hw => ?_⟩
  have := (hw.region i hi).1
  omega

end Yagura
