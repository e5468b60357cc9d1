import Yagura.VmSteps

/-!
# What creating, cloning and destroying do

The outcomes of the functions of `vm.c` and `page_table.c` that make or
take down an address space.
-/

namespace Yagura

open Function Prog

/-! ## Directories -/

def Paging.addDir (s : Paging) (a phys : Nat) : Paging :=
  { s with
    dir := update s.dir s.numDirs fun i =>
      if i < KERNEL_PDE_IDX then 0 else if i < 1023 then s.dir 0 i else phys ||| 3
    dirAddr := update s.dirAddr s.numDirs a
    dirLive := update s.dirLive s.numDirs true
    numDirs := s.numDirs + 1 }

def Paging.dropDir (s : Paging) (d : Nat) : Paging := { s with dirLive := update s.dirLive d false }

section
variable {s : Paging} {d a : Nat} {m : Machine}

theorem virtToPhys_same : Keeps id (virtToPhys d a) :=
  .bind (.bind .get fun _ => .bind .ensure fun _ => .pure _) fun _ => .pure _

theorem pageDirectorySwitch_same : Keeps id (pageDirectorySwitch d) :=
  .bind .get fun _ => .bind virtToPhys_same fun _ => .bind virtToPhys_same fun _ => .ensure

theorem newDir_gives : Gives (newDir d a) s fun r s' =>
    r = s.numDirs ∧ ∃ phys, virtToPhys d a s = .ok (phys, s) ∧ s' = s.addDir a phys := by
  refine .bind .run fun phys s' hv => ?_
  obtain rfl : s' = s := virtToPhys_same _ _ _ hv
  exact .get <| .modify <| .pure ⟨rfl, phys, hv, rfl⟩

inductive CreateDirOut (m : Machine) : Except Errno Nat → Machine → Prop
  | noPage {m' : Machine} : kmalloc PAGE_SIZE m = .ok (none, m') → CreateDirOut m (.error .ENOMEM) m'
  | done {a phys : Nat} {m₁ : Machine} : kmalloc PAGE_SIZE m = .ok (some a, m₁) →
      virtToPhys m₁.currentPageDirectory a m₁.pg = .ok (phys, m₁.pg) →
      CreateDirOut m (.ok m₁.pg.numDirs) (m₁.setPg (m₁.pg.addDir a phys))

theorem pageDirectoryCreate_gives : Gives pageDirectoryCreate m (CreateDirOut m) := by
  refine .bind .run fun r m₁ ha => ?_
  cases r with
  | none => exact .pure (.noPage ha)
  | some a =>
    refine .paging fun dst p hp => ?_
    obtain ⟨rfl, phys, hv, rfl⟩ := newDir_gives dst p hp
    exact .pure (.done ha hv)

inductive CloneDirOut (m : Machine) : Except Errno Nat → Machine → Prop
  | noDir {e : Errno} {m' : Machine} : pageDirectoryCreate m = .ok (.error e, m') → CloneDirOut m (.error e) m'
  | noTable {dst i : Nat} {e : Errno} {m₁ : Machine} {p : Paging} : pageDirectoryCreate m = .ok (.ok dst, m₁) →
      forUpOr (clonePde m₁.currentPageDirectory dst) KERNEL_PDE_IDX 0 m₁.pg = .ok (.error (e, i), p) →
      CloneDirOut m (.error e) (m₁.setPg p)
  | done {dst : Nat} {m₁ : Machine} {p : Paging} : pageDirectoryCreate m = .ok (.ok dst, m₁) →
      forUpOr (clonePde m₁.currentPageDirectory dst) KERNEL_PDE_IDX 0 m₁.pg = .ok (.ok (), p) →
      CloneDirOut m (.ok dst) (m₁.setPg p)

theorem pageDirectoryCloneCurrent_gives : Gives pageDirectoryCloneCurrent m (CloneDirOut m) :=
  .bindOr .run (fun _ _ hd => .pure (.noDir hd)) fun _ _ hd => .pagingOr (fun _ _ hp => .pure (.noTable hd hp))
    fun _ _ hp => .pure (.done hd hp)

end

/-! ## Address spaces -/

def Regions.addVm (r : Regions) (u : Vm) : Regions := { r.setVm r.numVms u with numVms := r.numVms + 1 }

def Machine.enter (m : Machine) (v : Nat) : Machine := { m with current := some v }

section
variable {v : Nat} {m : Machine}

theorem newVm_gives {start stop dir a : Nat} : Gives (regions (newVm start stop dir a)) m fun w m' =>
    w = m.rg.numVms ∧ m' = m.setRg (m.rg.addVm ⟨start, stop, dir, none, 1, a⟩) := by
  have hnew : Gives (newVm start stop dir a) m.rg fun w q => w = m.rg.numVms ∧
      q = m.rg.addVm ⟨start, stop, dir, none, 1, a⟩ := .get <| .modify <| .pure ⟨rfl, rfl⟩
  intro w m' hrun
  obtain ⟨q, hq, rfl⟩ := on_ok.mp hrun
  obtain ⟨hw, rfl⟩ := hnew w q hq
  exact ⟨hw, rfl⟩

inductive SpaceOut (x : MachineProg (Except Errno Nat)) (k : Nat → Nat → MachineProg (Except Errno Nat))
    (m : Machine) : Except Errno Nat → Machine → Prop
  | noVm {m' : Machine} : kmalloc sizeofVm m = .ok (none, m') → SpaceOut x k m (.error .ENOMEM) m'
  | noDir {a : Nat} {e : Errno} {m₁ m₂ m' : Machine} : kmalloc sizeofVm m = .ok (some a, m₁) →
      x m₁ = .ok (.error e, m₂) → kfree a m₂ = .ok ((), m') → SpaceOut x k m (.error e) m'
  | made {a dir : Nat} {r : Except Errno Nat} {m₁ m₂ m' : Machine} : kmalloc sizeofVm m = .ok (some a, m₁) →
      x m₁ = .ok (.ok dir, m₂) → k a dir m₂ = .ok (r, m') → SpaceOut x k m r m'

theorem newSpace_gives {x : MachineProg (Except Errno Nat)} {k : Nat → Nat → MachineProg (Except Errno Nat)} :
    Gives (do
      match ← kmalloc sizeofVm with
      | none => pure (.error .ENOMEM)
      | some a =>
        match ← x with
        | .error e =>
          kfree a
          pure (.error e)
        | .ok dir => k a dir) m (SpaceOut x k m) := by
  refine .bind .run fun r m₁ ha => ?_
  cases r with
  | none => exact .pure (.noVm ha)
  | some a =>
    exact .bindOr .run (fun _ _ hd => .bind .run fun _ _ hf => .pure (.noDir ha hd hf)) fun _ _ hd _ _ hk => .made ha hd hk

theorem vmEnter_gives : Gives (vmEnter v) m fun _ m' => m' = m.enter v := by
  refine .get <| .ensure fun _ => .modify fun _ m' hrun => ?_
  obtain ⟨p, hp, rfl⟩ := on_ok.mp hrun
  rw [show p = m.pg from pageDirectorySwitch_same _ _ _ hp]
  rfl

theorem freeRegions_gives {fuel : Nat} {hd : Option Nat} : Gives (freeRegions fuel hd) m fun _ m' =>
    ∃ fl, m' = m.setRg { m.rg with freeList := fl } := by
  induction fuel generalizing hd m with
  | zero =>
    cases hd with
    | none => exact .pure ⟨_, rfl⟩
    | some i => exact .trap
  | succ fuel ih =>
    cases hd with
    | none => exact .pure ⟨_, rfl⟩
    | some i => exact .get <| .free ih

inductive DestroyOut (v : Nat) (m : Machine) : Machine → Prop
  | run {saved : Nat} {fl : List Nat} {p₁ p₂ : Paging} {m₂ m' : Machine} : m.current = some saved →
      freeRegions m.rg.numNodes (m.rg.vm v).regions (m.enter v) =
        .ok ((), (m.enter v).setRg { m.rg with freeList := fl }) →
      (m.rg.vm v).pageDirectory ≠ 0 →
      forUp (destroyTable (m.rg.vm v).pageDirectory) KERNEL_PDE_IDX 0 m.pg = .ok ((), p₁) →
      forUp (destroyPde (m.rg.vm v).pageDirectory) KERNEL_PDE_IDX 0 p₁ = .ok ((), p₂) →
      kfree (p₂.dirAddr (m.rg.vm v).pageDirectory) (((m.enter v).setPg p₂).setRg
        ({ m.rg with freeList := fl }.setVm v { m.rg.vm v with pageDirectory := 0 })) = .ok ((), m₂) →
      kfree (m.rg.vm v).addr ((m₂.setPg (m₂.pg.dropDir (m.rg.vm v).pageDirectory)).enter
        (if v = saved then 0 else saved)) = .ok ((), m') →
      DestroyOut v m m'

theorem vmDestroy_gives : Gives (vmDestroy v) m fun _ m' => DestroyOut v m m' := by
  refine .get ?_
  cases hc : m.current with
  | none => exact .trap
  | some saved =>
    suffices hre : Gives (do
        freeRegions m.rg.numNodes (m.rg.vm v).regions
        pageDirectoryDestroyCurrent
        vmEnter (if v = saved then 0 else saved)
        kfree (m.rg.vm v).addr : MachineProg Unit) (m.enter v) fun _ m' => DestroyOut v m m' by
      refine .ite (fun _ => .bind vmEnter_gives ?_) fun hv => ?_
      · rintro _ _ rfl
        exact hre
      · obtain rfl := not_not.mp hv
        rwa [show m.enter v = m by rw [Machine.enter, ← hc]] at hre
    refine .bind .run fun _ m₁ hf => ?_
    obtain ⟨fl, rfl⟩ := freeRegions_gives _ _ hf
    refine .bind (P := fun _ m₃ => ∃ p₁ p₂ m₂, (m.rg.vm v).pageDirectory ≠ 0 ∧
      forUp (destroyTable (m.rg.vm v).pageDirectory) KERNEL_PDE_IDX 0 m.pg = .ok ((), p₁) ∧
      forUp (destroyPde (m.rg.vm v).pageDirectory) KERNEL_PDE_IDX 0 p₁ = .ok ((), p₂) ∧
      kfree (p₂.dirAddr (m.rg.vm v).pageDirectory) (((m.enter v).setPg p₂).setRg
        ({ m.rg with freeList := fl }.setVm v { m.rg.vm v with pageDirectory := 0 })) = .ok ((), m₂) ∧
      m₃ = m₂.setPg (m₂.pg.dropDir (m.rg.vm v).pageDirectory)) ?_ ?_
    · -- `page_directory_destroy_current` of the vm just entered
      refine .get <| .ensure fun hpd => .paging fun _ p₁ hp1 => .edit <| .paging fun _ p hp => ?_
      obtain rfl : p = p₁ := pageDirectorySwitch_same _ _ _ hp
      refine .paging fun _ p₂ hp2 => .get <| .bind .run fun _ m₂ hk _ m₃ hrun => ?_
      obtain ⟨p₃, hp3, rfl⟩ := on_ok.mp hrun
      obtain rfl := modify_ok.mp hp3
      exact ⟨p, p₂, m₂, hpd, hp1, hp2, hk, rfl⟩
    · rintro _ _ ⟨p₁, p₂, m₂, hpd, hp1, hp2, hk, rfl⟩
      refine .bind vmEnter_gives ?_
      rintro _ _ rfl _ m' hk'
      exact .run hc hf hpd hp1 hp2 hk hk'

inductive UnrefOut (v : Nat) (m : Machine) : Machine → Prop
  | keep : 1 < (m.rg.vm v).refCount →
      UnrefOut v m (m.setRg (m.rg.setVm v { m.rg.vm v with refCount := (m.rg.vm v).refCount - 1 }))
  | last {m' : Machine} : (m.rg.vm v).refCount = 1 →
      DestroyOut v (m.setRg (m.rg.setVm v { m.rg.vm v with refCount := 0 })) m' → UnrefOut v m m'

theorem vmUnref_gives : Gives (vmUnref v) m fun _ m' => v ≠ 0 ∧ UnrefOut v m m' := by
  refine .get <| .ensure fun h0 => .ensure fun hpos => .edit <| .ite (fun hone _ m' hrun => ?_) fun hone => .pure
    ⟨h0, .keep (by omega)⟩
  rw [hone] at hrun
  exact ⟨h0, .last hone (vmDestroy_gives _ m' hrun)⟩

end

end Yagura
