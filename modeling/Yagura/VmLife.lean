import Yagura.Vm

/-!
# The life of an address space

Creating, entering, cloning and destroying a vm with its page directory, and
the runs of the memory manager: sequences of calls with arbitrary 32-bit
arguments, none of which traps.
-/

namespace Yagura

open Nat Prog

/-! ## kmalloc.c -/

def kmalloc (size : Nat) : MachineProg (Option Nat) := do
  match ← vmAlloc size (VM_READ ||| VM_WRITE) with
  | .error _ => pure none
  | .ok a => pure (some a)

/-- Whether a region of `n` bytes can be placed in the kernel heap. -/
def Machine.hasRoom (m : Machine) (n : Nat) : Bool :=
  match alloc 0 n (VM_READ ||| VM_WRITE) m with
  | .ok (.ok _, _) => true
  | _ => false

theorem kmalloc_isSome {size : Nat} {m m' : Machine} {r : Option Nat} (hs : size < 2 ^ 32)
    (h : kmalloc size m = .ok (r, m')) : r.isSome = (kmallocSize m.hasRoom size).isSome := by
  obtain ⟨out, m₁, ha, hr⟩ := bind_ok.mp h
  unfold vmAlloc at ha
  rw [get_bind] at ha
  unfold kmallocSize
  rw [mod_eq_of_lt hs]
  by_cases h0 : size = 0
  · rw [if_pos h0] at ha ⊢
    obtain ⟨rfl, -⟩ := pure_ok.mp ha
    obtain ⟨rfl, -⟩ := pure_ok.mp hr
    rfl
  · rw [if_neg h0] at ha ⊢
    have hfl : validateVmFlags m (VM_READ ||| VM_WRITE) = true := rfl
    rw [if_neg (by rw [hfl]; decide)] at ha
    replace ha : alloc 0 (roundUp size) (VM_READ ||| VM_WRITE) m = _ := (bind_run (pure_run 0)).symm.trans ha
    unfold Machine.hasRoom
    rw [ha]
    cases out with
    | error e =>
      obtain ⟨rfl, -⟩ := pure_ok.mp hr
      rfl
    | ok a =>
      obtain ⟨rfl, -⟩ := pure_ok.mp hr
      rfl

def kfree (a : Nat) : MachineProg Unit := do
  if a = 0 then pure ()
  else
    let r ← vmFree a
    ensure (r = .ok ()) (.assert .kmalloc)

/-! ## Page directories -/

def pageDirectoryCreate : MachineProg (Except Errno Nat) := do
  match ← kmalloc PAGE_SIZE with
  | none => pure (.error .ENOMEM)
  | some a =>
    let dst ← paging fun d => newDir d a
    pure (.ok dst)

/-- When a table cannot be cloned, the new directory and what it holds stay behind. -/
def pageDirectoryCloneCurrent : MachineProg (Except Errno Nat) := do
  match ← pageDirectoryCreate with
  | .error e => pure (.error e)
  | .ok dst =>
    match ← paging fun d => forUpOr (clonePde d dst) KERNEL_PDE_IDX 0 with
    | .error (e, _) => pure (.error e)
    | .ok () => pure (.ok dst)

def releaseDir (pd : Nat) : MachineProg Unit := do
  paging fun _ => forUp (destroyPde pd) KERNEL_PDE_IDX 0
  let m ← get
  kfree (m.pg.dirAddr pd)
  paging fun _ => modify fun s => { s with dirLive := Function.update s.dirLive pd false }

def pageDirectoryDestroyCurrent : MachineProg Unit := do
  let m ← get
  let pd := m.currentPageDirectory
  ensure (pd ≠ 0) (.assert .pageTable)
  paging fun d => forUp (destroyTable d) KERNEL_PDE_IDX 0
  match m.current with
  | none => trap (.assert .pageTable)
  | some v =>
    regions (modify fun r => r.setVm v { r.vm v with pageDirectory := 0 })
    paging pageDirectorySwitch
    releaseDir pd

/-! ## vm.c -/

def sizeofVm : Nat := 32

def newVm (start stop dir a : Nat) : RegionsProg Nat := do
  let r ← get
  modify fun r => { r.setVm r.numVms ⟨start, stop, dir, none, 1, a⟩ with numVms := r.numVms + 1 }
  pure r.numVms

def vmCreate (start stop : Nat) : MachineProg (Except Errno Nat) := do
  match ← kmalloc sizeofVm with
  | none => pure (.error .ENOMEM)
  | some a =>
    match ← pageDirectoryCreate with
    | .error e =>
      kfree a
      pure (.error e)
    | .ok dir =>
      let v ← regions (newVm start stop dir a)
      pure (.ok v)

def vmRef (v : Nat) : MachineProg Unit := do
  ensure (v ≠ 0) (.assert .vm)
  regions (modify fun r => r.setVm v { r.vm v with refCount := (r.vm v).refCount + 1 })

def vmEnter (v : Nat) : MachineProg Unit := do
  let m ← get
  ensure (m.current ≠ none) (.assert .vm)
  modify fun m => { m with current := some v }
  paging pageDirectorySwitch

def freeRegions : Nat → Option Nat → MachineProg Unit
  | _, none => pure ()
  | 0, some _ => trap .diverge
  | fuel + 1, some i => do
    let m ← get
    slabCacheFree i
    freeRegions fuel (m.rg.node i).next

def vmDestroy (v : Nat) : MachineProg Unit := do
  let m ← get
  match m.current with
  | none => trap (.assert .vm)
  | some saved =>
    if v ≠ saved then vmEnter v else pure ()
    freeRegions m.rg.numNodes (m.rg.vm v).regions
    pageDirectoryDestroyCurrent
    vmEnter (if v = saved then 0 else saved)
    kfree (m.rg.vm v).addr

def vmUnref (v : Nat) : MachineProg Unit := do
  let m ← get
  ensure (v ≠ 0) (.assert .vm)
  ensure (0 < (m.rg.vm v).refCount) (.assert .vm)
  regions (modify fun r => r.setVm v { r.vm v with refCount := (r.vm v).refCount - 1 })
  if (m.rg.vm v).refCount = 1 then vmDestroy v else pure ()

def appendClone (v' it cloned : Nat) (prev : Option Nat) (r : Regions) : Regions :=
  let h : Heap Span := Function.update r.node cloned ⟨r.span it, prev, none⟩
  match prev with
  | some p => { r with node := h.setNext p (some cloned) }
  | none => { r.setVm v' { r.vm v' with regions := some cloned } with node := h }

def cloneRegions (v' : Nat) : Nat → Option Nat → Option Nat → MachineProg (Except Errno Unit)
  | _, _, none => pure (.ok ())
  | 0, _, some _ => trap .diverge
  | fuel + 1, prev, some it => do
    match ← slabCacheAlloc with
    | .error e =>
      vmUnref v'
      pure (.error e)
    | .ok cloned =>
      regions (modify (appendClone v' it cloned prev))
      let m ← get
      cloneRegions v' fuel (some cloned) (m.rg.node it).next

def vmClone : MachineProg (Except Errno Nat) := do
  let m ← get
  match m.current with
  | none => trap (.assert .vm)
  | some v =>
    ensure (v ≠ 0) (.assert .vm)
    match ← kmalloc sizeofVm with
    | none => pure (.error .ENOMEM)
    | some a =>
      match ← pageDirectoryCloneCurrent with
      | .error e =>
        kfree a
        pure (.error e)
      | .ok dir =>
        let v' ← regions (newVm (m.rg.vm v).start (m.rg.vm v).stop dir a)
        let m ← get
        match ← cloneRegions v' m.rg.numNodes none (m.rg.vm v).regions with
        | .error e => pure (.error e)
        | .ok () => pure (.ok v')

/-! ## Runs -/

/-- The calls of the memory manager's interface. `touch` is the processor
marking a page of the current address space accessed, or written. -/
inductive Op
  | create
  | ref (v : Nat)
  | unref (v : Nat)
  | enter (v : Nat)
  | clone
  | alloc (size flags : UInt32)
  | allocAt (a size flags : UInt32)
  | physMap (physAddr size flags : UInt32)
  | virtMap (a size flags : UInt32)
  | resize (a newSize : UInt32)
  | setFlags (a size flags : UInt32)
  | unmap (a size : UInt32)
  | free (a : UInt32)
  | touch (a : UInt32) (dirty : Bool)
  deriving DecidableEq, Repr

def PTE_ACCESSED : Nat := 0x20
def PTE_DIRTY : Nat := 0x40

def touchPage (d n : Nat) (dirty : Bool) : PagingProg Unit := do
  let s ← get
  ensure (n < 1023 * 1024 ∧ present (s.dir d (n / 1024)) = true ∧ present (s.entry d n) = true) .fault
  modify fun s => s.setEntry d n (s.entry d n ||| PTE_ACCESSED ||| if dirty then PTE_DIRTY else 0)

/-- Where user space starts: the bounds `exec` passes to `vm_create`. -/
def USER_START : Nat := 0x100000

def discard {α β : Type} (x : MachineProg (Except Errno α)) (f : α → β) : MachineProg (Except Errno β) := do
  match ← x with
  | .error e => pure (.error e)
  | .ok a => pure (.ok (f a))

def exec : Op → MachineProg (Except Errno Nat)
  | .create => vmCreate USER_START KERNEL_VIRT_ADDR
  | .ref v => do vmRef v; pure (.ok 0)
  | .unref v => do vmUnref v; pure (.ok 0)
  | .enter v => do vmEnter v; pure (.ok 0)
  | .clone => vmClone
  | .alloc size flags => vmAlloc size.toNat flags.toNat
  | .allocAt a size flags => vmAllocAt a.toNat size.toNat flags.toNat
  | .physMap physAddr size flags => vmPhysMap physAddr.toNat size.toNat flags.toNat
  | .virtMap a size flags => vmVirtMap a.toNat size.toNat flags.toNat
  | .resize a newSize => vmResize a.toNat newSize.toNat
  | .setFlags a size flags => discard (vmSetFlags a.toNat size.toNat flags.toNat) fun _ => 0
  | .unmap a size => discard (vmUnmap a.toNat size.toNat) fun _ => 0
  | .free a => discard (vmFree a.toNat) fun _ => 0
  | .touch a dirty => do
    paging fun d => touchPage d (a.toNat / PAGE_SIZE) dirty
    pure (.ok 0)

def Machine.Step (m : Machine) (op : Op) (m' : Machine) : Prop := ∃ r, exec op m = .ok (r, m')

/-! ## Boot -/

/-- What `page_init`, `page_table_init` and `vm_init` leave: only the tables of the kernel heap are mapped. -/
structure Machine.Booted (m : Machine) : Prop where
  noNodes : m.rg.numNodes = 0 ∧ m.rg.freeList = [] ∧ m.rg.slabs = []
  oneVm : m.rg.numVms = 1
  kernelVm : (m.rg.vm 0).start = KERNEL_HEAP_START ∧ (m.rg.vm 0).stop = KERNEL_HEAP_END ∧
    (m.rg.vm 0).pageDirectory = 0 ∧ (m.rg.vm 0).regions = none ∧ (m.rg.vm 0).refCount = 1
  current : m.current = none ∨ m.current = some 0
  oneDir : m.pg.numDirs = 1 ∧ m.pg.dirLive 0 = true ∧ KERNEL_VIRT_ADDR ≤ m.pg.dirAddr 0
  userHalf : ∀ i < KERNEL_PDE_IDX, m.pg.dir 0 i = 0
  kernelHalf : ∀ i, KERNEL_PDE_IDX ≤ i → i < 1023 → present (m.pg.dir 0 i) = true
  tables : ∀ i j, KERNEL_PDE_IDX ≤ i → i < 1023 → KERNEL_PDE_IDX ≤ j → j < 1023 →
    frameOf (m.pg.dir 0 i) = frameOf (m.pg.dir 0 j) → i = j
  heap : ∀ i, KERNEL_PDE_IDX < i → i < 1023 → ∀ j < 1024, m.pg.mem (frameOf (m.pg.dir 0 i)) j = 0
  quickmaps : m.pg.mem (frameOf (m.pg.dir 0 KERNEL_PDE_IDX)) QUICKMAP_PAGE = 0 ∧
    m.pg.mem (frameOf (m.pg.dir 0 KERNEL_PDE_IDX)) QUICKMAP_PAGE_TABLE = 0
  bitmap : ∀ p < m.pg.numPages, m.pg.bitmap p = true ↔ m.pg.refCounts p = 0
  image : ∀ p < m.pg.numPages, p = frameOf (m.pg.dir 0 KERNEL_PDE_IDX) → m.pg.refCounts p = UINT8_MAX
  heapTables : ∀ p < m.pg.numPages, (∃ i, KERNEL_PDE_IDX < i ∧ i < 1023 ∧ p = frameOf (m.pg.dir 0 i)) →
    m.pg.refCounts p = 1
  otherPages : ∀ p < m.pg.numPages, (∀ i, KERNEL_PDE_IDX < i → i < 1023 → p ≠ frameOf (m.pg.dir 0 i)) →
    m.pg.refCounts p = 0 ∨ m.pg.refCounts p = UINT8_MAX
  free : m.pg.freeKibibytes =
    UInt32.ofNat (4 * ((List.range m.pg.numPages).filter fun p => m.pg.refCounts p = 0).length)

def bootMachine (n : Nat) : Machine where
  pg :=
    { numPages := n
      bitmap := fun p => 258 ≤ p
      refCounts := fun p => if p < 4 then UINT8_MAX else if p < 258 then 1 else 0
      freeKibibytes :=
        UInt32.ofNat (4 * ((List.range n).filter fun p => (if p < 4 then UINT8_MAX else if p < 258 then 1 else 0) = 0).length)
      mem := fun p j => if p = 2 ∧ j < QUICKMAP_PAGE then j * PAGE_SIZE ||| 3 else 0
      dir := fun d i =>
        if d ≠ 0 ∨ i < KERNEL_PDE_IDX then 0
        else if i = KERNEL_PDE_IDX then 2 * PAGE_SIZE ||| 3
        else if i < 1023 then (i - 765) * PAGE_SIZE ||| 7
        else PAGE_SIZE ||| 3
      dirAddr := fun _ => KERNEL_VIRT_ADDR + PAGE_SIZE
      dirLive := fun d => d = 0
      numDirs := 1
      smpActive := true }
  rg :=
    { node := fun _ => ⟨⟨0, 0, 0⟩, none, none⟩
      freeList := []
      numNodes := 0
      slabs := []
      vm := fun _ => ⟨KERNEL_HEAP_START, KERNEL_HEAP_END, 0, none, 1, 0⟩
      numVms := 1 }
  current := some 0

theorem present_or_one {w f : Nat} (hf : f % 2 = 1) : present (w ||| f) = true := by
  simp [present, testBit_zero, hf]

theorem frameOf_mul_or {p f : Nat} (hf : f < PAGE_SIZE) : frameOf (p * PAGE_SIZE ||| f) = p := by
  unfold frameOf
  have h : p * PAGE_SIZE ||| f = p * PAGE_SIZE + f := by
    rw [mul_comm, show PAGE_SIZE = 2 ^ 12 from rfl]
    exact (two_pow_add_eq_or_of_lt hf p).symm
  rw [h, add_comm, add_mul_div_right _ _ (by decide), div_eq_of_lt hf, zero_add]

theorem bootMachine_dir {n i : Nat} (hi : KERNEL_PDE_IDX ≤ i) (hlt : i < 1023) :
    present ((bootMachine n).pg.dir 0 i) = true ∧
      frameOf ((bootMachine n).pg.dir 0 i) = if i = KERNEL_PDE_IDX then 2 else i - 765 := by
  simp only [bootMachine, ne_eq, not_true_eq_false, false_or, if_neg (not_lt.mpr hi), if_pos hlt]
  split
  · exact ⟨present_or_one rfl, frameOf_mul_or (by decide)⟩
  · exact ⟨present_or_one rfl, frameOf_mul_or (by decide)⟩

theorem bootMachine_booted (n : Nat) : (bootMachine n).Booted := by
  have hfr := fun i h h' => (bootMachine_dir (n := n) (i := i) h h').2
  have hrc : ∀ p, (bootMachine n).pg.refCounts p = if p < 4 then UINT8_MAX else if p < 258 then 1 else 0 := fun _ => rfl
  refine ⟨⟨rfl, rfl, rfl⟩, rfl, ⟨rfl, rfl, rfl, rfl, rfl⟩, .inr rfl, ⟨rfl, rfl, Nat.le_add_right ..⟩, fun i hi => ?_,
    fun i h h' => (bootMachine_dir h h').1, ?_, ?_, ⟨?_, ?_⟩, ?_, ?_, ?_, ?_, rfl⟩
  · simp [bootMachine, hi]
  · intro i j hi hi' hj hj' he
    rw [hfr i hi hi', hfr j hj hj'] at he
    split at he <;> split at he <;> simp only [KERNEL_PDE_IDX] at * <;> omega
  · intro i hi hi' j hj
    rw [hfr i (le_of_lt hi) hi', if_neg (Nat.ne_of_gt hi)]
    simp only [bootMachine, KERNEL_PDE_IDX] at *
    rw [if_neg]
    omega
  · rw [hfr _ le_rfl (by decide)]
    rfl
  · rw [hfr _ le_rfl (by decide)]
    rfl
  · intro p hp
    simp only [bootMachine, decide_eq_true_eq, UINT8_MAX]
    split
    · omega
    · split <;> omega
  · rintro p hp rfl
    rw [hfr _ le_rfl (by decide), hrc]
    rfl
  · rintro p hp ⟨i, hi, hi', rfl⟩
    rw [hfr i (le_of_lt hi) hi', if_neg (Nat.ne_of_gt hi), hrc]
    simp only [KERNEL_PDE_IDX] at *
    rw [if_neg (by omega), if_pos (by omega)]
  · intro p hp hne
    rw [hrc]
    by_cases h4 : p < 4
    · rw [if_pos h4]
      exact .inr rfl
    · rw [if_neg h4, if_neg]
      · exact .inl rfl
      · intro h258
        refine hne (p + 765) (by simp only [KERNEL_PDE_IDX]; omega) (by omega) ?_
        rw [hfr _ (by simp only [KERNEL_PDE_IDX]; omega) (by omega), if_neg (by simp only [KERNEL_PDE_IDX]; omega)]
        omega

end Yagura
