import Yagura.DList
import Yagura.Paging

/-!
# Address spaces

Region lists, the slab cache their nodes come from, the kernel heap and the
`vm_*` functions (`vm.c`, `slab.c`, `kmalloc.c`). Nodes and `struct vm`s are
objects named by numbers in the order of their creation; the pages that hold
them are allocated and freed as in the source. Vm `0` is `kernel_vm`.
-/

namespace Yagura

open Prog

def VM_READ : Nat := 0x1
def VM_WRITE : Nat := 0x2
def VM_USER : Nat := 0x4
def VM_SHARED : Nat := 0x8
def VM_WC : Nat := 0x10
def VM_RW : Nat := 0x3

structure Span where
  start : Nat
  stop : Nat
  flags : Nat
  deriving DecidableEq, Repr

structure Vm where
  start : Nat
  stop : Nat
  pageDirectory : Nat
  regions : Option Nat
  refCount : Nat
  addr : Nat
  deriving DecidableEq, Repr

structure Regions where
  node : Heap Span
  freeList : List Nat
  numNodes : Nat
  /-- The addresses of the pages that hold the nodes. -/
  slabs : List Nat
  vm : Nat → Vm
  numVms : Nat

structure Machine where
  pg : Paging
  rg : Regions
  current : Option Nat

abbrev RegionsProg := Prog Regions Trap
abbrev MachineProg := Prog Machine Trap

namespace Machine

def currentPageDirectory (m : Machine) : Nat :=
  match m.current with
  | none => 0
  | some v => (m.rg.vm v).pageDirectory

end Machine

def paging {α : Type} (f : Nat → PagingProg α) : MachineProg α := fun m =>
  on Machine.pg (fun m p => { m with pg := p }) (f m.currentPageDirectory) m

def regions {α : Type} (x : RegionsProg α) : MachineProg α := on Machine.rg (fun m r => { m with rg := r }) x

def lookRegions {α : Type} (f : Regions → Except Trap α) : MachineProg α := look fun m => f m.rg

/-! ## Region lists -/

section
variable (r : Regions)

def Regions.span (i : Nat) : Span := (r.node i).val

def Regions.setSpan (i : Nat) (sp : Span) : Regions := { r with node := r.node.setVal i sp }

def Regions.setVm (v : Nat) (u : Vm) : Regions := { r with vm := Function.update r.vm v u }

def Regions.endsBefore (a : Nat) : Option Nat → Bool
  | none => true
  | some n => a ≤ (r.span n).start

def findRegionFrom (a : Nat) : Nat → Option Nat → Except Trap (Option Nat)
  | _, none => .ok none
  | 0, some _ => .error .diverge
  | fuel + 1, some i =>
    if r.endsBefore (r.span i).stop (r.node i).next then
      if (r.span i).start ≤ a ∧ a < (r.span i).stop then .ok (some i)
      else findRegionFrom a fuel (r.node i).next
    else .error (.assert .vm)

def vmFindRegion (v a : Nat) : Except Trap (Option Nat) := findRegionFrom r a r.numNodes (r.vm v).regions

def findGapFrom (size stop : Nat) : Nat → Option Nat → Option Nat → Except Trap (Except Errno (Option Nat × Nat))
  | _, prev, none =>
    match prev with
    | some p => .ok (if add32 (r.span p).stop size ≤ stop then .ok (some p, (r.span p).stop) else .error .ENOMEM)
    | none => .ok (.error .ENOMEM)
  | 0, _, some _ => .error .diverge
  | fuel + 1, prev, some i =>
    if r.endsBefore (r.span i).stop (r.node i).next then
      match prev with
      | some p =>
        if add32 (r.span p).stop size ≤ (r.span i).start then .ok (.ok (some p, (r.span p).stop))
        else findGapFrom size stop fuel (some i) (r.node i).next
      | none => findGapFrom size stop fuel (some i) (r.node i).next
    else .error (.assert .vm)

def vmFindGap (v size : Nat) : Except Trap (Except Errno (Option Nat × Nat)) :=
  if (r.vm v).stop < add32 (r.vm v).start size then .ok (.error .ENOMEM)
  else
    match (r.vm v).regions with
    | none => .ok (.ok (none, (r.vm v).start))
    | some i => findGapFrom r size (r.vm v).stop r.numNodes none (some i)

def slotAfter (a size : Nat) (prev : Option Nat) : Except Errno (Option Nat × Nat) :=
  match prev with
  | some p => if a < (r.span p).stop ∧ (r.span p).start < add32 a size then .error .EEXIST else .ok (some p, a)
  | none => .ok (none, a)

def findSlotFrom (a size : Nat) : Nat → Option Nat → Option Nat → Except Trap (Except Errno (Option Nat × Nat))
  | _, prev, none => .ok (slotAfter r a size prev)
  | 0, _, some _ => .error .diverge
  | fuel + 1, prev, some i =>
    if (r.span i).start < a then
      if a < (r.span i).stop then .ok (.error .EEXIST)
      else findSlotFrom a size fuel (some i) (r.node i).next
    else .ok (slotAfter r a size prev)

def findSlot (v a size : Nat) : Except Trap (Except Errno (Option Nat × Nat)) :=
  findSlotFrom r a size r.numNodes none (r.vm v).regions

end

def Regions.link (r : Regions) (v : Nat) (cursor : Option Nat) (x : Nat) : Regions :=
  let (h, hd) := r.node.insertAfter (r.vm v).regions cursor x
  { r.setVm v { r.vm v with regions := hd } with node := h }

def Regions.unlink (r : Regions) (v x : Nat) : Regions :=
  let (h, hd) := r.node.remove (r.vm v).regions x
  { r.setVm v { r.vm v with regions := hd } with node := h }

def vmInsertRegionAfter (v : Nat) (cursor : Option Nat) (x : Nat) : RegionsProg Unit := do
  let r ← get
  match cursor with
  | some c =>
    ensure ((r.span c).stop ≤ (r.span x).start) (.assert .vm)
    ensure (r.endsBefore (r.span x).stop (r.node c).next = true) (.assert .vm)
  | none => ensure (r.endsBefore (r.span x).stop (r.vm v).regions = true) (.assert .vm)
  modify fun r => r.link v cursor x

def vmRemoveRegion (v x : Nat) : RegionsProg Unit := modify fun r => r.unlink v x

/-! ## slab.c -/

/-- `PAGE_SIZE / sizeof(struct vm_region) - 1`; the region of the slab page itself takes the first place. -/
def slabObjs : Nat := PAGE_SIZE / 20 - 1

/-- The node for a new slab page, numbered `r.numNodes`, and the objects of the page on the free list. -/
def Regions.addSlab (r : Regions) (sp : Span) : Regions :=
  { r with
    node := Function.update r.node r.numNodes ⟨sp, none, none⟩
    freeList := (List.range' (r.numNodes + 1) slabObjs).reverse
    numNodes := r.numNodes + 1 + slabObjs
    slabs := sp.start :: r.slabs }

def ensureCache : MachineProg (Except Errno Unit) := do
  let m ← get
  if m.rg.freeList ≠ [] then pure (.ok ())
  else
    match ← lookRegions (vmFindGap · 0 PAGE_SIZE) with
    | .error e => pure (.error e)
    | .ok (cursor, a) =>
      match ← paging fun d => pageTableMapAnon d a PAGE_SIZE (PTE_WRITE ||| PTE_GLOBAL) with
      | .error e => pure (.error e)
      | .ok () =>
        regions (modify fun r => r.addSlab ⟨a, add32 a PAGE_SIZE, VM_RW⟩)
        regions (vmInsertRegionAfter 0 cursor m.rg.numNodes)
        pure (.ok ())

def slabCacheAlloc : MachineProg (Except Errno Nat) := do
  match ← ensureCache with
  | .error e => pure (.error e)
  | .ok () =>
    let m ← get
    match m.rg.freeList with
    | [] => trap .fault
    | x :: rest =>
      regions (modify fun r => { r with freeList := rest })
      pure (.ok x)

def slabCacheFree (x : Nat) : MachineProg Unit :=
  regions (modify fun r => { r with freeList := x :: r.freeList })

/-! ## Flags and ranges -/

def validateRange (start size : Nat) : Except Errno Unit :=
  if start = 0 then .error .EFAULT
  else if size = 0 then .error .EINVAL
  else if add32 start size < start then .error .EINVAL
  else .ok ()

def validateVmFlags (m : Machine) (flags : Nat) : Bool :=
  !(flags &&& VM_USER ≠ 0 && (m.current = none || m.current = some 0)) &&
  !(flags &&& VM_WRITE ≠ 0 && flags &&& VM_READ = 0) &&
  !(flags &&& VM_SHARED ≠ 0 && flags &&& VM_RW = 0)

def pteFlags (flags : Nat) : Nat :=
  (if flags &&& VM_USER ≠ 0 then PTE_USER else PTE_GLOBAL) |||
  (if flags &&& VM_WRITE ≠ 0 then PTE_WRITE else 0) |||
  (if flags &&& VM_SHARED ≠ 0 then PTE_SHARED else 0) |||
  (if flags &&& VM_WC ≠ 0 then PTE_PAT else 0)

def toPteFlags (flags : Nat) : MachineProg Nat := do
  let m ← get
  ensure (validateVmFlags m flags = true) (.assert .vm)
  pure (pteFlags flags)

def userVm : MachineProg Nat := do
  let m ← get
  match m.current with
  | none => trap (.assert .vm)
  | some v =>
    ensure (v ≠ 0) (.assert .vm)
    pure v

def vmForFlags (flags : Nat) : MachineProg Nat := if flags &&& VM_USER = 0 then pure 0 else userVm

def vmForAddr (a : Nat) : MachineProg Nat := do
  ensure (a ≠ 0) (.assert .vm)
  if isKernelAddress a then pure 0 else userVm

def pageAlignRange (start size : Nat) : Nat × Nat :=
  (roundDown start, sub32 (roundUp (add32 start size)) (roundDown start))

/-! ## Mapping a new region -/

/-- `alloc`, `alloc_at`, `phys_map` and `virt_map` differ in where the region goes and what is mapped there. -/
def mapRegion (v size flags : Nat) (place : Regions → Except Trap (Except Errno (Option Nat × Nat)))
    (map : Nat → MachineProg (Except Errno Unit)) : MachineProg (Except Errno Nat) := do
  match ← slabCacheAlloc with
  | .error e => pure (.error e)
  | .ok region =>
    match ← lookRegions place with
    | .error e =>
      slabCacheFree region
      pure (.error e)
    | .ok (cursor, a) =>
      match ← map a with
      | .error e =>
        slabCacheFree region
        pure (.error e)
      | .ok () =>
        regions (modify fun r => r.setSpan region ⟨a, add32 a size, flags⟩)
        regions (vmInsertRegionAfter v cursor region)
        pure (.ok a)

/-- Regions without `VM_READ` and `VM_WRITE` have no mapping. -/
def mapIfRw (flags : Nat) (f : Nat → Nat → PagingProg (Except Errno Unit)) : MachineProg (Except Errno Unit) := do
  if flags &&& VM_RW ≠ 0 then
    let pf ← toPteFlags flags
    paging fun d => f d pf
  else pure (.ok ())

def alloc (v size flags : Nat) : MachineProg (Except Errno Nat) :=
  mapRegion v size flags (vmFindGap · v size) fun a =>
    mapIfRw flags fun d pf => pageTableMapAnon d a size pf

def allocAt (v a size flags : Nat) : MachineProg (Except Errno Nat) :=
  mapRegion v size flags (findSlot · v a size) fun a =>
    mapIfRw flags fun d pf => pageTableMapAnon d a size pf

def physMap (v physAddr size flags : Nat) : MachineProg (Except Errno Nat) :=
  mapRegion v size flags (vmFindGap · v size) fun a =>
    mapIfRw flags fun d pf => pageTableMapPhys d a physAddr size pf

/-! ## Changing a region -/

/-- The part of `set_flags` that edits the list: `region` is whole, cut in two or cut in three. -/
def splitFlags (v region a size flags : Nat) : MachineProg (Except Errno Unit) := do
  let m ← get
  let sp := m.rg.span region
  if sp.start = a ∧ add32 sp.start size = sp.stop then
    regions (modify fun r => r.setSpan region { sp with flags := flags })
    pure (.ok ())
  else if sp.start = a then
    match ← slabCacheAlloc with
    | .error e => pure (.error e)
    | .ok right =>
      regions (modify fun r => (r.setSpan right ⟨add32 sp.start size, sp.stop, sp.flags⟩).setSpan region
        ⟨sp.start, add32 sp.start size, flags⟩)
      regions (vmInsertRegionAfter v (some region) right)
      pure (.ok ())
  else if sp.stop = add32 a size then
    match ← slabCacheAlloc with
    | .error e => pure (.error e)
    | .ok right =>
      regions (modify fun r => (r.setSpan right ⟨a, sp.stop, flags⟩).setSpan region { sp with stop := a })
      regions (vmInsertRegionAfter v (some region) right)
      pure (.ok ())
  else
    match ← slabCacheAlloc with
    | .error e => pure (.error e)
    | .ok middle =>
      match ← slabCacheAlloc with
      | .error e =>
        slabCacheFree middle
        pure (.error e)
      | .ok right =>
        regions (modify fun r => ((r.setSpan middle ⟨a, add32 a size, flags⟩).setSpan right
          ⟨add32 a size, sp.stop, sp.flags⟩).setSpan region { sp with stop := a })
        regions (vmInsertRegionAfter v (some region) middle)
        regions (vmInsertRegionAfter v (some middle) right)
        pure (.ok ())

def setFlags (v a size flags : Nat) : MachineProg (Except Errno Unit) := do
  match ← lookRegions (vmFindRegion · v a) with
  | none => pure (.error .ENOENT)
  | some region =>
    let m ← get
    let sp := m.rg.span region
    if sp.stop < add32 a size then pure (.error .EINVAL)
    else if sp.flags = flags then pure (.ok ())
    else if sp.flags &&& VM_RW = 0 ∧ flags &&& VM_RW ≠ 0 then pure (.error .EINVAL)
    else
      match ← splitFlags v region a size flags with
      | .error e => pure (.error e)
      | .ok () =>
        if sp.flags &&& VM_RW ≠ 0 ∧ flags &&& VM_RW = 0 then paging fun d => pageTableUnmap d a size
        else
          let pf ← toPteFlags flags
          paging fun d => pageTableSetFlags d a size pf
        pure (.ok ())

def copyPages (dest src size : Nat) : MachineProg Unit :=
  paging fun d => forUp (fun i =>
    copyPage d ((dest / PAGE_SIZE + i) % 2 ^ 20) ((src / PAGE_SIZE + i) % 2 ^ 20)) (size / PAGE_SIZE) 0

def virtMap (v src size flags : Nat) : MachineProg (Except Errno Nat) := do
  if flags &&& VM_SHARED = 0 then
    match ← alloc v size (flags ||| VM_WRITE) with
    | .error e => pure (.error e)
    | .ok dest =>
      copyPages dest src size
      if flags &&& VM_WRITE = 0 then
        let _ ← setFlags v dest size flags
        pure (.ok dest)
      else pure (.ok dest)
  else
    ensure (flags &&& VM_RW ≠ 0) (.assert .vm)
    match ← mapRegion v size flags (vmFindGap · v size) fun a => do
      let pf ← toPteFlags flags
      paging fun d => pageTableShallowCopy d a src size pf with
    | .error _ => pure (.error .ENOMEM)
    | .ok a => pure (.ok a)

def mapTail (flags d a size pf : Nat) : PagingProg (Except Errno Unit) :=
  if flags &&& VM_RW ≠ 0 then pageTableMapAnon d a size pf else pure (.ok ())

def moveRegion (v region newSize pf : Nat) : MachineProg (Except Errno Nat) := do
  let m ← get
  let sp := m.rg.span region
  let oldSize := sub32 sp.stop sp.start
  match ← lookRegions (vmFindGap · v newSize) with
  | .error e => pure (.error e)
  | .ok (cursor, newAddr) =>
    match ← paging fun d => pageTableShallowCopy d newAddr sp.start oldSize pf with
    | .error e => pure (.error e)
    | .ok () =>
      match ← paging fun d => mapTail sp.flags d (add32 newAddr oldSize) (sub32 newSize oldSize) pf with
      | .error e =>
        paging fun d => pageTableUnmap d newAddr oldSize
        pure (.error e)
      | .ok () =>
        paging fun d => pageTableUnmap d sp.start oldSize
        regions (modify fun r => r.setSpan region { sp with start := newAddr, stop := add32 newAddr newSize })
        regions (vmRemoveRegion v region)
        regions (vmInsertRegionAfter v cursor region)
        pure (.ok newAddr)

def resize (v a newSize : Nat) : MachineProg (Except Errno Nat) := do
  match ← lookRegions (vmFindRegion · v a) with
  | none => pure (.error .ENOENT)
  | some region =>
    let m ← get
    let sp := m.rg.span region
    if a ≠ sp.start then pure (.error .EINVAL)
    else if add32 sp.start newSize = sp.stop then pure (.ok a)
    else
      let oldSize := sub32 sp.stop sp.start
      if newSize < oldSize then
        paging fun d => pageTableUnmap d (add32 sp.start newSize) (sub32 oldSize newSize)
        regions (modify fun r => r.setSpan region { sp with stop := add32 sp.start newSize })
        pure (.ok a)
      else
        let pf ← toPteFlags sp.flags
        -- the next region, if any, starts beyond the new end
        let m ← get
        if m.rg.endsBefore (add32 sp.start newSize + 1) (m.rg.node region).next then
          match ← paging fun d => mapTail sp.flags d (add32 sp.start oldSize) (sub32 newSize oldSize) pf with
          | .error e => pure (.error e)
          | .ok () =>
            regions (modify fun r => r.setSpan region { sp with stop := add32 sp.start newSize })
            pure (.ok a)
        else moveRegion v region newSize pf

def unmap (v a size : Nat) : MachineProg (Except Errno Unit) := do
  match ← lookRegions (vmFindRegion · v a) with
  | none => pure (.error .ENOENT)
  | some region =>
    let m ← get
    let sp := m.rg.span region
    if sp.stop < add32 a size then pure (.error .EINVAL)
    else if sp.start = a ∧ add32 sp.start size = sp.stop then
      paging fun d => pageTableUnmap d a size
      regions (vmRemoveRegion v region)
      slabCacheFree region
      pure (.ok ())
    else if sp.start = a then
      paging fun d => pageTableUnmap d a size
      regions (modify fun r => r.setSpan region { sp with start := add32 sp.start size })
      pure (.ok ())
    else if sp.stop = add32 a size then
      paging fun d => pageTableUnmap d a size
      regions (modify fun r => r.setSpan region { sp with stop := sub32 sp.stop size })
      pure (.ok ())
    else
      match ← slabCacheAlloc with
      | .error e => pure (.error e)
      | .ok right =>
        paging fun d => pageTableUnmap d a size
        regions (modify fun r => (r.setSpan right ⟨add32 a size, sp.stop, sp.flags⟩).setSpan region
          { sp with stop := a })
        regions (vmInsertRegionAfter v (some region) right)
        pure (.ok ())

/-! ## The functions of the interface -/

def vmAlloc (size flags : Nat) : MachineProg (Except Errno Nat) := do
  let m ← get
  if size = 0 then pure (.error .EINVAL)
  else if validateVmFlags m flags = false then pure (.error .EINVAL)
  else
    let v ← vmForFlags flags
    alloc v (roundUp size) flags

def unalign (a aligned : Nat) (r : Except Errno Nat) : Except Errno Nat := r.map fun b => add32 b (sub32 a aligned)

def vmAllocAt (a size flags : Nat) : MachineProg (Except Errno Nat) := do
  let m ← get
  match validateRange a size with
  | .error e => pure (.error e)
  | .ok () =>
    if validateVmFlags m flags = false then pure (.error .EINVAL)
    -- `return false`: a null pointer, not an error
    else if isUserAddress a && flags &&& VM_USER = 0 then pure (.ok 0)
    else
      let (aligned, size) := pageAlignRange a size
      let v ← vmForFlags flags
      if aligned < (m.rg.vm v).start ∨ (m.rg.vm v).stop < add32 aligned size then pure (.error .ERANGE)
      else
        let r ← allocAt v aligned size flags
        pure (unalign a aligned r)

def vmPhysMap (physAddr size flags : Nat) : MachineProg (Except Errno Nat) := do
  let m ← get
  match validateRange physAddr size with
  | .error e => pure (.error e)
  | .ok () =>
    if validateVmFlags m flags = false then pure (.error .EINVAL)
    else
      let (aligned, size) := pageAlignRange physAddr size
      let v ← vmForFlags flags
      let r ← physMap v aligned size flags
      pure (unalign physAddr aligned r)

def vmVirtMap (a size flags : Nat) : MachineProg (Except Errno Nat) := do
  let m ← get
  match validateRange a size with
  | .error e => pure (.error e)
  | .ok () =>
    if validateVmFlags m flags = false then pure (.error .EINVAL)
    else if isUserAddress a && flags &&& VM_USER = 0 then pure (.error .EINVAL)
    else
      let (aligned, size) := pageAlignRange a size
      let v ← vmForFlags flags
      let r ← virtMap v aligned size flags
      pure (unalign a aligned r)

def vmResize (a newSize : Nat) : MachineProg (Except Errno Nat) := do
  match validateRange a newSize with
  | .error e => pure (.error e)
  | .ok () =>
    let (aligned, newSize) := pageAlignRange a newSize
    let v ← vmForAddr a
    let r ← resize v aligned newSize
    pure (unalign a aligned r)

def vmSetFlags (a size flags : Nat) : MachineProg (Except Errno Unit) := do
  let m ← get
  match validateRange a size with
  | .error e => pure (.error e)
  | .ok () =>
    if validateVmFlags m flags = false then pure (.error .EINVAL)
    else
      let (aligned, size) := pageAlignRange a size
      let v ← vmForAddr a
      setFlags v aligned size flags

def vmUnmap (a size : Nat) : MachineProg (Except Errno Unit) := do
  match validateRange a size with
  | .error e => pure (.error e)
  | .ok () =>
    let (aligned, size) := pageAlignRange a size
    let v ← vmForAddr a
    unmap v aligned size

def vmFree (a : Nat) : MachineProg (Except Errno Unit) := do
  if a = 0 then pure (.error .EFAULT)
  else
    let v ← vmForAddr a
    match ← lookRegions (vmFindRegion · v a) with
    | none => pure (.error .ENOENT)
    | some region =>
      let m ← get
      let sp := m.rg.span region
      if sp.start ≠ roundDown a then pure (.error .EINVAL)
      else
        paging fun d => pageTableUnmap d sp.start (sub32 sp.stop sp.start)
        regions (vmRemoveRegion v region)
        slabCacheFree region
        pure (.ok ())

end Yagura
