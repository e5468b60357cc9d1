import Yagura.LockCode
import Yagura.Vm

/-!
# The locks of the memory manager

The functions of `page.c`, `page_table.c`, `slab.c`, `kmalloc.c` and `vm.c` as
the mutexes they lock and what decides about them: the flags, the sizes and the
length of the region cache's free list. What the regions, the page tables and
the bitmap decide is a choice. A region node may come from memory that
`slab_cache_alloc` takes from `kernel_vm` while it holds the cache's mutex.
-/

namespace Yagura

namespace MmLocks

open LockCode Takes

inductive MmLock
  /-- The lock of an address space; `0` is `kernel_vm`. -/
  | vm (v : Nat)
  | regionCache
  | quickmap
  | page
  deriving DecidableEq

/-- The state is the number of objects on the region cache's free list. -/
abbrev MmCode := LockCode MmLock Nat

/-! ## Pages and page tables -/

def pageAlloc : MmCode Bool := do
  mutexLock .page
  let found ← either
  mutexUnlock .page
  return found

def countPage : MmCode Unit := do
  if ← either then
    mutexLock .page
    mutexUnlock .page
    return ()
  else return ()

def pageRef : MmCode Unit := countPage

def pageUnref : MmCode Unit := countPage

def getOrCreatePte : MmCode Bool := do
  if ← either then return true else pageAlloc

def pageTableUnmap (pages : Nat) : MmCode Unit := times pages pageUnref

def mapPages (page : MmCode Bool) (done : Nat) : Nat → MmCode Bool
  | 0 => return true
  | left + 1 => do
    if ← page then mapPages page (done + 1) left
    else
      pageTableUnmap done
      return false

def pageTableMapAnon (pages : Nat) : MmCode Bool :=
  mapPages (do if ← getOrCreatePte then pageAlloc else return false) 0 pages

def refPage : MmCode Bool := do
  if ← getOrCreatePte then
    pageRef
    return true
  else return false

def pageTableMapPhys (pages : Nat) : MmCode Bool := mapPages refPage 0 pages

def pageTableShallowCopy (pages : Nat) : MmCode Bool := mapPages refPage 0 pages

/-! ## The slab cache -/

def ensureCache : MmCode Bool := do
  if 0 < (← read) then return true
  else
    mutexLock (.vm 0)
    if ← either then
      if ← pageTableMapAnon 1 then
        mutexUnlock (.vm 0)
        update (· + slabObjs)
        return true
      else
        mutexUnlock (.vm 0)
        return false
    else
      mutexUnlock (.vm 0)
      return false

def slabCacheAlloc : MmCode Bool := do
  mutexLock .regionCache
  if ← ensureCache then
    update (· - 1)
    mutexUnlock .regionCache
    return true
  else
    mutexUnlock .regionCache
    return false

def slabCacheFree : MmCode Unit := do
  mutexLock .regionCache
  update (· + 1)
  mutexUnlock .regionCache
  return ()

/-! ## Address spaces

`cur` is the address space of the task that calls.
-/

def validateVmFlags (cur flags : Nat) : Bool :=
  !(flags &&& VM_USER != 0 && cur == 0) && !(flags &&& VM_WRITE != 0 && flags &&& VM_READ == 0) &&
    !(flags &&& VM_SHARED != 0 && flags &&& VM_RW == 0)

def vmForFlags (cur flags : Nat) : Nat := if flags &&& VM_USER = 0 then 0 else cur

/-- `none`: an assertion fails, before anything is locked. -/
def vmForAddr (cur a : Nat) : Option Nat :=
  if a = 0 then none
  else if isKernelAddress a then some 0
  else if cur = 0 then none
  else some cur

/-- The part that `alloc`, `alloc_at`, `phys_map` and `virt_map` share: a node, a place for it, its mapping. -/
def mapRegion (map : MmCode Bool) : MmCode Bool := do
  if ← slabCacheAlloc then
    if ← either then
      if ← map then return true
      else
        slabCacheFree
        return false
    else
      slabCacheFree
      return false
  else return false

def mapIfRw (flags : Nat) (map : MmCode Bool) : MmCode Bool := if flags &&& VM_RW = 0 then pure true else map

def alloc (pages flags : Nat) : MmCode Bool := mapRegion (mapIfRw flags (pageTableMapAnon pages))

def allocAt (pages flags : Nat) : MmCode Bool := mapRegion (mapIfRw flags (pageTableMapAnon pages))

def physMap (pages flags : Nat) : MmCode Bool := mapRegion (mapIfRw flags (pageTableMapPhys pages))

def splitRegion : MmCode Bool := do
  if ← either then return true
  else if ← either then slabCacheAlloc
  else if ← either then slabCacheAlloc
  else if ← slabCacheAlloc then
    if ← slabCacheAlloc then return true
    else
      slabCacheFree
      return false
  else return false

def setFlags (pages flags : Nat) : MmCode Bool := do
  -- the region is missing, too short, has the flags already or cannot have them
  if ← either then return (← either)
  else if ← splitRegion then
    if flags &&& VM_RW = 0 then
      if ← either then
        pageTableUnmap pages
        return true
      else return true
    else return true -- page_table_set_flags locks nothing
  else return false

def virtMap (pages flags : Nat) : MmCode Bool := do
  if flags &&& VM_SHARED = 0 then
    if ← alloc pages (flags ||| VM_WRITE) then
      if flags &&& VM_WRITE = 0 then
        let _ ← setFlags pages flags
        return true
      else return true
    else return false
  else mapRegion (pageTableShallowCopy pages)

def growRegion (oldPages pages : Nat) : MmCode Bool := do
  if ← either then pageTableMapAnon (pages - oldPages) else return true

def resize (oldPages pages : Nat) : MmCode Bool := do
  if ← either then return (← either)
  else if pages < oldPages then
    pageTableUnmap (oldPages - pages)
    return true
  else if ← either then growRegion oldPages pages
  else if ← either then
    if ← pageTableShallowCopy oldPages then
      let extended ← growRegion oldPages pages
      pageTableUnmap oldPages
      return extended
    else return false
  else return false

def unmap (pages : Nat) : MmCode Bool := do
  if ← either then return false
  else if ← either then
    pageTableUnmap pages
    slabCacheFree
    return true
  else if ← either then
    pageTableUnmap pages
    return true
  else if ← slabCacheAlloc then
    pageTableUnmap pages
    return true
  else return false

def locked (v : Nat) (body : MmCode Bool) : MmCode Bool := do
  mutexLock (.vm v)
  let r ← body
  mutexUnlock (.vm v)
  return r

def pagesOf (size : Nat) : Nat := size / PAGE_SIZE

def vmAlloc (cur size flags : Nat) : MmCode Bool :=
  if size = 0 ∨ validateVmFlags cur flags = false then pure false
  else locked (vmForFlags cur flags) (alloc (pagesOf (roundUp size)) flags)

def validRange (start size : Nat) : Bool := (validateRange start size).isOk

def vmAllocAt (cur a size flags : Nat) : MmCode Bool :=
  if validRange a size = false ∨ validateVmFlags cur flags = false then pure false
  else if isUserAddress a ∧ flags &&& VM_USER = 0 then pure false
  else do
    -- the range is within the address space
    if ← either then locked (vmForFlags cur flags) (allocAt (pagesOf (pageAlignRange a size).2) flags)
    else return false

def vmPhysMap (cur physAddr size flags : Nat) : MmCode Bool :=
  if validRange physAddr size = false ∨ validateVmFlags cur flags = false then pure false
  else locked (vmForFlags cur flags) (physMap (pagesOf (pageAlignRange physAddr size).2) flags)

def vmVirtMap (cur a size flags : Nat) : MmCode Bool :=
  if validRange a size = false ∨ validateVmFlags cur flags = false then pure false
  else if isUserAddress a ∧ flags &&& VM_USER = 0 then pure false
  else locked (vmForFlags cur flags) (virtMap (pagesOf (pageAlignRange a size).2) flags)

def lockedAt (cur a : Nat) (body : MmCode Bool) : MmCode Bool :=
  match vmForAddr cur a with
  | none => pure false
  | some v => locked v body

def vmResize (cur a oldPages newSize : Nat) : MmCode Bool :=
  if validRange a newSize = false then pure false
  else lockedAt cur a (resize oldPages (pagesOf (pageAlignRange a newSize).2))

def vmSetFlags (cur a size flags : Nat) : MmCode Bool :=
  if validRange a size = false ∨ validateVmFlags cur flags = false then pure false
  else lockedAt cur a (setFlags (pagesOf (pageAlignRange a size).2) flags)

def vmUnmap (cur a size : Nat) : MmCode Bool :=
  if validRange a size = false then pure false
  else lockedAt cur a (unmap (pagesOf (pageAlignRange a size).2))

def vmFree (cur a pages : Nat) : MmCode Bool :=
  match vmForAddr cur a with
  | none => pure false
  | some v => do
    mutexLock (.vm v)
    if ← either then
      pageTableUnmap pages
      mutexUnlock (.vm v)
      slabCacheFree
      return true
    else
      mutexUnlock (.vm v)
      return false

/-! ## Copies of address spaces -/

def kmalloc (cur size : Nat) : MmCode Bool := vmAlloc cur size (VM_READ ||| VM_WRITE)

def kfree (cur pages : Nat) : MmCode Unit := do
  let _ ← vmFree cur KERNEL_HEAP_START pages
  return ()

def pageDirectoryCreate (cur : Nat) : MmCode Bool := kmalloc cur PAGE_SIZE

def clonePtes : Nat → MmCode Bool
  | 0 => return true
  | left + 1 => do
    if ← either then clonePtes left
    else if ← either then
      pageRef
      clonePtes left
    else if ← pageAlloc then clonePtes left
    else return false

def clonePageTable : MmCode Bool := do
  if ← pageAlloc then clonePtes 1024 else return false

def clonePdes : Nat → MmCode Bool
  | 0 => return true
  | left + 1 => do
    if ← either then clonePdes left
    else if ← clonePageTable then clonePdes left
    else return false

def pageDirectoryCloneCurrent (cur : Nat) : MmCode Bool := do
  if ← pageDirectoryCreate cur then
    mutexLock .quickmap
    let copied ← clonePdes KERNEL_PDE_IDX
    mutexUnlock .quickmap
    return copied
  else return false

def unrefEntry : MmCode Unit := do
  if ← either then pageUnref else return ()

def destroyTable : MmCode Unit := do
  if ← either then times 1024 unrefEntry else return ()

def pageDirectoryDestroyCurrent (cur : Nat) : MmCode Unit := do
  times KERNEL_PDE_IDX destroyTable
  times KERNEL_PDE_IDX unrefEntry
  kfree cur 1

def vmUnref (cur regions : Nat) : MmCode Unit := do
  times regions slabCacheFree
  pageDirectoryDestroyCurrent cur
  kfree cur 1

def cloneRegions (cur done : Nat) : Nat → MmCode Bool
  | 0 => do
    mutexUnlock (.vm cur)
    return true
  | left + 1 => do
    if ← slabCacheAlloc then cloneRegions cur (done + 1) left
    else
      mutexUnlock (.vm cur)
      vmUnref cur done
      return false

def sizeofVm : Nat := 32

def vmClone (cur regions : Nat) : MmCode Bool :=
  if cur = 0 then pure false
  else do
    if ← kmalloc cur sizeofVm then
      mutexLock (.vm cur)
      if ← pageDirectoryCloneCurrent cur then cloneRegions cur 0 regions
      else
        mutexUnlock (.vm cur)
        kfree cur 1
        return false
    else return false

/-! ## Calls -/

inductive MmCall
  | vmAlloc (size flags : Nat)
  | vmAllocAt (a size flags : Nat)
  | vmPhysMap (physAddr size flags : Nat)
  | vmVirtMap (a size flags : Nat)
  | vmResize (a oldPages newSize : Nat)
  | vmSetFlags (a size flags : Nat)
  | vmUnmap (a size : Nat)
  | vmFree (a pages : Nat)
  | vmClone (regions : Nat)
  | slabCacheAlloc
  | slabCacheFree

def MmCall.code (cur : Nat) : MmCall → MmCode Bool
  | .vmAlloc size flags => MmLocks.vmAlloc cur size flags
  | .vmAllocAt a size flags => MmLocks.vmAllocAt cur a size flags
  | .vmPhysMap physAddr size flags => MmLocks.vmPhysMap cur physAddr size flags
  | .vmVirtMap a size flags => MmLocks.vmVirtMap cur a size flags
  | .vmResize a oldPages newSize => MmLocks.vmResize cur a oldPages newSize
  | .vmSetFlags a size flags => MmLocks.vmSetFlags cur a size flags
  | .vmUnmap a size => MmLocks.vmUnmap cur a size
  | .vmFree a pages => MmLocks.vmFree cur a pages
  | .vmClone regions => MmLocks.vmClone cur regions
  | .slabCacheAlloc => MmLocks.slabCacheAlloc
  | .slabCacheFree => do
    MmLocks.slabCacheFree
    return true

def body (c : Nat × MmCall) : MmCode Unit := do
  let _ ← c.2.code c.1
  return ()

/-! ## The order -/

/-- Address spaces of tasks come first; `kernel_vm` is locked below them, and the region cache below it. -/
def rank : MmLock → Nat
  | .vm 0 => 2
  | .vm (_ + 1) => 0
  | .quickmap => 1
  | .regionCache => 3
  | .page => 4

def Stocked (held : MmLock → Prop) (free : Nat) : Prop := 0 < free ∨ held (.vm 0)

def Under (h : List MmLock) (l : MmLock) : Prop := ∀ k ∈ h, rank k < rank l

abbrev Keeps {α : Type} (h : List MmLock) (x : MmCode α) : Prop := Takes rank Stocked h h x

section
variable {h : List MmLock} {l l' : MmLock} {α : Type}

theorem Under.trans (hh : Under h l) (hl : rank l ≤ rank l') : Under h l' := fun k hk => (hh k hk).trans_le hl

theorem Under.cons (hh : Under h l') (hl : rank l < rank l') : Under (l :: h) l' := by
  intro k hk
  rcases List.mem_cons.mp hk with rfl | hk
  · exact hl
  · exact hh k hk

theorem under_nil : Under [] l := nofun

/-! ### Pages -/

section
variable (hp : Under h .page)
include hp

theorem pageAlloc_keeps : Keeps h pageAlloc := .lock (.inr hp) fun _ => .unlock rfl

theorem countPage_keeps : Keeps h countPage := .either (.lock (.inr hp) (.unlock rfl)) (.pure ())

theorem getOrCreatePte_keeps : Keeps h getOrCreatePte := either (.pure true) (pageAlloc_keeps hp)

theorem pageTableUnmap_keeps (n : Nat) : Keeps h (pageTableUnmap n) := (countPage_keeps hp).times n

theorem mapPages_keeps {page : MmCode Bool} (hpa : Keeps h page) (done left : Nat) :
    Keeps h (mapPages page done left) := by
  induction left generalizing done with
  | zero => exact .pure true
  | succ left ih =>
    exact hpa.check (ih (done + 1)) ((pageTableUnmap_keeps hp done).bind fun _ => .pure false)

theorem pageTableMapAnon_keeps (n : Nat) : Keeps h (pageTableMapAnon n) :=
  mapPages_keeps hp ((getOrCreatePte_keeps hp).check (pageAlloc_keeps hp) (.pure false)) 0 n

theorem refPage_keeps : Keeps h refPage :=
  (getOrCreatePte_keeps hp).check ((countPage_keeps hp).bind fun _ => .pure true) (.pure false)

theorem pageTableMapPhys_keeps (n : Nat) : Keeps h (pageTableMapPhys n) := mapPages_keeps hp (refPage_keeps hp) 0 n

theorem pageTableShallowCopy_keeps (n : Nat) : Keeps h (pageTableShallowCopy n) :=
  mapPages_keeps hp (refPage_keeps hp) 0 n

theorem clonePtes_keeps (n : Nat) : Keeps h (clonePtes n) := by
  induction n with
  | zero => exact .pure true
  | succ n ih =>
    refine either ih (either ?_ ?_)
    · exact (countPage_keeps hp).bind fun _ => ih
    · exact (pageAlloc_keeps hp).check ih (.pure false)

theorem clonePdes_keeps (n : Nat) : Keeps h (clonePdes n) := by
  induction n with
  | zero => exact .pure true
  | succ n ih =>
    have hta : Keeps h clonePageTable := (pageAlloc_keeps hp).check (clonePtes_keeps hp 1024) (.pure false)
    exact either ih (hta.check ih (.pure false))

theorem unrefEntry_keeps : Keeps h unrefEntry := either (countPage_keeps hp) (.pure ())

theorem destroyTable_keeps : Keeps h destroyTable := either ((unrefEntry_keeps hp).times 1024) (.pure ())

end

/-! ### The cache -/

theorem ensureCache_keeps (hr : Under h .regionCache) : Keeps (.regionCache :: h) ensureCache := by
  have hp : Under (.vm 0 :: .regionCache :: h) .page :=
    ((hr.trans (by decide)).cons (by decide)).cons (by decide)
  refine .read fun free hfr => .ite (fun _ => rfl) fun hze => ?_
  have hhe : MmLock.vm 0 ∈ MmLock.regionCache :: h := hfr.resolve_left hze
  refine .lock (.inl hhe) (.either ?_ (.unlock rfl))
  exact (pageTableMapAnon_keeps hp 1).check (.unlock rfl) (.unlock rfl)

section
variable (hr : Under h .regionCache)
include hr

theorem slabCacheAlloc_keeps : Keeps h slabCacheAlloc :=
  .lock (.inr hr) ((ensureCache_keeps hr).check (.unlock rfl) (.unlock rfl))

theorem slabCacheFree_keeps : Keeps h slabCacheFree := .lock (.inr hr) (.unlock rfl)

/-! ### Regions -/

theorem mapRegion_keeps {map : MmCode Bool} (hmap : Keeps h map) : Keeps h (mapRegion map) := by
  have hfa : Keeps h (do slabCacheFree; return false) := (slabCacheFree_keeps hr).bind fun _ => .pure false
  exact (slabCacheAlloc_keeps hr).check (either (hmap.check (.pure true) hfa) hfa) (.pure false)

omit hr in
theorem mapIfRw_keeps (flags : Nat) {map : MmCode Bool} (hmap : Keeps h map) : Keeps h (mapIfRw flags map) :=
  .ite (fun _ => .pure true) fun _ => hmap

theorem alloc_keeps (pages flags : Nat) : Keeps h (alloc pages flags) :=
  mapRegion_keeps hr (mapIfRw_keeps flags (pageTableMapAnon_keeps (hr.trans (by decide)) pages))

theorem physMap_keeps (pages flags : Nat) : Keeps h (physMap pages flags) :=
  mapRegion_keeps hr (mapIfRw_keeps flags (pageTableMapPhys_keeps (hr.trans (by decide)) pages))

theorem splitRegion_keeps : Keeps h splitRegion := by
  have hnd := slabCacheAlloc_keeps hr
  have hfa : Keeps h (do slabCacheFree; return false) := (slabCacheFree_keeps hr).bind fun _ => .pure false
  exact either (.pure true) (either hnd (either hnd
    (hnd.check (hnd.check (.pure true) hfa) (.pure false))))

theorem setFlags_keeps (pages flags : Nat) : Keeps h (setFlags pages flags) := by
  have hun : Keeps h (do pageTableUnmap pages; return true) :=
    (pageTableUnmap_keeps (hr.trans (by decide)) pages).bind fun _ => .pure true
  refine either (fun _ => rfl) ((splitRegion_keeps hr).check ?_ (.pure false))
  exact .ite (fun _ => .either hun (.pure true)) fun _ => .pure true

theorem virtMap_keeps (pages flags : Nat) : Keeps h (virtMap pages flags) := by
  have hset : Keeps h (do let _ ← setFlags pages flags; return true) :=
    (setFlags_keeps hr pages flags).bind fun _ => .pure true
  refine .ite (fun _ => (alloc_keeps hr _ _).check ?_ (.pure false)) fun _ => mapRegion_keeps hr ?_
  · exact .ite (fun _ => hset) fun _ => .pure true
  · exact pageTableShallowCopy_keeps (hr.trans (by decide)) pages

theorem resize_keeps (oldPages pages : Nat) : Keeps h (resize oldPages pages) := by
  have hp : Under h .page := hr.trans (by decide)
  have hun := pageTableUnmap_keeps hp
  have hgr : Keeps h (growRegion oldPages pages) :=
    either (pageTableMapAnon_keeps hp _) (.pure true)
  refine .either (fun _ => rfl) (.ite (fun _ => (hun _).bind fun _ => .pure true) fun _ => .either hgr ?_)
  refine .either ((pageTableShallowCopy_keeps hp oldPages).check ?_ (.pure false)) (.pure false)
  exact hgr.bind fun extended => (hun oldPages).bind fun _ => .pure extended

theorem unmap_keeps (pages : Nat) : Keeps h (unmap pages) := by
  have hun := pageTableUnmap_keeps (hr.trans (by decide)) pages
  have hdo : Keeps h (do pageTableUnmap pages; return true) := hun.bind fun _ => .pure true
  refine either (.pure false) (either (hun.bind fun _ => ?_) (either hdo ?_))
  · exact (slabCacheFree_keeps hr).bind fun _ => .pure true
  · exact (slabCacheAlloc_keeps hr).check hdo (.pure false)

end

/-! ### Calls -/

theorem rank_vm_lt (v : Nat) : rank (.vm v) < rank .regionCache := by
  cases v with
  | zero => decide
  | succ v => exact Nat.zero_lt_succ 2

theorem Under.vm {v : Nat} (hv : Under h (.vm v)) : Under (.vm v :: h) .regionCache :=
  (hv.trans (rank_vm_lt v).le).cons (rank_vm_lt v)

theorem locked_keeps {v : Nat} (hv : Under h (.vm v)) {body : MmCode Bool} (hbo : Keeps (.vm v :: h) body) :
    Keeps h (locked v body) := .lock (.inr hv) (hbo.bind fun _ => .unlock rfl)

theorem lockedAt_keeps (cur a : Nat) {body : MmCode Bool} (hbo : ∀ v, Keeps [.vm v] body) :
    Keeps [] (lockedAt cur a body) := by
  unfold lockedAt
  split
  · exact .pure false
  · exact locked_keeps under_nil (hbo _)

theorem vmAlloc_keeps {cur flags : Nat} (hv : Under h (.vm (vmForFlags cur flags))) (size : Nat) :
    Keeps h (vmAlloc cur size flags) :=
  .ite (fun _ => .pure false) fun _ => locked_keeps hv (alloc_keeps hv.vm _ _)

theorem vmAllocAt_keeps (cur a size flags : Nat) : Keeps [] (vmAllocAt cur a size flags) := by
  refine .ite (fun _ => .pure false) fun _ => .ite (fun _ => .pure false) fun _ => .either ?_ (.pure false)
  exact locked_keeps under_nil (alloc_keeps under_nil.vm _ _)

theorem vmPhysMap_keeps (cur physAddr size flags : Nat) : Keeps [] (vmPhysMap cur physAddr size flags) :=
  .ite (fun _ => .pure false) fun _ => locked_keeps under_nil (physMap_keeps under_nil.vm _ _)

theorem vmVirtMap_keeps (cur a size flags : Nat) : Keeps [] (vmVirtMap cur a size flags) := by
  refine .ite (fun _ => .pure false) fun _ => .ite (fun _ => .pure false) fun _ => ?_
  exact locked_keeps under_nil (virtMap_keeps under_nil.vm _ _)

theorem vmResize_keeps (cur a oldPages newSize : Nat) : Keeps [] (vmResize cur a oldPages newSize) :=
  .ite (fun _ => .pure false) fun _ => lockedAt_keeps cur a fun _ => resize_keeps under_nil.vm _ _

theorem vmSetFlags_keeps (cur a size flags : Nat) : Keeps [] (vmSetFlags cur a size flags) :=
  .ite (fun _ => .pure false) fun _ => lockedAt_keeps cur a fun _ => setFlags_keeps under_nil.vm _ _

theorem vmUnmap_keeps (cur a size : Nat) : Keeps [] (vmUnmap cur a size) :=
  .ite (fun _ => .pure false) fun _ => lockedAt_keeps cur a fun _ => unmap_keeps under_nil.vm _

theorem vmFree_keeps {cur a : Nat} (hv : ∀ v, vmForAddr cur a = some v → Under h (.vm v)) (pages : Nat) :
    Keeps h (vmFree cur a pages) := by
  unfold vmFree
  split
  · exact .pure false
  · rename_i v hva
    have hh := hv v hva
    refine .lock (.inr hh) (.either ?_ (.unlock rfl))
    refine (pageTableUnmap_keeps (hh.vm.trans (by decide)) pages).bind fun _ => .unlock ?_
    exact (slabCacheFree_keeps (hh.trans (rank_vm_lt v).le)).bind fun _ => .pure true

/-! ### Copies -/

section
variable (hk : Under h (.vm 0)) (cur : Nat)
include hk

theorem kmalloc_keeps (size : Nat) : Keeps h (kmalloc cur size) := vmAlloc_keeps hk size

theorem kfree_keeps (pages : Nat) : Keeps h (kfree cur pages) := by
  refine (vmFree_keeps (fun v hv => ?_) pages).bind fun _ => .pure ()
  have hke : vmForAddr cur KERNEL_HEAP_START = some 0 := rfl
  obtain rfl : 0 = v := Option.mem_unique hke hv
  exact hk

theorem vmUnref_keeps (regions : Nat) : Keeps h (vmUnref cur regions) := by
  have hp : Under h .page := hk.trans (by decide)
  refine ((slabCacheFree_keeps (hk.trans (by decide))).times regions).bind fun _ => ?_
  have hde : Keeps h (pageDirectoryDestroyCurrent cur) :=
    ((destroyTable_keeps hp).times _).bind fun _ => ((unrefEntry_keeps hp).times _).bind fun _ =>
      kfree_keeps hk cur 1
  exact hde.bind fun _ => kfree_keeps hk cur 1

end

theorem pageDirectoryCloneCurrent_keeps (hq : Under h .quickmap) (cur : Nat) :
    Keeps h (pageDirectoryCloneCurrent cur) := by
  have hp : Under (.quickmap :: h) .page := (hq.trans (by decide)).cons (by decide)
  refine (kmalloc_keeps (hq.trans (by decide)) cur _).check (.lock (.inr hq) ?_) (.pure false)
  exact (clonePdes_keeps hp _).bind fun _ => .unlock rfl

theorem cloneRegions_takes (cur done left : Nat) : Takes rank Stocked [] [.vm cur] (cloneRegions cur done left) := by
  induction left generalizing done with
  | zero => exact .unlock rfl
  | succ left ih =>
    refine (slabCacheAlloc_keeps under_nil.vm).check (ih (done + 1)) (.unlock ?_)
    exact (vmUnref_keeps under_nil cur done).bind fun _ => .pure false

theorem vmClone_keeps (cur regions : Nat) : Keeps [] (vmClone cur regions) := by
  refine .ite (fun _ => .pure false) fun hcur => ?_
  obtain ⟨v, rfl⟩ : ∃ v, cur = v + 1 := Nat.exists_eq_succ_of_ne_zero hcur
  have hq : Under [.vm (v + 1)] .quickmap := under_nil.cons Nat.zero_lt_one
  refine (kmalloc_keeps under_nil _ _).check (.lock (.inr under_nil) ?_) (.pure false)
  refine (pageDirectoryCloneCurrent_keeps hq _).check (cloneRegions_takes _ 0 regions) (.unlock ?_)
  exact (kfree_keeps under_nil _ 1).bind fun _ => .pure false

end

theorem body_keeps (c : Nat × MmCall) : Keeps [] (body c) := by
  obtain ⟨cur, c⟩ := c
  have hco : Keeps [] (c.code cur) := by
    cases c with
    | vmAlloc size flags => exact vmAlloc_keeps under_nil size
    | vmAllocAt a size flags => exact vmAllocAt_keeps cur a size flags
    | vmPhysMap physAddr size flags => exact vmPhysMap_keeps cur physAddr size flags
    | vmVirtMap a size flags => exact vmVirtMap_keeps cur a size flags
    | vmResize a oldPages newSize => exact vmResize_keeps cur a oldPages newSize
    | vmSetFlags a size flags => exact vmSetFlags_keeps cur a size flags
    | vmUnmap a size => exact vmUnmap_keeps cur a size
    | vmFree a pages => exact vmFree_keeps (fun _ _ => under_nil) pages
    | vmClone regions => exact vmClone_keeps cur regions
    | slabCacheAlloc => exact slabCacheAlloc_keeps under_nil
    | slabCacheFree => exact (slabCacheFree_keeps under_nil).bind fun _ => .pure true
  exact hco.bind fun _ => .pure ()

/-! ## Runs -/

abbrev Mm := Tasks MmLock Nat

def Mm.Step (s : Mm) (e : TaskEvent (Nat × MmCall)) (s' : Mm) : Prop := Tasks.next body s e = some s'

/-- Whoever looks at the free list finds it filled or holds the lock of `kernel_vm`. -/
def Mm.Restocks (s : Mm) (e : TaskEvent (Nat × MmCall)) : Prop := Tasks.Reads Stocked s e

theorem mm_no_deadlock {free : Nat} {s : Mm} (hr : Run Mm.Step Mm.Restocks (Tasks.idle free) s) : ¬ s.Deadlock :=
  Tasks.no_deadlock body_keeps hr

instance (s : Mm) (e : TaskEvent (Nat × MmCall)) : Decidable (Mm.Restocks s e) :=
  match e with
  | .call _ _ => .isTrue trivial
  | .go .. => inferInstanceAs (Decidable (_ = true → _ ∨ _))

def restocking : List (TaskEvent (Nat × MmCall)) :=
  [.call 1 (1, .vmAlloc 100 3), .go 1 true, .go 1 true, .go 1 true, .go 1 true, .go 1 true,
    .call 0 (1, .vmAlloc 100 7), .go 0 true]

theorem mm_no_deadlock_restocking : ∃ s : Mm, Run Mm.Step Mm.Restocks (Tasks.idle 0) s ∧
    (s.wants 0 = some .regionCache ∧ s.mutexes.holder .regionCache = some 1) ∧ ¬ s.Deadlock := by
  obtain ⟨s, hr, hs⟩ := exists_follow (Tasks.next body) Mm.Restocks restocking (Tasks.idle 0)
    (fun s => s.wants 0 = some .regionCache ∧ s.mutexes.holder .regionCache = some 1) (by decide +kernel)
  exact ⟨s, hr, hs, mm_no_deadlock hr⟩

def crossing : List (TaskEvent (Nat × MmCall)) :=
  [.call 0 (1, .vmAlloc 100 7), .call 1 (1, .vmAlloc 100 3), .go 0 true, .go 0 true, .go 0 true, .go 1 true]

theorem mm_deadlock : ∃ s : Mm, Run Mm.Step (fun _ _ => True) (Tasks.idle 0) s ∧ s.Deadlock := by
  obtain ⟨s, hr, ⟨h0, h1⟩, h2, h3⟩ := exists_follow (Tasks.next body) (fun _ _ => True) crossing (Tasks.idle 0)
    (fun s => (s.wants 0 = some (.vm 0) ∧ s.mutexes.holder (.vm 0) = some 1) ∧
      s.wants 1 = some .regionCache ∧ s.mutexes.holder .regionCache = some 0) (by decide +kernel)
  exact ⟨s, hr, 0, .tail (.single ⟨_, h0, h1, by decide⟩) ⟨_, h2, h3, by decide⟩⟩

end MmLocks

end Yagura
