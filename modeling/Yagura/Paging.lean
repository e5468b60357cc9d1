import Yagura.Errno
import Yagura.Prog

/-!
# Physical pages and page tables

The page allocator (`page.c`) and the page tables (`page_table.c`). Page
tables live in physical frames, as the hardware reads them: a present
directory entry names the frame of its table, and that frame's words are the
table's entries. Page directories are objects of their own, named by numbers;
`0` is the kernel's. Addresses are 32-bit, sums are taken modulo 2³².
-/

namespace Yagura

open Function

inductive SrcFile
  | page | pageTable | slab | kmalloc | vm | vec
  deriving DecidableEq, Repr

/-- An `ASSERT` that fails, an access to a page that is not mapped, a loop that does not end. -/
inductive Trap
  | assert (f : SrcFile)
  | fault
  | diverge
  deriving DecidableEq, Repr

/-! ## Addresses and entries -/

def PAGE_SIZE : Nat := 4096
def KERNEL_VIRT_ADDR : Nat := 0xc0000000
def KERNEL_PDE_IDX : Nat := 768
def KERNEL_HEAP_START : Nat := 0xc0400000
def KERNEL_HEAP_END : Nat := 0xffc00000

def PTE_WRITE : Nat := 0x2
def PTE_USER : Nat := 0x4
def PTE_PAT : Nat := 0x80
def PTE_GLOBAL : Nat := 0x100
def PTE_SHARED : Nat := 0x200

def QUICKMAP_PAGE : Nat := 1022
def QUICKMAP_PAGE_TABLE : Nat := 1023

def UINT8_MAX : Nat := 255

def add32 (a b : Nat) : Nat := (a + b) % 2 ^ 32
def sub32 (a b : Nat) : Nat := (a + 2 ^ 32 - b) % 2 ^ 32

def roundDown (a : Nat) : Nat := a / PAGE_SIZE * PAGE_SIZE
def roundUp (a : Nat) : Nat := roundDown (add32 a (PAGE_SIZE - 1))

def isUserAddress (a : Nat) : Bool := a ≠ 0 && a < KERNEL_VIRT_ADDR
def isUserRange (a size : Nat) : Bool :=
  isUserAddress a && a ≤ add32 a size && add32 a size ≤ KERNEL_VIRT_ADDR
def isKernelAddress (a : Nat) : Bool := a ≠ 0 && KERNEL_VIRT_ADDR ≤ a

/-- The size of the region that `kmalloc` makes, where `hasRoom` tells which sizes can be had. -/
def kmallocSize (hasRoom : Nat → Bool) (size : Nat) : Option Nat :=
  if size % 2 ^ 32 = 0 then none
  else if hasRoom (roundUp (size % 2 ^ 32)) then some (roundUp (size % 2 ^ 32)) else none

def pagesIn (a size : Nat) : Nat := (add32 a size - a) / PAGE_SIZE

/-- The low bits of a table or directory entry are flags, the others the frame number. -/
def present (w : Nat) : Bool := w.testBit 0
def frameOf (w : Nat) : Nat := w / PAGE_SIZE
def flagsOf (w : Nat) : Nat := w % PAGE_SIZE

def mkEntry (physAddr flags : Nat) : Nat := physAddr ||| flags ||| 1

/-! ## State -/

structure Paging where
  numPages : Nat
  bitmap : Nat → Bool
  refCounts : Nat → Nat
  freeKibibytes : UInt32
  mem : Nat → Nat → Nat
  dir : Nat → Nat → Nat
  /-- Where the kernel sees a directory, and whether it is still allocated. -/
  dirAddr : Nat → Nat
  dirLive : Nat → Bool
  numDirs : Nat
  smpActive : Bool

namespace Paging

def setRef (s : Paging) (p c : Nat) : Paging := { s with refCounts := update s.refCounts p c }

/-- Writing back what is there changes nothing, and concrete runs stay small. -/
def setDir (s : Paging) (d i w : Nat) : Paging :=
  if s.dir d i = w then s else { s with dir := update s.dir d (update (s.dir d) i w) }

def setFrame (s : Paging) (p : Nat) (ws : Nat → Nat) : Paging := { s with mem := update s.mem p ws }

def setWord (s : Paging) (p j w : Nat) : Paging :=
  if s.mem p j = w then s else s.setFrame p (update (s.mem p) j w)

/-- The entry for page `n` as the recursive mapping shows it; behind the last
directory entry lies the directory itself. -/
def entry (s : Paging) (d n : Nat) : Nat :=
  if n / 1024 = 1023 then s.dir d (n % 1024) else s.mem (frameOf (s.dir d (n / 1024))) (n % 1024)

def setEntry (s : Paging) (d n w : Nat) : Paging :=
  if n / 1024 = 1023 then s.setDir d (n % 1024) w else s.setWord (frameOf (s.dir d (n / 1024))) (n % 1024) w

end Paging

abbrev PagingProg := Prog Paging Trap

open Prog

/-! ## page.c -/

def bitmapFindFirstSet (s : Paging) : Option Nat := (List.range s.numPages).find? s.bitmap

def pageAlloc : PagingProg (Except Errno Nat) := do
  let s ← get
  match bitmapFindFirstSet s with
  | none => pure (.error .ENOMEM)
  | some i =>
    ensure (s.refCounts i = 0) (.assert .page)
    ensure (s.bitmap i = true) (.assert .page)
    modify fun s => { s.setRef i 1 with
      bitmap := update s.bitmap i false
      freeKibibytes := s.freeKibibytes - 4 }
    pure (.ok i)

def pageRef (physAddr : Nat) : PagingProg Unit := do
  ensure (physAddr % PAGE_SIZE = 0) (.assert .page)
  let s ← get
  let i := physAddr / PAGE_SIZE
  if s.numPages ≤ i then pure ()
  else
    ensure (0 < s.refCounts i) (.assert .page)
    ensure (s.bitmap i = false) (.assert .page)
    if s.refCounts i < UINT8_MAX then modify fun s => s.setRef i (s.refCounts i + 1) else pure ()

def pageUnref (physAddr : Nat) : PagingProg Unit := do
  ensure (physAddr % PAGE_SIZE = 0) (.assert .page)
  let s ← get
  let i := physAddr / PAGE_SIZE
  if s.numPages ≤ i then pure ()
  else
    ensure (0 < s.refCounts i) (.assert .page)
    ensure (s.bitmap i = false) (.assert .page)
    if s.refCounts i < UINT8_MAX then
      if s.refCounts i = 1 then
        modify fun s => { s.setRef i 0 with
          bitmap := update s.bitmap i true
          freeKibibytes := s.freeKibibytes + 4 }
      else modify fun s => s.setRef i (s.refCounts i - 1)
    else pure ()

/-! ## Page tables

`d` is always the current page directory. -/

section
variable (d : Nat)

def getOrCreatePageTable (i : Nat) : PagingProg (Except Errno Unit) := do
  let s ← get
  if present (s.dir d i) then pure (.ok ())
  else
    match ← pageAlloc with
    | .error e =>
      -- the error value stays behind in the entry; its present bit is clear
      modify fun s => s.setDir d i (2 ^ 32 - 12)
      pure (.error e)
    | .ok p =>
      modify fun s => (s.setDir d i (p * PAGE_SIZE ||| 7)).setFrame p fun _ => 0
      pure (.ok ())

def presentEntry (n : Nat) : PagingProg Nat := do
  let s ← get
  ensure (present (s.dir d (n / 1024)) = true ∧ present (s.entry d n) = true) (.assert .pageTable)
  pure (s.entry d n)

def virtToPhys (a : Nat) : PagingProg Nat := do
  let w ← presentEntry d (a / PAGE_SIZE)
  pure (roundDown w ||| a % PAGE_SIZE)

def flushTlbRange (a size : Nat) : PagingProg Unit := do
  ensure (a % PAGE_SIZE = 0) (.assert .pageTable)
  ensure (size % PAGE_SIZE = 0) (.assert .pageTable)
  let s ← get
  if s.smpActive && !isKernelAddress a then ensure (isUserRange a size = true) (.assert .pageTable)
  else pure ()

def unmapPage (n : Nat) : PagingProg Unit := do
  let w ← presentEntry d n
  pageUnref (roundDown w)
  modify fun s => s.setEntry d n 0

def pageTableUnmap (a size : Nat) : PagingProg Unit := do
  ensure (a % PAGE_SIZE = 0) (.assert .pageTable)
  ensure (size % PAGE_SIZE = 0) (.assert .pageTable)
  forUp (unmapPage d) (pagesIn a (roundUp size)) (a / PAGE_SIZE)
  flushTlbRange a size

def setFlagsPage (flags n : Nat) : PagingProg Unit := do
  let w ← presentEntry d n
  modify fun s => s.setEntry d n (mkEntry (roundDown w) flags)

def pageTableSetFlags (a size flags : Nat) : PagingProg Unit := do
  ensure (a % PAGE_SIZE = 0) (.assert .pageTable)
  ensure (size % PAGE_SIZE = 0) (.assert .pageTable)
  forUp (setFlagsPage d flags) (pagesIn a (roundUp size)) (a / PAGE_SIZE)
  flushTlbRange a size

/-- One iteration of a mapping loop: `check` comes first, `phys` yields the
address of the page to map once the entry is known to be free. -/
def mapPage (n flags : Nat) (check : PagingProg Unit) (phys : PagingProg (Except Errno Nat)) :
    PagingProg (Except Errno Unit) := do
  check
  match ← getOrCreatePageTable d (n / 1024) with
  | .error e => pure (.error e)
  | .ok () =>
    let s ← get
    ensure (present (s.entry d n) = false) (.assert .pageTable)
    match ← phys with
    | .error e => pure (.error e)
    | .ok a =>
      modify fun s => s.setEntry d n (mkEntry a flags)
      pure (.ok ())

/-- The loop of the mapping functions over `k` pages from `a` on, and their roll-back. -/
def mapRange (a size k flags : Nat) (check : Nat → PagingProg Unit)
    (phys : Nat → PagingProg (Except Errno Nat)) : PagingProg (Except Errno Unit) := do
  match ← forUpOr (fun i => mapPage d ((a / PAGE_SIZE + i) % 2 ^ 20) flags (check i) (phys i)) k 0 with
  | .ok () =>
    flushTlbRange a size
    pure (.ok ())
  | .error (e, i) =>
    pageTableUnmap d a (PAGE_SIZE * i)
    pure (.error e)

def allocPhys : PagingProg (Except Errno Nat) := do
  match ← pageAlloc with
  | .error e => pure (.error e)
  | .ok p => pure (.ok (p * PAGE_SIZE))

def pageTableMapAnon (a size flags : Nat) : PagingProg (Except Errno Unit) := do
  ensure (a % PAGE_SIZE = 0) (.assert .pageTable)
  ensure (size % PAGE_SIZE = 0) (.assert .pageTable)
  mapRange d a size (pagesIn a size) flags (fun _ => pure ()) fun _ => allocPhys

def refPhys (physAddr : Nat) : PagingProg (Except Errno Nat) := do
  pageRef physAddr
  pure (.ok physAddr)

def pageTableMapPhys (a physAddr size flags : Nat) : PagingProg (Except Errno Unit) := do
  ensure (a % PAGE_SIZE = 0) (.assert .pageTable)
  ensure (physAddr % PAGE_SIZE = 0) (.assert .pageTable)
  ensure (size % PAGE_SIZE = 0) (.assert .pageTable)
  mapRange d a size (pagesIn a size) flags (fun _ => pure ()) fun i => refPhys (add32 physAddr (PAGE_SIZE * i))

def pageTableShallowCopy (dest src size newFlags : Nat) : PagingProg (Except Errno Unit) := do
  ensure (dest % PAGE_SIZE = 0) (.assert .pageTable)
  ensure (src % PAGE_SIZE = 0) (.assert .pageTable)
  ensure (size % PAGE_SIZE = 0) (.assert .pageTable)
  mapRange d dest size (pagesIn src size) newFlags
    (fun i => do let _ ← presentEntry d (src / PAGE_SIZE + i))
    fun i => do
      let s ← get
      refPhys (roundDown (s.entry d (src / PAGE_SIZE + i)))

/-! ## Access to memory -/

def readPage (n : Nat) : PagingProg (Nat → Nat) := do
  let s ← get
  ensure (present (s.dir d (n / 1024)) = true ∧ present (s.entry d n) = true) .fault
  pure (if n = 2 ^ 20 - 1 then s.dir d else s.mem (frameOf (s.entry d n)))

/-- The frame of page `n`, which has to be writable: the kernel runs with `CR0.WP` set. -/
def writablePage (n : Nat) : PagingProg Nat := do
  let s ← get
  ensure (present (s.dir d (n / 1024)) = true ∧ present (s.entry d n) = true ∧
    (s.entry d n).testBit 1 = true) .fault
  pure (frameOf (s.entry d n))

def copyPage (dest src : Nat) : PagingProg Unit := do
  let ws ← readPage d src
  let p ← writablePage d dest
  modify fun s => s.setFrame p ws

/-! ## Cloning and destroying -/

def quickmap (which physAddr flags : Nat) : PagingProg Unit := do
  let s ← get
  ensure (s.entry d (KERNEL_PDE_IDX * 1024 + which) = 0) (.assert .pageTable)
  modify fun s => s.setEntry d (KERNEL_PDE_IDX * 1024 + which) (mkEntry physAddr flags)
  flushTlbRange (KERNEL_VIRT_ADDR + PAGE_SIZE * which) PAGE_SIZE

def unquickmap (which : Nat) : PagingProg Unit := do
  let s ← get
  ensure (present (s.entry d (KERNEL_PDE_IDX * 1024 + which)) = true) (.assert .pageTable)
  modify fun s => s.setEntry d (KERNEL_PDE_IDX * 1024 + which) 0
  flushTlbRange (KERNEL_VIRT_ADDR + PAGE_SIZE * which) PAGE_SIZE

def storeDest (j w : Nat) : PagingProg Unit := do
  let p ← writablePage d (KERNEL_PDE_IDX * 1024 + QUICKMAP_PAGE_TABLE)
  modify fun s => s.setWord p j w

def clonePte (i j : Nat) : PagingProg (Except Errno Unit) := do
  let s ← get
  let w := s.entry d (i * 1024 + j)
  if present w = false then
    storeDest d j 0
    pure (.ok ())
  else if w &&& PTE_SHARED ≠ 0 then
    storeDest d j w
    pageRef (roundDown w)
    pure (.ok ())
  else
    match ← pageAlloc with
    | .error e =>
      unquickmap d QUICKMAP_PAGE_TABLE
      pure (.error e)
    | .ok p =>
      storeDest d j (p * PAGE_SIZE ||| flagsOf w)
      quickmap d QUICKMAP_PAGE (p * PAGE_SIZE) PTE_WRITE
      copyPage d (KERNEL_PDE_IDX * 1024 + QUICKMAP_PAGE) (i * 1024 + j)
      unquickmap d QUICKMAP_PAGE
      pure (.ok ())

def clonePageTable (i : Nat) : PagingProg (Except Errno Nat) := do
  match ← pageAlloc with
  | .error e => pure (.error e)
  | .ok pt =>
    quickmap d QUICKMAP_PAGE_TABLE (pt * PAGE_SIZE) PTE_WRITE
    match ← forUpOr (clonePte d i) 1024 0 with
    | .error (e, _) => pure (.error e)
    | .ok () =>
      unquickmap d QUICKMAP_PAGE_TABLE
      pure (.ok pt)

def clonePde (dst i : Nat) : PagingProg (Except Errno Unit) := do
  let s ← get
  if present (s.dir d i) = false then
    modify fun s => s.setDir dst i 0
    pure (.ok ())
  else
    match ← clonePageTable d i with
    | .error e => pure (.error e)
    | .ok pt =>
      modify fun s => s.setDir dst i (pt * PAGE_SIZE ||| flagsOf (s.dir d i))
      pure (.ok ())

def newDir (a : Nat) : PagingProg Nat := do
  let phys ← virtToPhys d a
  let s ← get
  let dst := s.numDirs
  modify fun s => { s with
    dir := update s.dir dst fun i =>
      if i < KERNEL_PDE_IDX then 0 else if i < 1023 then s.dir 0 i else phys ||| 3
    dirAddr := update s.dirAddr dst a
    dirLive := update s.dirLive dst true
    numDirs := dst + 1 }
  pure dst

/-- The pages of table `i`; the entry released is the `i`-th for every present entry `j`. -/
def destroyTable (i : Nat) : PagingProg Unit := do
  let s ← get
  if present (s.dir d i) then
    forUp (fun j => do
      let s ← get
      if present (s.entry d (i * 1024 + j)) then pageUnref (roundDown (s.entry d (i * 1024 + i)))
      else pure ()) 1024 0
  else pure ()

def destroyPde (i : Nat) : PagingProg Unit := do
  let s ← get
  if present (s.dir d i) then pageUnref (roundDown (s.dir d i)) else pure ()

def pageDirectorySwitch : PagingProg Unit := do
  let s ← get
  let phys ← virtToPhys d (s.dirAddr d)
  let phys' ← virtToPhys d 0xfffff000
  ensure (phys = phys') (.assert .pageTable)

end

end Yagura
