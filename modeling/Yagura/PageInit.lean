import Yagura.PageFrames
import Yagura.Trans

/-!
# Physical pages at boot

`page.c` with its own data: a bitmap of 32-bit words, 8-bit reference counts
and the statistics. `page_init` fills them from the memory map the boot loader
left. Seen bit by bit, the three functions that hand out pages are those of
the paging model.
-/

namespace Yagura

open Function List Nat Prog

/-! ## The state and the bitmap -/

def MAX_NUM_PAGES : Nat := 1024 * 1024
def BITMAP_MAX_LEN : Nat := MAX_NUM_PAGES / 32

structure Pages where
  bitmapLen : Nat
  bitmap : Nat → BitVec 32
  refCounts : Nat → UInt8
  totalKibibytes : UInt32
  freeKibibytes : UInt32

namespace Pages

abbrev PagesProg := Prog Pages Trap

def setBit (s : Pages) (i : Nat) : Pages :=
  { s with bitmap := update s.bitmap (i / 32) (s.bitmap (i / 32) ||| 1#32 <<< (i % 32)) }

def clearBit (s : Pages) (i : Nat) : Pages :=
  { s with bitmap := update s.bitmap (i / 32) (s.bitmap (i / 32) &&& ~~~(1#32 <<< (i % 32))) }

def setRef (s : Pages) (i : Nat) (c : UInt8) : Pages := { s with refCounts := update s.refCounts i c }

def bitmapGet (i : Nat) : PagesProg Bool := do
  let s ← get
  ensure (i / 32 < s.bitmapLen) (.assert .page)
  pure (s.bitmap (i / 32) &&& 1#32 <<< (i % 32) != 0#32)

def bitmapSet (i : Nat) : PagesProg Unit := do
  let s ← get
  ensure (i / 32 < s.bitmapLen) (.assert .page)
  modify (·.setBit i)

def bitmapClear (i : Nat) : PagesProg Unit := do
  let s ← get
  ensure (i / 32 < s.bitmapLen) (.assert .page)
  modify (·.clearBit i)

def ffs (w : BitVec 32) : Nat :=
  match (List.range 32).find? fun k => w.getLsbD k with
  | some k => k + 1
  | none => 0

def bitmapFindFirstSet (s : Pages) : Option Nat :=
  (List.range s.bitmapLen).findSome? fun i =>
    if 0 < ffs (s.bitmap i) then some (i <<< 5 ||| (ffs (s.bitmap i) - 1)) else none

/-! ## Handing out pages -/

def allocIndex : PagesProg (Except Errno Nat) := do
  let s ← get
  match bitmapFindFirstSet s with
  | none => pure (.error .ENOMEM)
  | some i =>
    ensure (s.refCounts i = 0) (.assert .page)
    let b ← bitmapGet i
    ensure (b = true) (.assert .page)
    modify (·.setRef i 1)
    bitmapClear i
    modify fun s => { s with freeKibibytes := s.freeKibibytes - 4 }
    pure (.ok i)

def pageAlloc : PagesProg (Except Errno Nat) := do
  let r ← allocIndex
  pure (r.map (· * PAGE_SIZE))

def pageRef (physAddr : Nat) : PagesProg Unit := do
  ensure (physAddr % PAGE_SIZE = 0) (.assert .page)
  let s ← get
  let i := physAddr / PAGE_SIZE
  if s.bitmapLen ≤ i / 32 then pure ()
  else
    ensure (0 < s.refCounts i) (.assert .page)
    let b ← bitmapGet i
    ensure (b = false) (.assert .page)
    if s.refCounts i < 255 then modify (·.setRef i (s.refCounts i + 1)) else pure ()

def pageUnref (physAddr : Nat) : PagesProg Unit := do
  ensure (physAddr % PAGE_SIZE = 0) (.assert .page)
  let s ← get
  let i := physAddr / PAGE_SIZE
  if s.bitmapLen ≤ i / 32 then pure ()
  else
    ensure (0 < s.refCounts i) (.assert .page)
    let b ← bitmapGet i
    ensure (b = false) (.assert .page)
    if s.refCounts i < 255 then
      modify (·.setRef i (s.refCounts i - 1))
      if s.refCounts i - 1 = 0 then
        bitmapSet i
        modify fun s => { s with freeKibibytes := s.freeKibibytes + 4 }
      else pure ()
    else pure ()

/-! ## Filling the bitmap -/

def MULTIBOOT_MEMORY_AVAILABLE : UInt32 := 1

structure MemoryMapEntry where
  addr : UInt64
  len : UInt64
  type : UInt32

/-- Both ends as `uintptr_t`: the upper halves are lost. -/
def MemoryMapEntry.start (e : MemoryMapEntry) : Nat := e.addr.toUInt32.toNat
def MemoryMapEntry.stop (e : MemoryMapEntry) : Nat := (e.addr + e.len).toUInt32.toNat

structure BootModule where
  modStart : UInt32
  modEnd : UInt32

structure MultibootInfo where
  memUpper : UInt32
  mmap : Option (List MemoryMapEntry)
  mods : Option (List BootModule)

def divCeil (a b : Nat) : Nat := add32 a (b - 1) / b

def getAvailablePhysicalAddrBounds (info : MultibootInfo) (kernelEnd : UInt32) : Nat × Nat :=
  let lower := sub32 kernelEnd.toNat KERNEL_VIRT_ADDR
  match info.mmap with
  | none => (lower, add32 (info.memUpper.toNat * 0x400 % 2 ^ 32) 0x100000)
  | some entries =>
    (lower, entries.foldl
      (fun upper e => if e.type = MULTIBOOT_MEMORY_AVAILABLE ∧ upper < e.stop then e.stop else upper) lower)

def forRange (body : Nat → PagesProg Unit) (lo hi : Nat) : PagesProg Unit := forUp body (hi - lo) lo

def addEntry (lower : Nat) (e : MemoryMapEntry) : PagesProg Unit :=
  if e.type = MULTIBOOT_MEMORY_AVAILABLE then
    let entryStart := if e.start < lower then lower else e.start
    if e.stop ≤ entryStart then pure ()
    else forRange bitmapSet (divCeil entryStart PAGE_SIZE) (e.stop / PAGE_SIZE)
  else pure ()

def dropModule (m : BootModule) : PagesProg Unit :=
  forRange bitmapClear (m.modStart.toNat / PAGE_SIZE) (divCeil m.modEnd.toNat PAGE_SIZE)

/-- Saturates the count of every page that is not available and counts the others: `k` pages from `i`. -/
def initRefCounts : Nat → Nat → Nat → PagesProg Nat
  | 0, _, numPages => pure numPages
  | k + 1, i, numPages => do
    let b ← bitmapGet i
    if b = true then initRefCounts k (i + 1) (numPages + 1)
    else
      modify (·.setRef i 255)
      initRefCounts k (i + 1) numPages

def addAvailable (info : MultibootInfo) (lower upper : Nat) : PagesProg Unit :=
  match info.mmap with
  | some entries => forEach (addEntry lower) entries
  | none => forRange bitmapSet (divCeil lower PAGE_SIZE) (upper / PAGE_SIZE)

def dropModules (info : MultibootInfo) : PagesProg Unit :=
  match info.mods with
  | some mods => forEach dropModule mods
  | none => pure ()

def bitmapInit (info : MultibootInfo) (lower upper : Nat) : PagesProg Unit := do
  modify fun s => { s with bitmapLen := divCeil upper (PAGE_SIZE * 32) }
  let s ← get
  ensure (s.bitmapLen ≤ BITMAP_MAX_LEN) (.assert .page)
  addAvailable info lower upper
  dropModules info
  let numPages ← initRefCounts (s.bitmapLen * 32) 0 0
  let kib := UInt32.ofNat (numPages * PAGE_SIZE % 2 ^ 32 / 1024)
  modify fun s => { s with totalKibibytes := kib, freeKibibytes := kib }

def zero : Pages := ⟨0, fun _ => 0, fun _ => 0, 0, 0⟩

def pageInit (info : MultibootInfo) (kernelEnd : UInt32) : PagesProg Unit := do
  ensure (kernelEnd.toNat ≤ KERNEL_VIRT_ADDR + 1022 * PAGE_SIZE) (.assert .page)
  let (lower, upper) := getAvailablePhysicalAddrBounds info kernelEnd
  bitmapInit info lower upper

/-! ## Bit by bit -/

def bit (s : Pages) (i : Nat) : Bool := (s.bitmap (i / 32)).getLsbD (i % 32)

theorem setRef_bit (s : Pages) (i : Nat) (c : UInt8) : (s.setRef i c).bit = s.bit := rfl

theorem getLsbD_one_shiftLeft {k : Nat} (hk : k < 32) (j : Nat) : (1#32 <<< k).getLsbD j = decide (j = k) := by
  by_cases h : j = k
  · subst h
    simp [hk]
  · simp [h]
    omega

theorem and_one_shiftLeft (w : BitVec 32) {k : Nat} (hk : k < 32) : (w &&& 1#32 <<< k != 0#32) = w.getLsbD k := by
  cases h : w.getLsbD k with
  | true =>
    rw [bne_iff_ne]
    intro he
    have hbit := congrArg (·.getLsbD k) he
    simp [BitVec.getLsbD_and, getLsbD_one_shiftLeft hk, h] at hbit
  | false =>
    rw [bne_eq_false_iff_eq]
    apply BitVec.eq_of_getLsbD_eq
    intro j hj
    rw [BitVec.getLsbD_and, getLsbD_one_shiftLeft hk]
    by_cases hjk : j = k
    · subst hjk
      simp [h]
    · simp [hjk]

theorem bit_update (s : Pages) {i : Nat} {w : BitVec 32} {b : Bool}
    (hw : ∀ k, k < 32 → w.getLsbD k = if k = i % 32 then b else (s.bitmap (i / 32)).getLsbD k) :
    bit { s with bitmap := update s.bitmap (i / 32) w } = update s.bit i b := by
  funext j
  have hj : j % 32 < 32 := mod_lt _ (by decide)
  unfold bit
  dsimp only
  by_cases hwo : j / 32 = i / 32
  · rw [hwo, update_self, hw _ hj]
    by_cases hji : j = i
    · subst hji
      rw [if_pos rfl, update_self]
    · rw [if_neg (by omega), update_of_ne hji, hwo]
  · rw [update_of_ne hwo, update_of_ne (by rintro rfl; exact hwo rfl)]

theorem bit_setBit (s : Pages) (i : Nat) : (s.setBit i).bit = update s.bit i true := by
  apply bit_update
  intro k _
  rw [BitVec.getLsbD_or, getLsbD_one_shiftLeft (mod_lt _ (by decide))]
  by_cases h : k = i % 32
  · simp [h]
  · simp [h]

theorem bit_clearBit (s : Pages) (i : Nat) : (s.clearBit i).bit = update s.bit i false := by
  apply bit_update
  intro k hk
  rw [BitVec.getLsbD_and, BitVec.getLsbD_not, getLsbD_one_shiftLeft (mod_lt _ (by decide))]
  by_cases h : k = i % 32
  · simp [h]
  · simp [h, hk]

section
variable {s s' : Pages} {i : Nat} {b : Bool}

theorem bitmapGet_run (hi : i < s.bitmapLen * 32) : bitmapGet i s = .ok (s.bit i, s) := by
  unfold bitmapGet
  rw [get_bind, ensure_bind, if_pos (by omega), pure_run, and_one_shiftLeft _ (mod_lt _ (by decide))]
  rfl

theorem bitmapSet_run (hi : i < s.bitmapLen * 32) : bitmapSet i s = .ok ((), s.setBit i) := by
  unfold bitmapSet
  rw [get_bind, ensure_bind, if_pos (by omega), modify_run]

theorem bitmapClear_run (hi : i < s.bitmapLen * 32) : bitmapClear i s = .ok ((), s.clearBit i) := by
  unfold bitmapClear
  rw [get_bind, ensure_bind, if_pos (by omega), modify_run]

theorem bitmapGet_ok (h : bitmapGet i s = .ok (b, s')) : i < s.bitmapLen * 32 ∧ b = s.bit i ∧ s' = s := by
  have hi : i < s.bitmapLen * 32 := by
    have := (ensure_bind_ok (get_bind_ok h)).1
    omega
  rw [bitmapGet_run hi] at h
  cases h
  exact ⟨hi, rfl, rfl⟩

theorem bitmapSet_ok {u : Unit} (h : bitmapSet i s = .ok (u, s')) : s' = s.setBit i :=
  (modify_ok.mp (ensure_bind_ok (get_bind_ok h)).2).symm

theorem bitmapClear_ok {u : Unit} (h : bitmapClear i s = .ok (u, s')) : s' = s.clearBit i :=
  (modify_ok.mp (ensure_bind_ok (get_bind_ok h)).2).symm

end

theorem find_range_mul (p : Nat → Bool) (n : Nat) : (range (n * 32)).find? p =
      (range n).findSome? fun i => ((range 32).find? fun k => p (i * 32 + k)).map (i * 32 + ·) := by
  induction n with
  | zero => rfl
  | succ n ih =>
    rw [succ_mul, range_add, find?_append, ih, show range (n + 1) = range n ++ [n] from
      range_succ, findSome?_append, find?_map, findSome?_singleton]
    rfl

theorem bitmapFindFirstSet_eq (s : Pages) : bitmapFindFirstSet s = (range (s.bitmapLen * 32)).find? s.bit := by
  rw [find_range_mul]
  unfold bitmapFindFirstSet
  congr 1
  funext i
  have hbit : (fun k => s.bit (i * 32 + k)) = fun k => (s.bitmap (i + k / 32)).getLsbD (k % 32) := by
    funext k
    unfold bit
    rw [show (i * 32 + k) / 32 = i + k / 32 by omega, show (i * 32 + k) % 32 = k % 32 by omega]
  have hfi : ((range 32).find? fun k => s.bit (i * 32 + k)) =
      (range 32).find? fun k => (s.bitmap i).getLsbD k := by
    rw [hbit]
    apply find?_congr
    intro k hk
    have hk := mem_range.mp hk
    rw [show i + k / 32 = i by omega, Nat.mod_eq_of_lt hk]
  rw [hfi]
  unfold ffs
  cases hf : (range 32).find? fun k => (s.bitmap i).getLsbD k with
  | none => rfl
  | some k =>
    have hk := mem_range.mp (mem_of_find?_eq_some hf)
    simp only [Nat.succ_pos, if_true, Nat.add_sub_cancel, Option.map_some]
    rw [← Nat.shiftLeft_add_eq_or_of_lt (show k < 2 ^ 5 by omega), Nat.shiftLeft_eq]

/-! ## The paging model's view -/

def view (s : Pages) (p : Paging) : Paging :=
  { p with
    numPages := s.bitmapLen * 32
    bitmap := s.bit
    refCounts := fun i => (s.refCounts i).toNat
    freeKibibytes := s.freeKibibytes }

section
variable {p : Paging} {s : Pages} {i : Nat} {c : UInt8}

theorem view_setRef : (s.setRef i c).view p = (s.view p).setRef i c.toNat := by
  have h : (fun j => (update s.refCounts i c j).toNat) = update (fun j => (s.refCounts j).toNat) i c.toNat := by
    funext j
    by_cases hj : j = i
    · subst hj
      simp
    · simp [hj]
  unfold view setRef Paging.setRef
  rw [h]
  rfl

theorem view_clearBit : (s.clearBit i).view p = { s.view p with bitmap := update s.bit i false } := by
  unfold view
  rw [bit_clearBit]
  rfl

theorem view_setBit : (s.setBit i).view p = { s.view p with bitmap := update s.bit i true } := by
  unfold view
  rw [bit_setBit]
  rfl

theorem ref_eq_zero : s.refCounts i = 0 ↔ (s.view p).refCounts i = 0 := by
  rw [← UInt8.toNat_inj]
  rfl

theorem ref_pos : 0 < s.refCounts i ↔ 0 < (s.view p).refCounts i := UInt8.lt_iff_toNat_lt

theorem ref_lt : s.refCounts i < 255 ↔ (s.view p).refCounts i < UINT8_MAX := UInt8.lt_iff_toNat_lt

theorem view_taken :
    (Pages.view { (s.setRef i 1).clearBit i with freeKibibytes := s.freeKibibytes - 4 } p) = (s.view p).taken i := by
  have h : ((s.setRef i 1).clearBit i).view p = _ := view_clearBit
  rw [view_setRef] at h
  exact congrArg (fun q : Paging => { q with freeKibibytes := s.freeKibibytes - 4 }) h

theorem view_released :
    (Pages.view { (s.setRef i 0).setBit i with freeKibibytes := s.freeKibibytes + 4 } p) = (s.view p).released i := by
  have h : ((s.setRef i 0).setBit i).view p = _ := view_setBit
  rw [view_setRef] at h
  exact congrArg (fun q : Paging => { q with freeKibibytes := s.freeKibibytes + 4 }) h

variable (p s)

theorem allocIndex_view : Yagura.pageAlloc (s.view p) = (allocIndex s).map fun x => (x.1, x.2.view p) := by
  unfold Yagura.pageAlloc allocIndex
  rw [get_bind, get_bind, show Yagura.bitmapFindFirstSet (s.view p) = bitmapFindFirstSet s from
    (bitmapFindFirstSet_eq s).symm]
  cases hf : bitmapFindFirstSet s with
  | none =>
    dsimp only
    rw [pure_run, pure_run]
    rfl
  | some i =>
    rw [bitmapFindFirstSet_eq] at hf
    have hi : i < s.bitmapLen * 32 := mem_range.mp (mem_of_find?_eq_some hf)
    have hb : s.bit i = true := find?_some hf
    simp only [ensure_bind]
    by_cases hr : s.refCounts i = 0
    · rw [if_pos hr, if_pos (ref_eq_zero.mp hr), bind_run (bitmapGet_run hi), ensure_bind, if_pos hb,
        if_pos (show (s.view p).bitmap i = true from hb), modify_bind, modify_bind,
        bind_run (bitmapClear_run (s := s.setRef i 1) hi), modify_bind, pure_run, pure_run]
      exact congrArg (fun q => Except.ok (Except.ok i, q)) view_taken.symm
    · rw [if_neg hr, if_neg (fun h => hr (ref_eq_zero.mpr h))]
      rfl

theorem checked_view {x : PagesProg Unit} {y : PagingProg Unit} (i : Nat)
    (h : i < s.bitmapLen * 32 → 0 < s.refCounts i → y (s.view p) = (x s).map fun x => (x.1, x.2.view p)) :
    ((if (s.view p).numPages ≤ i then pure () else do
        ensure (0 < (s.view p).refCounts i) (.assert .page)
        ensure ((s.view p).bitmap i = false) (.assert .page)
        y : PagingProg Unit) (s.view p)) =
      ((if s.bitmapLen ≤ i / 32 then pure () else do
          ensure (0 < s.refCounts i) (.assert .page)
          let b ← bitmapGet i
          ensure (b = false) (.assert .page)
          x : PagesProg Unit) s).map fun x => (x.1, x.2.view p) := by
  by_cases hn : s.bitmapLen ≤ i / 32
  · have hn' : (s.view p).numPages ≤ i := by
      show s.bitmapLen * 32 ≤ i
      omega
    rw [if_pos hn, if_pos hn', pure_run, pure_run]
    rfl
  · have hn' : ¬ (s.view p).numPages ≤ i := by
      show ¬ s.bitmapLen * 32 ≤ i
      omega
    have hi : i < s.bitmapLen * 32 := by omega
    rw [if_neg hn, if_neg hn', ensure_bind, ensure_bind, ensure_bind]
    by_cases hr : 0 < s.refCounts i
    · rw [if_pos hr, if_pos (ref_pos.mp hr), bind_run (bitmapGet_run hi), ensure_bind]
      by_cases hb : s.bit i = false
      · rw [if_pos hb, if_pos (show (s.view p).bitmap i = false from hb), h hi hr]
      · rw [if_neg hb, if_neg (show ¬ (s.view p).bitmap i = false from hb)]
        rfl
    · rw [if_neg hr, if_neg (fun h => hr (ref_pos.mpr h))]
      rfl

theorem pageRef_view (a : Nat) : Yagura.pageRef a (s.view p) = (pageRef a s).map fun x => (x.1, x.2.view p) := by
  unfold Yagura.pageRef pageRef
  simp only [ensure_bind, get_bind]
  by_cases ha : a % PAGE_SIZE = 0
  · rw [if_pos ha, if_pos ha]
    refine checked_view p s _ fun hi hr => ?_
    by_cases hlt : s.refCounts (a / PAGE_SIZE) < 255
    · have hadd : (s.refCounts (a / PAGE_SIZE) + 1).toNat = (s.refCounts (a / PAGE_SIZE)).toNat + 1 := by
        exact mod_eq_of_lt (succ_lt_succ (UInt8.lt_iff_toNat_lt.mp hlt))
      rw [if_pos hlt, if_pos (ref_lt.mp hlt), modify_run, modify_run]
      show _ = Except.ok ((), (s.setRef _ _).view p)
      rw [view_setRef, hadd]
      rfl
    · rw [if_neg hlt, if_neg (fun h => hlt (ref_lt.mpr h)), pure_run, pure_run]
      rfl
  · rw [if_neg ha, if_neg ha]
    rfl

theorem pageUnref_view (a : Nat) :
    Yagura.pageUnref a (s.view p) = (pageUnref a s).map fun x => (x.1, x.2.view p) := by
  unfold Yagura.pageUnref pageUnref
  simp only [ensure_bind, get_bind]
  by_cases ha : a % PAGE_SIZE = 0
  · rw [if_pos ha, if_pos ha]
    refine checked_view p s _ fun hi hr => ?_
    by_cases hlt : s.refCounts (a / PAGE_SIZE) < 255
    · have hsub : (s.refCounts (a / PAGE_SIZE) - 1).toNat = (s.refCounts (a / PAGE_SIZE)).toNat - 1 :=
        UInt8.toNat_sub_of_le _ _ (UInt8.le_iff_toNat_le.mpr (UInt8.lt_iff_toNat_lt.mp hr))
      have hpos : 0 < (s.refCounts (a / PAGE_SIZE)).toNat := UInt8.lt_iff_toNat_lt.mp hr
      have h1 : (s.view p).refCounts (a / PAGE_SIZE) = 1 ↔ s.refCounts (a / PAGE_SIZE) - 1 = 0 := by
        show (s.refCounts (a / PAGE_SIZE)).toNat = 1 ↔ _
        rw [← UInt8.toNat_inj, hsub, UInt8.toNat_zero]
        omega
      rw [if_pos hlt, if_pos (ref_lt.mp hlt), modify_bind]
      by_cases hz : s.refCounts (a / PAGE_SIZE) - 1 = 0
      · rw [if_pos hz, if_pos (h1.mpr hz), modify_run, hz,
          bind_run (bitmapSet_run (s := s.setRef (a / PAGE_SIZE) 0) hi), modify_run]
        exact congrArg (fun q => Except.ok ((), q)) view_released.symm
      · rw [if_neg hz, if_neg (fun h => hz (h1.mp h)), modify_run, pure_run]
        show _ = Except.ok ((), (s.setRef _ _).view p)
        rw [view_setRef, hsub]
        rfl
    · rw [if_neg hlt, if_neg (fun h => hlt (ref_lt.mpr h)), pure_run, pure_run]
      rfl
  · rw [if_neg ha, if_neg ha]
    rfl

end

/-! ## What `page_init` leaves -/

structure Filling (len : Nat) (s : Pages) : Prop where
  len : s.bitmapLen = len
  counts : ∀ i, s.refCounts i = 0
  bits : ∀ i, s.bit i = true → i < MAX_NUM_PAGES - 1

section
variable {s s' : Pages} {len lo hi : Nat} {u : Unit} {info : MultibootInfo} {lower : Nat}

theorem Filling.setBit (h : s.Filling len) {i : Nat} (hi : i < MAX_NUM_PAGES - 1) : (s.setBit i).Filling len where
  len := h.len
  counts := h.counts
  bits := by
    intro j hj
    rw [bit_setBit] at hj
    by_cases hji : j = i
    · rwa [hji]
    · rw [update_of_ne hji] at hj
      exact h.bits j hj

theorem Filling.clearBit (h : s.Filling len) (i : Nat) : (s.clearBit i).Filling len where
  len := h.len
  counts := h.counts
  bits := by
    intro j hj
    rw [bit_clearBit] at hj
    by_cases hji : j = i
    · rw [hji, update_self] at hj
      cases hj
    · rw [update_of_ne hji] at hj
      exact h.bits j hj

theorem Filling.setRange (h : s.Filling len) (hhi : hi ≤ MAX_NUM_PAGES - 1)
    (hr : forRange bitmapSet lo hi s = .ok (u, s')) : s'.Filling len := by
  refine forUp_ok (I := fun _ => Filling len) ?_ h hr
  intro j t t' hj hk ht hrun
  rw [bitmapSet_ok hrun]
  exact ht.setBit (by omega)

theorem Filling.clearRange (h : s.Filling len) (hr : forRange bitmapClear lo hi s = .ok (u, s')) :
    s'.Filling len := by
  refine forUp_ok (I := fun _ => Filling len) ?_ h hr
  intro j t t' _ _ ht hrun
  rw [bitmapClear_ok hrun]
  exact ht.clearBit j

theorem div_PAGE_SIZE_le {a : Nat} (h : a < 2 ^ 32) : a / PAGE_SIZE ≤ MAX_NUM_PAGES - 1 := by
  unfold PAGE_SIZE MAX_NUM_PAGES
  omega

theorem Filling.addEntry (h : s.Filling len) {e : MemoryMapEntry} (hr : addEntry lower e s = .ok (u, s')) :
    s'.Filling len := by
  unfold Pages.addEntry at hr
  split at hr
  · dsimp only at hr
    generalize (if e.start < lower then lower else e.start) = entryStart at hr
    split at hr
    · cases pure_inj hr
      exact h
    · exact h.setRange (div_PAGE_SIZE_le (UInt32.toNat_lt _)) hr
  · cases pure_inj hr
    exact h

theorem initRefCounts_ok {k i n m : Nat} (h : initRefCounts k i n s = .ok (m, s')) :
    s'.bitmapLen = s.bitmapLen ∧ s'.bit = s.bit ∧
      (∀ j, s'.refCounts j = if i ≤ j ∧ j < i + k ∧ s.bit j = false then 255 else s.refCounts j) ∧
      m = n + ((Finset.Ico i (i + k)).filter fun j => s.bit j = true).card := by
  induction k generalizing i n s with
  | zero =>
    cases pure_inj h
    refine ⟨rfl, rfl, fun j => ?_, by simp⟩
    rw [if_neg (by omega)]
  | succ k ih =>
    obtain ⟨b, t, h1, h2⟩ := bind_ok.mp h
    obtain ⟨-, rfl, rfl⟩ := bitmapGet_ok h1
    have hIco : Finset.Ico i (i + (k + 1)) = insert i (Finset.Ico (i + 1) (i + 1 + k)) := by
      ext j
      simp only [Finset.mem_Ico, Finset.mem_insert]
      omega
    split at h2
    · rename_i hb
      obtain ⟨hlen, hbit, hrc, hm⟩ := ih h2
      refine ⟨hlen, hbit, fun j => ?_, ?_⟩
      · rw [hrc j]
        by_cases hj : j = i
        · subst hj
          rw [if_neg (by omega), if_neg (by simp [hb])]
        · simp only [show i + 1 ≤ j ↔ i ≤ j by omega, show i + 1 + k = i + (k + 1) by omega]
      · rw [hm, hIco, Finset.filter_insert, if_pos hb, Finset.card_insert_of_notMem (by simp)]
        omega
    · rename_i hb
      rw [modify_bind] at h2
      obtain ⟨hlen, hbit, hrc, hm⟩ := ih h2
      refine ⟨hlen, hbit, fun j => ?_, ?_⟩
      · rw [hrc j]
        show (if _ then _ else update t.refCounts i 255 j) = _
        by_cases hj : j = i
        · subst hj
          rw [if_neg (by omega), if_pos ⟨by omega, by omega, by simpa using hb⟩, update_self]
        · simp only [update_of_ne hj, setRef_bit, show i + 1 ≤ j ↔ i ≤ j by omega,
            show i + 1 + k = i + (k + 1) by omega]
      · rw [hm, hIco, Finset.filter_insert, if_neg hb]
        rfl

theorem zero_filling (len : Nat) : Filling len { zero with bitmapLen := len } where
  len := rfl
  counts := fun _ => rfl
  bits := by
    intro i hi
    unfold bit zero at hi
    simp at hi

structure Fresh (s : Pages) : Prop where
  len : s.bitmapLen ≤ BITMAP_MAX_LEN
  counts : ∀ i, i < s.bitmapLen * 32 → s.refCounts i = if s.bit i then 0 else 255
  free : s.freeKibibytes.toNat = 4 * ((Finset.range (s.bitmapLen * 32)).filter fun i => s.bit i = true).card

theorem addAvailable_filling {upper : Nat} (hu : upper < 2 ^ 32) (h : s.Filling len)
    (hr : addAvailable info lower upper s = .ok (u, s')) : s'.Filling len := by
  unfold addAvailable at hr
  cases hm : info.mmap with
  | some entries =>
    rw [hm] at hr
    exact forEach_ok (fun e t t' ht hrun => ht.addEntry hrun) h hr
  | none =>
    rw [hm] at hr
    exact h.setRange (div_PAGE_SIZE_le hu) hr

theorem dropModules_filling (h : s.Filling len) (hr : dropModules info s = .ok (u, s')) : s'.Filling len := by
  unfold dropModules at hr
  cases hm : info.mods with
  | some mods =>
    rw [hm] at hr
    exact forEach_ok (fun m t t' ht hrun => ht.clearRange hrun) h hr
  | none =>
    rw [hm] at hr
    cases pure_inj hr
    exact h

theorem Filling.card_lt (h : s.Filling len) (n : Nat) :
    ((Finset.range n).filter fun i => s.bit i = true).card < MAX_NUM_PAGES := by
  have hsub : ((Finset.range n).filter fun i => s.bit i = true) ⊆ Finset.range (MAX_NUM_PAGES - 1) := by
    intro i hi
    exact Finset.mem_range.mpr (h.bits i (Finset.mem_filter.mp hi).2)
  have hle := Finset.card_le_card hsub
  rw [Finset.card_range] at hle
  unfold MAX_NUM_PAGES at hle ⊢
  omega

theorem bitmapInit_fresh {upper : Nat} (hu : upper < 2 ^ 32) (h : bitmapInit info lower upper zero = .ok (u, s)) :
    s.Fresh := by
  unfold bitmapInit at h
  rw [modify_bind] at h
  obtain ⟨hlen, h⟩ := ensure_bind_ok (get_bind_ok h)
  obtain ⟨_, s₁, h1, h⟩ := bind_ok.mp h
  obtain ⟨_, s₂, h2, h⟩ := bind_ok.mp h
  obtain ⟨n, s₃, h3, h⟩ := bind_ok.mp h
  have hf : s₂.Filling (divCeil upper (PAGE_SIZE * 32)) :=
    dropModules_filling (addAvailable_filling hu (zero_filling _) h1) h2
  obtain ⟨hl, hb, hrc, hn⟩ := initRefCounts_ok h3
  rw [hf.len] at hl
  rw [zero_add, zero_add, ← Finset.range_eq_Ico] at hn
  have hlt := hf.card_lt (divCeil upper (PAGE_SIZE * 32) * 32)
  rw [← hn] at hlt
  rw [← modify_ok.mp h]
  refine ⟨?_, ?_, ?_⟩
  · rw [hl]
    exact hlen
  · intro i hi
    have hi : i < divCeil upper (PAGE_SIZE * 32) * 32 := hl ▸ hi
    show s₃.refCounts i = if s₃.bit i then 0 else 255
    rw [hrc i, hb, hf.counts]
    cases hbi : s₂.bit i with
    | true => simp
    | false =>
      rw [if_pos ⟨zero_le i, by rwa [zero_add], rfl⟩]
      rfl
  · show (UInt32.ofNat (n * PAGE_SIZE % 2 ^ 32 / 1024)).toNat =
      4 * ((Finset.range (s₃.bitmapLen * 32)).filter fun i => s₃.bit i = true).card
    rw [hl, hb, ← hn]
    unfold MAX_NUM_PAGES at hlt
    unfold PAGE_SIZE
    rw [UInt32.toNat_ofNat_of_lt' (by show _ < 2 ^ 32; omega)]
    omega

theorem upper_lt (info : MultibootInfo) (kernelEnd : UInt32) :
    (getAvailablePhysicalAddrBounds info kernelEnd).2 < 2 ^ 32 := by
  unfold getAvailablePhysicalAddrBounds
  cases info.mmap with
  | none => exact mod_lt _ (by decide)
  | some entries =>
    have hlo : sub32 kernelEnd.toNat KERNEL_VIRT_ADDR < 2 ^ 32 := mod_lt _ (by decide)
    generalize sub32 kernelEnd.toNat KERNEL_VIRT_ADDR = upper at hlo
    induction entries generalizing upper with
    | nil => exact hlo
    | cons e entries ih =>
      apply ih
      dsimp only
      split
      · exact UInt32.toNat_lt _
      · exact hlo

theorem pageInit_fresh {kernelEnd : UInt32} (h : pageInit info kernelEnd zero = .ok (u, s)) : s.Fresh :=
  bitmapInit_fresh (upper_lt info kernelEnd) (ensure_bind_ok h).2

theorem Fresh.pagesSound (h : s.Fresh) (p : Paging) : (s.view p).PagesSound where
  bound := by
    have := h.len
    unfold BITMAP_MAX_LEN MAX_NUM_PAGES at this
    show s.bitmapLen * 32 ≤ _
    omega
  bits := by
    intro i hi
    show s.bit i = true ↔ (s.refCounts i).toNat = 0
    rw [h.counts i hi]
    cases s.bit i with
    | true => simp
    | false => simp
  counts := fun i _ => le_of_lt_succ (UInt8.toNat_lt (s.refCounts i))
  free := h.free

end

end Pages

/-! ## Runs of the allocator -/

/-- The allocator with a record of the references that are live, and of the pages that were never available. -/
structure Allocator where
  pages : Pages
  live : Nat → Nat
  reserved : Nat → Bool

inductive PageOp
  | alloc
  | ref (physAddr : Nat)
  | unref (physAddr : Nat)

namespace Allocator

def boot (s : Pages) : Allocator := ⟨s, fun _ => 0, fun i => !s.bit i⟩

def Live (s : Allocator) (i : Nat) : Prop := 0 < s.live i ∨ s.reserved i = true

def setLive (s : Allocator) (q : Pages) (i n : Nat) : Allocator :=
  { s with pages := q, live := update s.live i n }

def exec (s : Allocator) : PageOp → Except Trap Allocator
  | .alloc =>
    match Pages.pageAlloc s.pages with
    | .ok (.ok a, q) => .ok (s.setLive q (a / PAGE_SIZE) (s.live (a / PAGE_SIZE) + 1))
    | .ok (.error _, q) => .ok { s with pages := q }
    | .error t => .error t
  | .ref a =>
    match Pages.pageRef a s.pages with
    | .ok (_, q) => .ok (s.setLive q (a / PAGE_SIZE) (s.live (a / PAGE_SIZE) + 1))
    | .error t => .error t
  | .unref a =>
    match Pages.pageUnref a s.pages with
    | .ok (_, q) => .ok (s.setLive q (a / PAGE_SIZE) (s.live (a / PAGE_SIZE) - 1))
    | .error t => .error t

def Step (s : Allocator) (op : PageOp) (s' : Allocator) : Prop := s.exec op = .ok s'

/-- References are taken and dropped only on pages that have one, or outside the bitmap. -/
def Allowed (s : Allocator) : PageOp → Prop
  | .alloc => True
  | .ref a | .unref a => a % PAGE_SIZE = 0 ∧ (a / PAGE_SIZE < s.pages.bitmapLen * 32 → s.Live (a / PAGE_SIZE))

structure Inv (p : Paging) (s : Allocator) : Prop where
  sound : (s.pages.view p).PagesSound
  counted : (s.pages.view p).Counted s.live
  reserved : ∀ i, i < s.pages.bitmapLen * 32 → s.reserved i = true → (s.pages.view p).refCounts i = UINT8_MAX

structure Saturates (s s' : Pages) : Prop where
  len : s'.bitmapLen = s.bitmapLen
  counts : ∀ i, s.refCounts i = 255 → s'.refCounts i = 255

section
variable {p : Paging} {s s' : Allocator} {a i : Nat} {q : Pages}

theorem boot_inv (h : q.Fresh) : (boot q).Inv p where
  sound := h.pagesSound p
  counted := by
    intro i hi
    show (q.refCounts i).toNat = 255 ∨ (q.refCounts i).toNat = 0
    rw [h.counts i hi]
    split
    · exact .inr rfl
    · exact .inl rfl
  reserved := by
    intro i hi hr
    have hb : q.bit i = false := by simpa [boot] using hr
    show (q.refCounts i).toNat = 255
    rw [h.counts i hi, hb]
    rfl

theorem Inv.ref_pos (h : s.Inv p) (hi : i < s.pages.bitmapLen * 32) (hl : s.Live i) :
    0 < (s.pages.view p).refCounts i ∧ (s.pages.view p).bitmap i = false := by
  have hr : 0 < (s.pages.view p).refCounts i := by
    rcases hl with hl | hl
    · rcases h.counted i hi with hc | hc
      · rw [hc]
        decide
      · omega
    · rw [h.reserved i hi hl]
      decide
  refine ⟨hr, ?_⟩
  rw [← Bool.not_eq_true, h.sound.bits i hi]
  omega

theorem Inv.not_live (h : s.Inv p) (hi : i < s.pages.bitmapLen * 32) (hb : s.pages.bit i = true) : ¬ s.Live i := by
  intro hl
  have := (h.ref_pos hi hl).2
  rw [show (s.pages.view p).bitmap i = s.pages.bit i from rfl, hb] at this
  cases this

theorem saturates_of_view {r : Pages} (hn : (r.view p).numPages = (q.view p).numPages)
    (h : ∀ i, (q.view p).refCounts i = UINT8_MAX → (r.view p).refCounts i = UINT8_MAX) : Saturates q r where
  len := by
    have hn : r.bitmapLen * 32 = q.bitmapLen * 32 := hn
    omega
  counts := by
    intro i hi
    rw [← UInt8.toNat_inj]
    exact h i (congrArg UInt8.toNat hi)

theorem map_ok {α β ε : Type} {f : α → β} {x : Except ε α} {b : β} (h : x.map f = .ok b) : ∃ a, x = .ok a ∧ f a = b := by
  cases x with
  | error e => cases h
  | ok a => exact ⟨a, rfl, Except.ok.inj h⟩

section
variable (h : s.Inv p)
include h

theorem Inv.pageAlloc : (∃ i q, (s.pages.view p).Lowest i ∧ Pages.pageAlloc s.pages = .ok (.ok (i * PAGE_SIZE), q) ∧
      q.view p = (s.pages.view p).taken i) ∨
    (∀ i, i < s.pages.bitmapLen * 32 → s.pages.bit i = false) ∧
      ∃ q, Pages.pageAlloc s.pages = .ok (.error .ENOMEM, q) ∧ q.view p = s.pages.view p := by
  unfold Pages.pageAlloc
  obtain ⟨i, hlow, hrun⟩ | ⟨hnn, hrun⟩ := h.sound.pageAlloc
  · rw [Pages.allocIndex_view] at hrun
    obtain ⟨⟨r, q⟩, hq, he⟩ := map_ok hrun
    obtain ⟨rfl, hv⟩ := Prod.mk.inj he
    refine .inl ⟨i, q, hlow, ?_, hv⟩
    rw [bind_run hq, pure_run]
    rfl
  · rw [Pages.allocIndex_view] at hrun
    obtain ⟨⟨r, q⟩, hq, he⟩ := map_ok hrun
    obtain ⟨rfl, hv⟩ := Prod.mk.inj he
    refine .inr ⟨hnn, q, ?_, hv⟩
    rw [bind_run hq, pure_run]
    rfl

theorem Inv.becomes {live : Nat → Nat} (hs : (q.view p).PagesSound) (hc : (q.view p).Counted live)
    (hn : (q.view p).numPages = (s.pages.view p).numPages)
    (hsat : ∀ i, (s.pages.view p).refCounts i = UINT8_MAX → (q.view p).refCounts i = UINT8_MAX) :
    Inv p { s with pages := q, live := live } ∧ Saturates s.pages q := by
  refine ⟨⟨hs, hc, ?_⟩, saturates_of_view hn hsat⟩
  intro i hi hr
  have hn : q.bitmapLen * 32 = s.pages.bitmapLen * 32 := hn
  exact hsat i (h.reserved i (hn ▸ hi) hr)

theorem Inv.exec_alloc : ∃ s', s.exec .alloc = .ok s' ∧ s'.Inv p ∧ Saturates s.pages s'.pages := by
  unfold Allocator.exec
  obtain ⟨i, q, ⟨hi, hb, hlow⟩, hrun, hq⟩ | ⟨-, q, hrun, hq⟩ := h.pageAlloc
  · have hpa : i * PAGE_SIZE / PAGE_SIZE = i := Nat.mul_div_cancel _ (by decide)
    have hli : s.live i = 0 := by
      have := h.not_live hi hb
      unfold Live at this
      omega
    have hze : (s.pages.view p).refCounts i = 0 := (h.sound.bits i hi).mp hb
    rw [hrun]
    refine ⟨_, rfl, h.becomes ?_ ?_ ?_ ?_⟩
    · rw [hq]
      exact h.sound.taken hi hb
    · rw [hq, hpa, hli]
      exact h.counted.taken (fun j hj => update_of_ne hj ..) (update_self ..)
    · rw [hq]
      rfl
    · intro j hj
      rw [hq]
      show update (s.pages.view p).refCounts i 1 j = UINT8_MAX
      rwa [update_of_ne]
      rintro rfl
      rw [hze] at hj
      cases hj
  · rw [hrun]
    refine ⟨_, rfl, h.becomes ?_ ?_ ?_ ?_⟩
    · rw [hq]
      exact h.sound
    · rw [hq]
      exact h.counted
    · rw [hq]
    · rw [hq]
      exact fun _ hj => hj

theorem Inv.touched {t : Paging} {n : Nat}
    (hv : q.view p = if i < (s.pages.view p).numPages then t else s.pages.view p)
    (hs : i < (s.pages.view p).numPages → t.PagesSound)
    (hc : i < (s.pages.view p).numPages → t.Counted (update s.live i n)) (hn : t.numPages = (s.pages.view p).numPages)
    (hsat : ∀ j, (s.pages.view p).refCounts j = UINT8_MAX → t.refCounts j = UINT8_MAX) :
    Inv p (s.setLive q i n) ∧ Saturates s.pages q := by
  by_cases hi : i < (s.pages.view p).numPages
  · rw [if_pos hi] at hv
    refine h.becomes ?_ ?_ ?_ ?_
    · rw [hv]
      exact hs hi
    · rw [hv]
      exact hc hi
    · rw [hv, hn]
    · rw [hv]
      exact hsat
  · rw [if_neg hi] at hv
    refine h.becomes ?_ ?_ ?_ ?_
    · rw [hv]
      exact h.sound
    · rw [hv]
      intro j hj
      rw [update_of_ne (by omega)]
      exact h.counted j hj
    · rw [hv]
    · rw [hv]
      exact fun _ hj => hj

theorem Inv.exec_ref (hok : s.Allowed (.ref a)) :
    ∃ s', s.exec (.ref a) = .ok s' ∧ s'.Inv p ∧ Saturates s.pages s'.pages := by
  obtain ⟨ha, hli⟩ := hok
  have hrun := pageRef_run ha fun hi => h.ref_pos hi (hli hi)
  rw [Pages.pageRef_view] at hrun
  obtain ⟨⟨u, q⟩, hq, he⟩ := map_ok hrun
  refine ⟨s.setLive q (a / PAGE_SIZE) (s.live (a / PAGE_SIZE) + 1), by simp only [Allocator.exec, hq],
    h.touched (Prod.mk.inj he).2 ?_ ?_ Paging.refd_numPages fun _ => Paging.refd_saturated⟩
  · exact fun hi => h.sound.refd (h.ref_pos hi (hli hi)).1
  · exact fun _ => h.counted.refd h.sound (fun j hj => update_of_ne hj ..) (update_self ..)

theorem Inv.exec_unref (hok : s.Allowed (.unref a)) :
    ∃ s', s.exec (.unref a) = .ok s' ∧ s'.Inv p ∧ Saturates s.pages s'.pages := by
  obtain ⟨ha, hli⟩ := hok
  have hrun := pageUnref_run ha fun hi => h.ref_pos hi (hli hi)
  rw [Pages.pageUnref_view] at hrun
  obtain ⟨⟨u, q⟩, hq, he⟩ := map_ok hrun
  refine ⟨s.setLive q (a / PAGE_SIZE) (s.live (a / PAGE_SIZE) - 1), by simp only [Allocator.exec, hq],
    h.touched (Prod.mk.inj he).2 ?_ ?_ Paging.unrefd_numPages fun _ => Paging.unrefd_saturated⟩
  · exact fun hi => h.sound.unrefd hi (h.ref_pos hi (hli hi)).1
  · exact fun _ => h.counted.unrefd h.sound (fun j hj => update_of_ne hj ..) (update_self ..)

theorem Inv.exec {op : PageOp} (hok : s.Allowed op) :
    ∃ s', s.exec op = .ok s' ∧ s'.Inv p ∧ Saturates s.pages s'.pages := by
  cases op with
  | alloc => exact h.exec_alloc
  | ref a => exact h.exec_ref hok
  | unref a => exact h.exec_unref hok

theorem Inv.step {op : PageOp} (hok : s.Allowed op) (hs : Step s op s') : s'.Inv p ∧ Saturates s.pages s'.pages := by
  obtain ⟨t, ht, hinv, hsat⟩ := h.exec hok
  rw [Step, ht] at hs
  cases hs
  exact ⟨hinv, hsat⟩

theorem Inv.run (hr : Run Step Allowed s s') : s'.Inv p ∧ Saturates s.pages s'.pages := by
  refine hr.invariant (I := fun t => t.Inv p ∧ Saturates s.pages t.pages) ⟨h, rfl, fun _ hi => hi⟩ ?_
  rintro t op t' ⟨ht, hsat⟩ hs hok
  obtain ⟨ht', hsat'⟩ := ht.step hok hs
  exact ⟨ht', hsat'.len.trans hsat.len, fun i hi => hsat'.counts i (hsat.counts i hi)⟩

end

end

end Allocator

structure Allocator.Sound (s : Allocator) : Prop where
  bits : ∀ i, i < s.pages.bitmapLen * 32 → (s.pages.bit i = true ↔ s.pages.refCounts i = 0)
  free : s.pages.freeKibibytes.toNat =
    4 * ((Finset.range (s.pages.bitmapLen * 32)).filter fun i => s.pages.bit i = true).card
  lowest : ∀ a q, Pages.pageAlloc s.pages = .ok (.ok a, q) → ∃ i, a = i * PAGE_SIZE ∧ i < s.pages.bitmapLen * 32 ∧
    s.pages.bit i = true ∧ (∀ j, j < i → s.pages.bit j = false) ∧ ¬ s.Live i
  full : ∀ e q, Pages.pageAlloc s.pages = .ok (.error e, q) → ∀ i, i < s.pages.bitmapLen * 32 → s.pages.bit i = false
  returns : ∀ op, s.Allowed op → ∃ s', s.exec op = .ok s'
  kept : ∀ i, i < s.pages.bitmapLen * 32 → s.pages.refCounts i = 255 → ∀ s', Run Allocator.Step Allocator.Allowed s s' →
    s'.pages.refCounts i = 255 ∧ s'.pages.bit i = false

theorem Allocator.Inv.allocatorSound {p : Paging} {s : Allocator} (h : s.Inv p) : s.Sound where
  bits := by
    intro i hi
    rw [Pages.ref_eq_zero (p := p)]
    exact h.sound.bits i hi
  free := h.sound.free
  lowest := by
    intro a q hrun
    obtain ⟨i, q', ⟨hi, hb, hlow⟩, hrun', -⟩ | ⟨-, q', hrun', -⟩ := h.pageAlloc
    · rw [hrun'] at hrun
      cases hrun
      exact ⟨i, rfl, hi, hb, hlow, h.not_live hi hb⟩
    · rw [hrun'] at hrun
      cases hrun
  full := by
    intro e q hrun
    obtain ⟨i, q', -, hrun', -⟩ | ⟨hnn, -⟩ := h.pageAlloc
    · rw [hrun'] at hrun
      cases hrun
    · exact hnn
  returns := by
    intro op hok
    obtain ⟨s', hs', -⟩ := h.exec hok
    exact ⟨s', hs'⟩
  kept := by
    intro i hi hc s' hr
    obtain ⟨h', hsat⟩ := h.run hr
    have hc' := hsat.counts i hc
    refine ⟨hc', ?_⟩
    have hz : ¬ (s'.pages.view p).refCounts i = 0 := by
      show ¬ (s'.pages.refCounts i).toNat = 0
      rw [hc']
      decide
    rw [← h'.sound.bits i (by rw [← hsat.len] at hi; exact hi)] at hz
    exact Bool.eq_false_iff.mpr hz

theorem page_allocator_sound {info : Pages.MultibootInfo} {kernelEnd : UInt32} {u : Unit} {q : Pages} {s : Allocator}
    (hinit : Pages.pageInit info kernelEnd Pages.zero = .ok (u, q))
    (hr : Run Allocator.Step Allocator.Allowed (Allocator.boot q) s) : s.Sound :=
  ((Allocator.boot_inv (p := default) (Pages.pageInit_fresh hinit)).run hr).1.allocatorSound

theorem page_allocator_sound_one_page :
    ∃ q s, Pages.pageInit ⟨0, some [⟨0, 0x2000, 1⟩], none⟩ 0xc0001000 Pages.zero = .ok ((), q) ∧
      Run Allocator.Step Allocator.Allowed (Allocator.boot q) s ∧ s.live 1 = 1 ∧ s.Sound := by
  have h : (match Pages.pageInit ⟨0, some [⟨0, 0x2000, 1⟩], none⟩ 0xc0001000 Pages.zero with
      | .ok (_, q) => match (Allocator.boot q).exec .alloc with
        | .ok s => decide (s.live 1 = 1)
        | .error _ => false
      | .error _ => false) = true := by
    decide +kernel
  split at h
  · rename_i u q hin
    split at h
    · rename_i s hs
      have hr : Run Allocator.Step Allocator.Allowed (Allocator.boot q) s := .tail (.refl _) hs trivial
      exact ⟨q, s, hin, hr, of_decide_eq_true h, page_allocator_sound hin hr⟩
    · cases h
  · cases h

end Yagura
