import Yagura.Trans
import Yagura.UserIo

/-!
# Descriptors of a disk request

`virtio_blk_do_io` shows the device a header, the caller's buffer and a footer
(`drivers/virtio`). The device follows the chain of their descriptors, each of
which has one physical address and a length.
-/

namespace Yagura.Virtio

open Function List UserIo

/-! ## The queue -/

abbrev Pages := Nat → Option Nat

def virtToPhys (pages : Pages) (a : Nat) : Option Nat :=
  (pages (a / PAGE_SIZE)).map fun frame => frame * PAGE_SIZE + a % PAGE_SIZE

structure Desc where
  addr : Nat
  len : Nat
  /-- `VIRTQ_DESC_F_WRITE` -/
  write : Bool
  /-- `VIRTQ_DESC_F_NEXT` -/
  more : Bool
  next : Nat

structure Virtq where
  size : Nat
  desc : Nat → Desc
  freeHead : Nat
  numFreeDescs : Nat

def virtqCreate (queueSize : Nat) : Virtq where
  size := queueSize
  desc i := ⟨0, 0, false, false, if i + 1 < queueSize then i + 1 else 0⟩
  freeHead := 0
  numFreeDescs := queueSize

structure DescChain where
  virtq : Virtq
  head : Nat
  tail : Nat
  numPushed : Nat

def virtqDescChainInit (q : Virtq) (numDescriptors : Nat) : Option DescChain :=
  if q.numFreeDescs < numDescriptors then none else some ⟨q, 0, 0, 0⟩

/-- `d` goes into the first free descriptor, behind those of the chain. -/
def DescChain.push (c : DescChain) (addr len : Nat) (deviceWritable : Bool) : DescChain :=
  let head := c.virtq.freeHead
  let d : Desc := ⟨addr, len, deviceWritable, false, (c.virtq.desc head).next⟩
  let desc := update c.virtq.desc head d
  let desc := if c.numPushed = 0 then desc else update desc c.tail { desc c.tail with next := head, more := true }
  { virtq := ⟨c.virtq.size, desc, (desc head).next, c.virtq.numFreeDescs - 1⟩
    head := if c.numPushed = 0 then head else c.head
    tail := head
    numPushed := c.numPushed + 1 }

def virtqDescChainPushBuf (pages : Pages) (buf len : Nat) (deviceWritable : Bool) (c : DescChain) :
    Option DescChain :=
  if c.virtq.numFreeDescs = 0 then none
  else (virtToPhys pages buf).map fun addr => c.push addr len deviceWritable

/-- The queue once the device is done with the chain. -/
def virtqDescChainSubmit (c : DescChain) : Virtq :=
  if c.numPushed = 0 then c.virtq
  else
    let d := c.virtq.desc c.tail
    { c.virtq with
      desc := update c.virtq.desc c.tail { d with next := c.virtq.freeHead }
      freeHead := c.head
      numFreeDescs := c.virtq.numFreeDescs + c.numPushed }

/-! ## What the device may access -/

/-- The descriptors the device meets from `i` on. A chain is no longer than the queue. -/
def walk (desc : Nat → Desc) : Nat → Nat → List Desc
  | 0, _ => []
  | fuel + 1, i => desc i :: if (desc i).more then walk desc fuel (desc i).next else []

/-- The physical bytes of a descriptor, and whether the device may write them. -/
def Desc.bytes (d : Desc) : List (Option Nat × Bool) := (List.range d.len).map fun i => (some (d.addr + i), d.write)

def DescChain.exposed (c : DescChain) : List (Option Nat × Bool) :=
  (walk c.virtq.desc c.virtq.size c.head).flatMap Desc.bytes

def backing (pages : Pages) (a n : Nat) (write : Bool) : List (Option Nat × Bool) :=
  (List.range n).map fun i => (virtToPhys pages (a + i), write)

/-! ## Requests -/

structure Request where
  pages : Pages
  /-- Where the header and the footer lie on the kernel stack. -/
  header : Nat
  footer : Nat
  buffer : Nat
  count : Nat
  offset : Nat
  deviceWritable : Bool

inductive Outcome
  | error (e : Errno)
  | atEnd
  | waits
  | panics
  | submits (c : DescChain)

def HEADER_SIZE : Nat := 16
def FOOTER_SIZE : Nat := 1

def submitRequest (r : Request) (count : Nat) (q : Virtq) : Outcome :=
  match virtqDescChainInit q 3 with
  | none => .waits
  | some c =>
    let pushed := ((virtqDescChainPushBuf r.pages r.header HEADER_SIZE false c).bind
      (virtqDescChainPushBuf r.pages r.buffer count r.deviceWritable)).bind
      (virtqDescChainPushBuf r.pages r.footer FOOTER_SIZE true)
    match pushed with
    | none => .panics
    | some c => .submits c

def Request.inside (r : Request) (capacity : Nat) : Nat :=
  min r.count ((capacity - r.offset / SECTOR_SIZE) * SECTOR_SIZE % 2 ^ 64)

def virtioBlkDoIo (capacity : Nat) (r : Request) (q : Virtq) : Outcome :=
  if r.count % SECTOR_SIZE ≠ 0 then .error .EINVAL
  else if r.offset % SECTOR_SIZE ≠ 0 then .error .EINVAL
  else if capacity ≤ r.offset / SECTOR_SIZE then .atEnd
  else submitRequest r (r.inside capacity) q

/-- The lock of the device is held until the queue has the descriptors back. -/
def Serves (capacity : Nat) (q : Virtq) (r : Request) (q' : Virtq) : Prop :=
  ∃ c, virtioBlkDoIo capacity r q = .submits c ∧ q' = virtqDescChainSubmit c

/-! ## The free list -/

def Linked (desc : Nat → Desc) : Nat → List Nat → Prop
  | _, [] => True
  | i, j :: l => i = j ∧ Linked desc (desc j).next l

theorem Linked.congr {desc desc' : Nat → Desc} {i : Nat} {l : List Nat} (h : Linked desc i l)
    (heq : ∀ j ∈ l, (desc' j).next = (desc j).next) : Linked desc' i l := by
  induction l generalizing i with
  | nil => trivial
  | cons j l ih =>
    refine ⟨h.1, ?_⟩
    rw [heq j (by simp)]
    exact ih h.2 fun k hk => heq k (by simp [hk])

structure Virtq.Free (q : Virtq) (l : List Nat) : Prop where
  linked : Linked q.desc q.freeHead l
  nodup : l.Nodup
  num : q.numFreeDescs = l.length
  size : q.size = l.length

theorem linked_create (size k i : Nat) (h : i + k ≤ size) : Linked (virtqCreate size).desc i (range' i k) := by
  induction k generalizing i with
  | zero => trivial
  | succ k ih =>
    refine ⟨rfl, ?_⟩
    cases k with
    | zero => trivial
    | succ k =>
      have hnx : ((virtqCreate size).desc i).next = i + 1 := if_pos (by omega)
      rw [hnx]
      exact ih (i + 1) (by omega)

theorem free_create (size : Nat) : (virtqCreate size).Free (range' 0 size) where
  linked := linked_create size size 0 (by omega)
  nodup := nodup_range'
  num := by simp [virtqCreate]
  size := by simp [virtqCreate]

variable {q : Virtq} {pages : Pages} {c : DescChain} {capacity : Nat}

theorem pushBuf_eq {buf len : Nat} {w : Bool} {c' : DescChain}
    (h : virtqDescChainPushBuf pages buf len w c = some c') :
    ∃ addr, virtToPhys pages buf = some addr ∧ c' = c.push addr len w := by
  unfold virtqDescChainPushBuf at h
  split_ifs at h
  obtain ⟨addr, ha, h⟩ := Option.map_eq_some_iff.mp h
  exact ⟨addr, ha, h.symm⟩

theorem submitRequest_eq {r : Request} {count : Nat} (hc : submitRequest r count q = .submits c) :
    3 ≤ q.numFreeDescs ∧ ∃ x y z, virtToPhys r.pages r.header = some x ∧ virtToPhys r.pages r.buffer = some y ∧
      virtToPhys r.pages r.footer = some z ∧
      c = (((⟨q, 0, 0, 0⟩ : DescChain).push x HEADER_SIZE false).push y count r.deviceWritable).push z
        FOOTER_SIZE true := by
  unfold submitRequest virtqDescChainInit at hc
  by_cases hn : q.numFreeDescs < 3
  · simp [hn] at hc
  · simp only [hn, if_false] at hc
    split at hc
    · cases hc
    · rename_i c' hpu
      cases hc
      obtain ⟨c₂, hpu, h3⟩ := Option.bind_eq_some_iff.mp hpu
      obtain ⟨c₁, h1, h2⟩ := Option.bind_eq_some_iff.mp hpu
      obtain ⟨x, hx, rfl⟩ := pushBuf_eq h1
      obtain ⟨y, hy, rfl⟩ := pushBuf_eq h2
      obtain ⟨z, hz, rfl⟩ := pushBuf_eq h3
      exact ⟨by omega, x, y, z, hx, hy, hz, rfl⟩

theorem Virtq.Free.push {l : List Nat} (h : q.Free l) (hn : 3 ≤ q.numFreeDescs) (x y z : Desc) :
    let c := (((⟨q, 0, 0, 0⟩ : DescChain).push x.addr x.len x.write).push y.addr y.len y.write).push z.addr z.len
      z.write
    (virtqDescChainSubmit c).Free l ∧ c.exposed = x.bytes ++ y.bytes ++ z.bytes := by
  obtain ⟨i, j, k, rest, rfl⟩ : ∃ i j k rest, l = i :: j :: k :: rest := by
    match l, h.num with
    | i :: j :: k :: rest, _ => exact ⟨i, j, k, rest, rfl⟩
    | [], hl | [_], hl | [_, _], hl => simp at hl; omega
  obtain ⟨⟨hi, hj, hk, hre⟩, hnp, hnum, hsi⟩ := h
  have hnd := hnp
  simp only [nodup_cons, mem_cons, not_or] at hnd
  obtain ⟨⟨hij, hik, hir⟩, ⟨hjk, hjr⟩, hkr, -⟩ := hnd
  intro c
  refine ⟨⟨?_, hnp, ?_, hsi⟩, ?_⟩
  · simp [c, virtqDescChainSubmit, DescChain.push, Linked, *, Ne.symm hij, Ne.symm hik, Ne.symm hjk]
    refine hre.congr fun m hm => ?_
    have hmi : m ≠ i := fun e => hir (e ▸ hm)
    have hmj : m ≠ j := fun e => hjr (e ▸ hm)
    have hmk : m ≠ k := fun e => hkr (e ▸ hm)
    simp [hmi, hmj, hmk]
  · simp [c, virtqDescChainSubmit, DescChain.push, hnum]
  · simp [c, DescChain.exposed, DescChain.push, walk, Desc.bytes, *, Ne.symm hij, Ne.symm hik, Ne.symm hjk]

theorem virtioBlkDoIo_eq {r : Request} (h : virtioBlkDoIo capacity r q = .submits c) :
    submitRequest r (r.inside capacity) q = .submits c := by
  unfold virtioBlkDoIo at h
  split_ifs at h
  exact h

theorem free_of_run {size : Nat} (h : Run (Serves capacity) (fun _ _ => True) (virtqCreate size) q) :
    ∃ l, q.Free l := by
  refine h.invariant (I := fun q => ∃ l, q.Free l) ⟨_, free_create size⟩ ?_
  rintro q r _ ⟨l, hl⟩ ⟨c, hc, rfl⟩ -
  obtain ⟨hn, x, y, z, -, -, -, rfl⟩ := submitRequest_eq (virtioBlkDoIo_eq hc)
  exact ⟨l, (hl.push hn ⟨x, HEADER_SIZE, false, false, 0⟩ ⟨y, _, _, false, 0⟩ ⟨z, FOOTER_SIZE, true, false, 0⟩).1⟩

/-! ## Consecutive frames -/

/-- Where `[a, a + n)` goes on to another page, so does the frame to the one behind it. -/
def Consecutive (pages : Pages) (a n : Nat) : Prop :=
  ∀ p, a / PAGE_SIZE ≤ p → (p + 1) * PAGE_SIZE < a + n → ∃ f, pages p = some f ∧ pages (p + 1) = some (f + 1)

theorem consecutive_iff {a x : Nat} (h : virtToPhys pages a = some x) (n : Nat) :
    Consecutive pages a n ↔ ∀ i < n, virtToPhys pages (a + i) = some (x + i) := by
  obtain ⟨f, hf, rfl⟩ := Option.map_eq_some_iff.mp h
  simp only [Consecutive, virtToPhys, PAGE_SIZE] at hf ⊢
  constructor
  · intro hc
    -- the frames of the pages of the range, by induction on how far the page is from the first
    have key : ∀ d, d = 0 ∨ (a / 4096 + d) * 4096 < a + n → pages (a / 4096 + d) = some (f + d) := by
      intro d hd
      induction d with
      | zero => exact hf
      | succ d ih =>
        obtain ⟨g, hg, hg'⟩ := hc (a / 4096 + d) (by omega) (by omega)
        rw [ih (by omega)] at hg
        cases hg
        exact hg'
    intro i hi
    obtain ⟨d, hd⟩ : ∃ d, (a + i) / 4096 = a / 4096 + d := ⟨(a + i) / 4096 - a / 4096, by omega⟩
    rw [hd, key d (by omega), Option.map_some, Option.some.injEq]
    omega
  · intro hi p hp hlt
    -- the last byte of the page and the first one of the next
    obtain ⟨g, hg, hx⟩ := Option.map_eq_some_iff.mp (hi ((p + 1) * 4096 - 1 - a) (by omega))
    obtain ⟨g', hg', hx'⟩ := Option.map_eq_some_iff.mp (hi ((p + 1) * 4096 - a) (by omega))
    rw [show (a + ((p + 1) * 4096 - 1 - a)) / 4096 = p by omega] at hg
    rw [show (a + ((p + 1) * 4096 - a)) / 4096 = p + 1 by omega] at hg'
    exact ⟨g, hg, by rw [hg', Option.some.injEq]; omega⟩

theorem bytes_eq_backing_iff {a x : Nat} (h : virtToPhys pages a = some x) (n : Nat) (w : Bool) :
    (⟨x, n, w, false, 0⟩ : Desc).bytes = backing pages a n w ↔ Consecutive pages a n := by
  rw [consecutive_iff h]
  simp [Desc.bytes, backing, map_inj_left, eq_comm]

theorem consecutive_footer (pages : Pages) (a : Nat) : Consecutive pages a FOOTER_SIZE := by
  intro p hp hlt
  simp only [PAGE_SIZE, FOOTER_SIZE] at hp hlt
  omega

/-- What the device may access is the header, the buffer and the footer, in order, if and only if the
frames behind each follow each other. -/
theorem dma_inside_iff {size : Nat} (h : Run (Serves capacity) (fun _ _ => True) (virtqCreate size) q) (r : Request) :
    (∀ c, virtioBlkDoIo capacity r q = .submits c → c.exposed = backing r.pages r.header HEADER_SIZE false ++
        backing r.pages r.buffer (r.inside capacity) r.deviceWritable ++ backing r.pages r.footer FOOTER_SIZE true) ↔
    ((∃ c, virtioBlkDoIo capacity r q = .submits c) →
      Consecutive r.pages r.header HEADER_SIZE ∧ Consecutive r.pages r.buffer (r.inside capacity)) := by
  obtain ⟨l, hl⟩ := free_of_run h
  rw [forall_exists_index]
  refine forall_congr' fun c => imp_congr_right fun hc => ?_
  obtain ⟨hn, x, y, z, hx, hy, hz, rfl⟩ := submitRequest_eq (virtioBlkDoIo_eq hc)
  rw [(hl.push hn ⟨x, HEADER_SIZE, false, false, 0⟩ ⟨y, _, _, false, 0⟩ ⟨z, FOOTER_SIZE, true, false, 0⟩).2,
    ← bytes_eq_backing_iff hx _ false, ← bytes_eq_backing_iff hy _ r.deviceWritable,
    (bytes_eq_backing_iff hz _ true).mpr (consecutive_footer _ _)]
  rw [append_left_inj]
  constructor
  · exact fun h => append_inj h (by simp [Desc.bytes, backing])
  · rintro ⟨h₁, h₂⟩
    rw [h₁, h₂]

/-- A buffer over two pages whose frames are 5 and 9: the device writes to frame 6. -/
def acrossPages : Request where
  pages p := if p = 1 then some 5 else if p = 2 then some 9 else if p = 100 then some 100 else none
  header := 100 * PAGE_SIZE
  footer := 100 * PAGE_SIZE + HEADER_SIZE
  buffer := 2 * PAGE_SIZE - SECTOR_SIZE
  count := 2 * SECTOR_SIZE
  offset := 0
  deviceWritable := true

theorem dma_strays : ∃ c, virtioBlkDoIo 2 acrossPages (virtqCreate 4) = .submits c ∧
    (some (6 * PAGE_SIZE), true) ∈ c.exposed ∧
    ∀ i, virtToPhys acrossPages.pages (acrossPages.buffer + i) ≠ some (6 * PAGE_SIZE) := by
  refine ⟨_, rfl, ?_, fun i => ?_⟩
  · refine mem_flatMap.mpr ⟨_, .tail _ (.head _), mem_map.mpr ⟨SECTOR_SIZE, ?_, rfl⟩⟩
    exact mem_range.mpr (by decide)
  · simp only [virtToPhys, acrossPages, PAGE_SIZE]
    split_ifs <;> simp <;> omega

def inPage : Request := { acrossPages with buffer := PAGE_SIZE }

theorem dma_inside_page : ∃ c, virtioBlkDoIo 2 inPage (virtqCreate 4) = .submits c ∧
    c.exposed = backing inPage.pages inPage.header HEADER_SIZE false ++
      backing inPage.pages inPage.buffer 1024 true ++ backing inPage.pages inPage.footer FOOTER_SIZE true := by
  have hin : inPage.inside 2 = 1024 := by decide
  obtain ⟨c, hc⟩ : ∃ c, virtioBlkDoIo 2 inPage (virtqCreate 4) = .submits c := ⟨_, rfl⟩
  refine ⟨c, hc, hin ▸ (dma_inside_iff (.refl (virtqCreate 4)) inPage).mpr (fun _ => ⟨?_, ?_⟩) c hc⟩ <;>
    intro p hp hlt
  · simp only [inPage, acrossPages, PAGE_SIZE, HEADER_SIZE] at hp hlt
    omega
  · rw [hin] at hlt
    simp only [inPage, PAGE_SIZE] at hp hlt
    omega

end Yagura.Virtio
