import Yagura.FifoOpen
import Yagura.Paging
import Yagura.RingBuf

/-!
# Pipes and unix sockets

`fifo.c` and the stream part of `unix_socket.c`, run by any number of threads.
A thread stands at one of the points of `pread` or `pwrite` between which other
threads may run: the test of the ring and the copying loop under it are separate
steps, and only the lock keeps others from coming in between. Each ring carries a
record of the transfers made on it, in lock order. `fifo_close` and
`is_connector` go by what `file->flags` and `connector_file` hold by then.
-/

namespace Yagura

open Function List

open FifoOpen (Access accessOf closeNum decrement)

/-! ## Channels -/

inductive Transfer
  | read (count : Nat) (bytes : List UInt8)
  | write (bytes : List UInt8) (n : Nat)
  deriving DecidableEq

def Transfer.delivered : Transfer → List UInt8
  | .read _ bytes => bytes
  | .write _ _ => []

def Transfer.accepted : Transfer → List UInt8
  | .read _ _ => []
  | .write bytes n => bytes.take n

def Transfer.Partial : Transfer → Prop
  | .read count bytes => 1 ≤ bytes.length ∧ bytes.length ≤ count
  | .write bytes n => 1 ≤ n ∧ n ≤ bytes.length

structure Channel where
  buf : RingBuf UInt8
  transfers : List Transfer

namespace Channel

def delivered (c : Channel) : List UInt8 := c.transfers.flatMap Transfer.delivered

def accepted (c : Channel) : List UInt8 := c.transfers.flatMap Transfer.accepted

def read (c : Channel) (count : Nat) : List UInt8 × Channel :=
  ((c.buf.read count).1, ⟨(c.buf.read count).2, c.transfers ++ [.read count (c.buf.read count).1]⟩)

def write (c : Channel) (bytes : List UInt8) : Nat × Channel :=
  ((c.buf.write bytes).1, ⟨(c.buf.write bytes).2, c.transfers ++ [.write bytes (c.buf.write bytes).1]⟩)

structure Stream (capacity : Nat) (c : Channel) : Prop where
  valid : c.buf.Valid
  capacity : c.buf.capacity = capacity
  stream : c.accepted = c.delivered ++ c.buf.contents
  part : ∀ x ∈ c.transfers, x.Partial

def create (capacity : Nat) (ring : Nat → UInt8) : Channel := ⟨⟨capacity, 0, 0, ring⟩, []⟩

theorem create_contents (capacity : Nat) (ring : Nat → UInt8) : (create capacity ring).buf.contents = [] := by
  simp [create, RingBuf.contents, RingBuf.length]

theorem create_stream {capacity : Nat} (h : 2 ≤ capacity) (ring : Nat → UInt8) :
    (create capacity ring).Stream capacity := by
  refine ⟨⟨h, ?_, ?_⟩, rfl, ?_, ?_⟩
  · show 0 < capacity
    omega
  · show 0 < capacity
    omega
  · rw [create_contents]
    rfl
  · intro x hx
    cases hx

section
variable {capacity : Nat} {c : Channel}

theorem Stream.read (h : c.Stream capacity) (hne : c.buf.isEmpty = false) {count : Nat} (hc : 0 < count) :
    (c.read count).2.Stream capacity := by
  have hco : c.buf.contents ≠ [] := by
    intro he
    rw [h.valid.isEmpty_iff.mpr he] at hne
    cases hne
  obtain ⟨hv, hcap, hr, hd⟩ := h.valid.read hco count
  have hpos : 0 < c.buf.contents.length := length_pos_of_ne_nil hco
  refine ⟨hv, hcap.trans h.capacity, ?_, ?_⟩
  · unfold Channel.read accepted delivered
    rw [flatMap_append, flatMap_append, hd, hr]
    simp only [flatMap_cons, flatMap_nil, Transfer.accepted, Transfer.delivered, append_nil,
      append_assoc, take_append_drop]
    exact h.stream
  · intro x hx
    rcases mem_append.mp hx with hx | hx
    · exact h.part x hx
    · rw [mem_singleton.mp hx]
      show 1 ≤ (c.buf.read count).1.length ∧ (c.buf.read count).1.length ≤ count
      rw [hr, length_take]
      omega

theorem Stream.write (h : c.Stream capacity) (hnf : c.buf.isFull = false) {bytes : List UInt8} (hb : bytes ≠ []) :
    (c.write bytes).2.Stream capacity := by
  have hro : c.buf.contents.length + 1 < c.buf.capacity := by
    have hlt := h.valid.length_lt
    have hne : ¬ c.buf.contents.length + 1 = c.buf.capacity := by
      intro he
      rw [h.valid.isFull_iff.mpr he] at hnf
      cases hnf
    rw [RingBuf.length_contents] at hne ⊢
    omega
  obtain ⟨hv, hcap, hn, hco⟩ := h.valid.write hro bytes
  have hpos : 0 < bytes.length := length_pos_of_ne_nil hb
  refine ⟨hv, hcap.trans h.capacity, ?_, ?_⟩
  · unfold Channel.write accepted delivered
    rw [flatMap_append, flatMap_append, hco]
    simp only [flatMap_cons, flatMap_nil, Transfer.accepted, Transfer.delivered, append_nil]
    rw [← append_assoc]
    exact congrArg (· ++ _) h.stream
  · intro x hx
    rcases mem_append.mp hx with hx | hx
    · exact h.part x hx
    · rw [mem_singleton.mp hx]
      show 1 ≤ (c.buf.write bytes).1 ∧ (c.buf.write bytes).1 ≤ bytes.length
      omega

theorem mem_transfers_read (count : Nat) : .read count (c.read count).1 ∈ (c.read count).2.transfers :=
  mem_append_right _ (mem_singleton.mpr rfl)

theorem mem_transfers_write (bytes : List UInt8) : .write bytes (c.write bytes).1 ∈ (c.write bytes).2.transfers :=
  mem_append_right _ (mem_singleton.mpr rfl)

end

end Channel

theorem holder_update {P : Type} {locked : P → Bool} {pc : Nat → P} {lock l : Option Nat} {t : Nat} {p : P}
    (h : ∀ u, locked (pc u) = true → lock = some u) (hp : locked p = true → l = some t)
    (hl : l = lock ∨ lock = none ∨ lock = some t) (u : Nat) (hu : locked (update pc t p u) = true) :
    l = some u := by
  by_cases hut : u = t
  · subst hut
    rw [update_self] at hu
    exact hp hu
  · rw [update_of_ne hut] at hu
    have hlo := h u hu
    rcases hl with rfl | hl | hl
    · exact hlo
    · cases hlo.symm.trans hl
    · exact absurd (Option.mem_unique hlo hl) hut

/-! ## The FIFO -/

inductive Result
  | none
  | transfer (x : Transfer)
  | eof
  | error (e : Errno)
  deriving DecidableEq

inductive FifoPc
  | user (r : Result)
  | readBlock (count : Nat)
  | readLock (count : Nat)
  | readLocked (count : Nat)
  | readCopy (count : Nat)
  | readEmpty (count : Nat)
  | readUnlock (count : Nat) (noWriter : Bool)
  | writeBlock (bytes : List UInt8)
  | writeLock (bytes : List UInt8)
  | writeLocked (bytes : List UInt8)
  | writeTest (bytes : List UInt8)
  | writeCopy (bytes : List UInt8)
  | writeUnlock (bytes : List UInt8) (noReader : Bool)
  | done (x : Transfer)
  deriving DecidableEq

def FifoPc.locked : FifoPc → Bool
  | .user _ | .readBlock _ | .readLock _ | .writeBlock _ | .writeLock _ => false
  | _ => true

def PIPE_BUF : Nat := 4096

/-- A file that is open, or being opened, by a call with access `opened`. -/
structure FifoFile where
  opened : Access
  flags : Nat
  deriving DecidableEq

/-- `num` is `num_readers` and `num_writers`. `look` is what the ring held and how many files were open
for writing when a thread last read `num_writers`. -/
structure Fifo where
  chan : Channel
  lock : Option Nat
  num : Access → Nat
  files : List FifoFile
  pc : Nat → FifoPc
  look : Nat → Option (List UInt8 × Nat)

namespace Fifo

def create (ring : Nat → UInt8) : Fifo :=
  { chan := Channel.create PIPE_BUF ring, lock := none, num := fun _ => 0, files := [], pc := fun _ => .user .none,
    look := fun _ => none }

def filesAt (files : List FifoFile) (a : Access) : Nat := (files.map FifoFile.opened).count a

def goto (s : Fifo) (t : Nat) (p : FifoPc) : Fifo := { s with pc := update s.pc t p }

def unblockRead (s : Fifo) : Bool := s.num .writer == 0 || !s.chan.buf.isEmpty

def unblockWrite (s : Fifo) : Bool := s.num .reader == 0 || !s.chan.buf.isFull

def resume (s : Fifo) (t : Nat) : Option Fifo :=
  match s.pc t with
  | .user _ => none
  | .readBlock count => if s.unblockRead then some (s.goto t (.readLock count)) else none
  | .readLock count => if s.lock = none then some { s.goto t (.readLocked count) with lock := some t } else none
  | .readLocked count => some (s.goto t (if s.chan.buf.isEmpty then .readEmpty count else .readCopy count))
  | .readCopy count =>
    some { s.goto t (.done (.read count (s.chan.read count).1)) with chan := (s.chan.read count).2 }
  | .readEmpty count =>
    some { s.goto t (.readUnlock count (s.num .writer == 0)) with
      look := update s.look t (some (s.chan.buf.contents, filesAt s.files .writer)) }
  | .readUnlock count noWriter =>
    some { s.goto t (if noWriter then .user .eof else .readBlock count) with lock := none }
  | .writeBlock bytes => if s.unblockWrite then some (s.goto t (.writeLock bytes)) else none
  | .writeLock bytes => if s.lock = none then some { s.goto t (.writeLocked bytes) with lock := some t } else none
  | .writeLocked bytes => some (s.goto t (if s.num .reader = 0 then .writeUnlock bytes true else .writeTest bytes))
  | .writeTest bytes => some (s.goto t (if s.chan.buf.isFull then .writeUnlock bytes false else .writeCopy bytes))
  | .writeCopy bytes =>
    some { s.goto t (.done (.write bytes (s.chan.write bytes).1)) with chan := (s.chan.write bytes).2 }
  | .writeUnlock bytes noReader =>
    -- the error of a failed `task_send_signal` is returned in place of `EPIPE`; the thread is its own target
    some { s.goto t (if noReader then .user (.error .EPIPE) else .writeBlock bytes) with lock := none }
  | .done x => some { s.goto t (.user (.transfer x)) with lock := none }

def giveUp (s : Fifo) (t : Nat) (e : Errno) : Option Fifo :=
  match s.pc t with
  | .readBlock _ => some (s.goto t (.user (.error e)))
  | .writeBlock _ => some (s.goto t (.user (.error e)))
  | _ => none

inductive Event
  | openFifo (flags : Nat)
  | openFails (i : Nat)
  | setfl (i flags : Nat)
  | closeFifo (i : Nat)
  | read (t count : Nat)
  | write (t : Nat) (bytes : List UInt8)
  | resume (t : Nat)
  | giveUp (t : Nat) (e : Errno)

/-- One event. `fifo_open` counts the file before it blocks; when the block fails, the file goes away
and nobody takes the count back. `F_SETFL` stores any flags, and a run ends at an `UNREACHABLE()`. -/
def exec (s : Fifo) : Event → Option Fifo
  | .openFifo flags =>
    match accessOf flags with
    | some a => some { s with num := update s.num a (s.num a + 1), files := s.files ++ [⟨a, flags⟩] }
    | none => some s
  | .openFails i => some { s with files := s.files.eraseIdx i }
  | .setfl i flags => some { s with files := s.files.modify i fun f => { f with flags := flags } }
  | .closeFifo i =>
    match s.files[i]? with
    | some f => (closeNum s.num f.flags).map fun num => { s with num := num, files := s.files.eraseIdx i }
    | none => none
  | .read t count =>
    match s.pc t with
    | .user _ =>
      if 0 < count then some { s.goto t (.readBlock count) with look := update s.look t none } else none
    | _ => none
  | .write t bytes =>
    match s.pc t with
    | .user _ => if bytes = [] then none else some (s.goto t (.writeBlock bytes))
    | _ => none
  | .resume t => s.resume t
  | .giveUp t e => s.giveUp t e

def Step (s : Fifo) (e : Event) (s' : Fifo) : Prop := s.exec e = some s'

def KeepsMode (s : Fifo) : Event → Prop
  | .setfl i flags => ∀ f ∈ s.files[i]?, accmode flags = accmode f.flags
  | _ => True

instance (s : Fifo) : ∀ e, Decidable (s.KeepsMode e)
  | .setfl i _ => inferInstanceAs (Decidable (∀ f ∈ s.files[i]?, _))
  | .openFifo _ | .openFails _ | .closeFifo _ | .read .. | .write .. | .resume _ | .giveUp .. => .isTrue trivial

end Fifo

/-! ## What holds in every state of a FIFO -/

/-- What is known at each point of a thread: the outcome of the test it made of the ring still holds
while it keeps the lock. `kept` says that `F_SETFL` has kept all access modes. -/
def FifoPc.Sound (kept : Prop) (c : Channel) (look : Option (List UInt8 × Nat)) : FifoPc → Prop
  | .user (.transfer x) | .done x => x ∈ c.transfers
  | .user .eof => kept → look = some ([], 0)
  | .user _ => True
  | .readBlock count | .readLock count | .readLocked count => 0 < count
  | .readCopy count => 0 < count ∧ c.buf.isEmpty = false
  | .readEmpty count => 0 < count ∧ c.buf.isEmpty = true
  | .readUnlock count noWriter => 0 < count ∧ (noWriter = true → kept → look = some ([], 0))
  | .writeBlock bytes | .writeLock bytes | .writeLocked bytes | .writeTest bytes | .writeUnlock bytes _ => bytes ≠ []
  | .writeCopy bytes => bytes ≠ [] ∧ c.buf.isFull = false

theorem FifoPc.Sound.mono {kept : Prop} {p : FifoPc} {c c' : Channel} {look : Option (List UInt8 × Nat)}
    (h : p.Sound kept c look) (ht : c.transfers ⊆ c'.transfers) (hp : p.locked = false) : p.Sound kept c' look := by
  cases p with
  | user r =>
    cases r with
    | transfer x => exact ht h
    | _ => exact h
  | readBlock _ | readLock _ | writeBlock _ | writeLock _ => exact h
  | _ => cases hp

namespace Fifo

structure Counted (num : Access → Nat) (files : List FifoFile) : Prop where
  num : ∀ a, filesAt files a ≤ num a
  modes : ∀ f ∈ files, accessOf f.flags = some f.opened

structure Inv (kept : Prop) (s : Fifo) : Prop where
  stream : s.chan.Stream PIPE_BUF
  holder : ∀ t, (s.pc t).locked = true → s.lock = some t
  counted : kept → Counted s.num s.files
  threads : ∀ t, (s.pc t).Sound kept s.chan (s.look t)

theorem create_inv (kept : Prop) (ring : Nat → UInt8) : (create ring).Inv kept where
  stream := Channel.create_stream (by decide) ring
  holder := by
    intro t h
    cases h
  counted _ := ⟨fun _ => Nat.le_refl 0, nofun⟩
  threads := fun _ => trivial

section
variable {num : Access → Nat} {files : List FifoFile} {i flags : Nat} {f : FifoFile} {a : Access}

theorem Counted.openFifo (h : Counted num files) (ha : accessOf flags = some a) :
    Counted (update num a (num a + 1)) (files ++ [⟨a, flags⟩]) where
  num b := by
    have hle := h.num b
    simp only [filesAt, map_append, map_cons, map_nil, count_append, update_apply] at hle ⊢
    by_cases hb : b = a
    · subst hb
      simpa using hle
    · simpa [hb, Ne.symm hb] using hle
  modes f hf := by
    rcases mem_append.mp hf with hf | hf
    · exact h.modes f hf
    · rw [mem_singleton.mp hf]
      exact ha

theorem filesAt_eraseIdx (hi : files[i]? = some f) :
    filesAt (files.eraseIdx i) a + (if f.opened = a then 1 else 0) = filesAt files a := by
  unfold filesAt
  induction files generalizing i with
  | nil => cases hi
  | cons x l ih =>
    cases i with
    | zero =>
      cases hi
      simp [count_cons]
    | succ i =>
      have := ih (i := i) hi
      rw [eraseIdx_cons_succ, map_cons, map_cons, count_cons, count_cons]
      omega

theorem Counted.openFails (h : Counted num files) : Counted num (files.eraseIdx i) where
  num b := (((eraseIdx_sublist ..).map _).count_le b).trans (h.num b)
  modes f hf := h.modes f ((eraseIdx_sublist ..).subset hf)

/-- `fifo_close` finds the counter that the open of the file had incremented. -/
theorem Counted.closeFifo {num' : Access → Nat} (h : Counted num files) (hi : files[i]? = some f)
    (hn : closeNum num f.flags = some num') : Counted num' (files.eraseIdx i) where
  num b := by
    rw [closeNum, h.modes f (mem_of_getElem? hi)] at hn
    cases hn
    have hle := h.num b
    have hco := filesAt_eraseIdx (a := b) hi
    dsimp only
    rw [update_apply]
    by_cases hb : b = f.opened
    · subst hb
      rw [if_pos rfl] at hco
      rw [if_pos rfl, decrement, if_neg (by omega)]
      omega
    · rw [if_neg (Ne.symm hb)] at hco
      rw [if_neg hb]
      omega
  modes g hg := h.modes g ((eraseIdx_sublist ..).subset hg)

theorem Counted.setfl (h : Counted num files) (hk : ∀ f ∈ files[i]?, accmode flags = accmode f.flags) :
    Counted num (files.modify i fun f => { f with flags := flags }) where
  num b := by
    have hop : (files.modify i fun f => { f with flags := flags }).map FifoFile.opened = files.map FifoFile.opened := by
      refine ext_getElem? fun j => ?_
      rw [getElem?_map, getElem?_map, getElem?_modify]
      cases files[j]? with
      | none => rfl
      | some f =>
        simp only [Option.map_eq_map, Option.map_some]
        split <;> rfl
    rw [filesAt, hop]
    exact h.num b
  modes g hg := by
    obtain ⟨j, hj⟩ := mem_iff_getElem?.mp hg
    rw [getElem?_modify] at hj
    obtain ⟨f, hf, rfl⟩ := Option.map_eq_some_iff.mp hj
    have hm := h.modes f (mem_of_getElem? hf)
    split
    · rename_i hij
      subst hij
      rw [← hm]
      simp only [accessOf, hk f hf]
    · exact hm

end

section
variable {kept : Prop} {s s' : Fifo} {t : Nat} {p : FifoPc}

theorem Inv.move (h : s.Inv kept) {c : Channel} {l : Option Nat} {k : Nat → Option (List UInt8 × Nat)}
    (hp : p.Sound kept c (k t)) (hpl : p.locked = true → l = some t) (hl : l = s.lock ∨ s.lock = none ∨ s.lock = some t)
    (hk : ∀ u, u ≠ t → k u = s.look u)
    (hc : c = s.chan ∨ s.lock = some t ∧ c.Stream PIPE_BUF ∧ s.chan.transfers ⊆ c.transfers) :
    Inv kept { s with pc := update s.pc t p, chan := c, lock := l, look := k } := by
  refine ⟨?_, holder_update h.holder hpl hl, h.counted, ?_⟩
  · rcases hc with rfl | ⟨-, hc, -⟩
    · exact h.stream
    · exact hc
  · intro u
    by_cases hut : u = t
    · subst hut
      simpa only [update_self] using hp
    · simp only [update_of_ne hut, hk u hut]
      rcases hc with rfl | ⟨hlo, -, htr⟩
      · exact h.threads u
      · exact (h.threads u).mono htr (Bool.eq_false_iff.mpr fun hlu => hut (Option.some.inj ((h.holder u hlu).symm.trans hlo)))

theorem Inv.goto (h : s.Inv kept) (hp : p.Sound kept s.chan (s.look t)) (hpl : p.locked = true → s.lock = some t) :
    (s.goto t p).Inv kept :=
  h.move hp hpl (.inl rfl) (fun _ _ => rfl) (.inl rfl)

theorem Inv.acquire (h : s.Inv kept) (hp : p.Sound kept s.chan (s.look t)) (hl : s.lock = none) :
    Inv kept { s.goto t p with lock := some t } :=
  h.move hp (fun _ => rfl) (.inr (.inl hl)) (fun _ _ => rfl) (.inl rfl)

theorem Inv.release (h : s.Inv kept) (hp : p.Sound kept s.chan (s.look t)) (hpl : p.locked = false)
    (hl : s.lock = some t) : Inv kept { s.goto t p with lock := none } := by
  refine h.move hp ?_ (.inr (.inr hl)) (fun _ _ => rfl) (.inl rfl)
  intro hpl'
  rw [hpl] at hpl'
  cases hpl'

theorem resume_inv (h : s.Inv kept) (hr : s.resume t = some s') : s'.Inv kept := by
  have hs := h.threads t
  have hh := h.holder t
  unfold resume at hr
  generalize hpc : s.pc t = p at hr hs hh
  cases p with
  | user r =>
    cases hr
  | readBlock | writeBlock =>
    dsimp only at hr
    split at hr
    · cases hr
      exact h.goto hs nofun
    · cases hr
  | readLock | writeLock =>
    dsimp only at hr
    split at hr
    · rename_i hl
      cases hr
      exact h.acquire hs hl
    · cases hr
  | readLocked count =>
    cases hr
    cases he : s.chan.buf.isEmpty with
    | true => exact h.goto ⟨hs, he⟩ fun _ => hh rfl
    | false => exact h.goto ⟨hs, he⟩ fun _ => hh rfl
  | readCopy count =>
    cases hr
    exact h.move (Channel.mem_transfers_read count) (fun _ => hh rfl) (.inl rfl) (fun _ _ => rfl)
      (.inr ⟨hh rfl, h.stream.read hs.2 hs.1, subset_append_left _ _⟩)
  | readEmpty count =>
    cases hr
    refine h.move ⟨hs.1, ?_⟩ (fun _ => hh rfl) (.inl rfl) (fun u hu => update_of_ne hu ..) (.inl rfl)
    intro hw hk
    have hw : s.num .writer = 0 := beq_iff_eq.mp hw
    have := (h.counted hk).num .writer
    rw [update_self, h.stream.valid.isEmpty_iff.mp hs.2, show filesAt s.files .writer = 0 by omega]
  | readUnlock count noWriter =>
    cases hr
    cases noWriter with
    | false => exact h.release hs.1 rfl (hh rfl)
    | true => exact h.release (hs.2 rfl) rfl (hh rfl)
  | writeLocked bytes =>
    cases hr
    split
    · exact h.goto hs fun _ => hh rfl
    · exact h.goto hs fun _ => hh rfl
  | writeTest bytes =>
    cases hr
    cases he : s.chan.buf.isFull with
    | true => exact h.goto hs fun _ => hh rfl
    | false => exact h.goto ⟨hs, he⟩ fun _ => hh rfl
  | writeCopy bytes =>
    cases hr
    exact h.move (Channel.mem_transfers_write bytes) (fun _ => hh rfl) (.inl rfl) (fun _ _ => rfl)
      (.inr ⟨hh rfl, h.stream.write hs.2 hs.1, subset_append_left _ _⟩)
  | writeUnlock bytes noReader =>
    cases hr
    cases noReader with
    | false => exact h.release hs rfl (hh rfl)
    | true => exact h.release trivial rfl (hh rfl)
  | done x =>
    cases hr
    exact h.release hs rfl (hh rfl)

theorem giveUp_inv {e : Errno} (h : s.Inv kept) (hr : s.giveUp t e = some s') : s'.Inv kept := by
  unfold giveUp at hr
  split at hr
  · cases hr
    exact h.goto trivial nofun
  · cases hr
    exact h.goto trivial nofun
  · cases hr

theorem step_inv {e : Event} (h : s.Inv kept) (hs : Step s e s') (hok : kept → s.KeepsMode e) : s'.Inv kept := by
  unfold Step exec at hs
  split at hs
  · split at hs
    · rename_i ha
      cases hs
      exact ⟨h.stream, h.holder, fun hk => (h.counted hk).openFifo ha, h.threads⟩
    · cases hs
      exact h
  · cases hs
    exact ⟨h.stream, h.holder, fun hk => (h.counted hk).openFails, h.threads⟩
  · cases hs
    exact ⟨h.stream, h.holder, fun hk => (h.counted hk).setfl (hok hk), h.threads⟩
  · split at hs
    · rename_i hi
      obtain ⟨num, hn, rfl⟩ := Option.map_eq_some_iff.mp hs
      exact ⟨h.stream, h.holder, fun hk => (h.counted hk).closeFifo hi hn, h.threads⟩
    · cases hs
  · split at hs
    · split at hs
      · rename_i hc
        cases hs
        exact h.move hc nofun (.inl rfl) (fun u hu => update_of_ne hu ..) (.inl rfl)
      · cases hs
    · cases hs
  · split at hs
    · split at hs
      · cases hs
      · rename_i hb
        cases hs
        exact h.goto hb nofun
    · cases hs
  · exact resume_inv h hs
  · exact giveUp_inv h hs

end

end Fifo

/-! ## The unix socket -/

inductive Side
  | connector
  | acceptor
  deriving DecidableEq

def Side.other : Side → Side
  | .connector => .acceptor
  | .acceptor => .connector

/-- Where a thread stands: outside, or inside `unix_socket_pread` or `unix_socket_pwrite` on a file of
side `f`. A finished transfer was made on the ring to side `ring`. -/
inductive SocketPc
  | user (r : Result)
  | readBlock (f : Side) (count : Nat)
  | readLock (f : Side) (count : Nat)
  | readLocked (f : Side) (count : Nat)
  | readCopy (f : Side) (count : Nat)
  | readUnlock (f : Side) (count : Nat)
  | readOpen (f : Side) (count : Nat)
  | writeBlock (f : Side) (bytes : List UInt8)
  | writeOpen (f : Side) (bytes : List UInt8)
  | writeLock (f : Side) (bytes : List UInt8)
  | writeLocked (f : Side) (bytes : List UInt8)
  | writeCopy (f : Side) (bytes : List UInt8)
  | writeUnlock (f : Side) (bytes : List UInt8)
  | done (ring : Side) (x : Transfer)
  deriving DecidableEq

def SocketPc.locked : SocketPc → Bool
  | .readLocked _ _ | .readCopy _ _ | .readUnlock _ _ | .writeLocked _ _ | .writeCopy _ _ | .writeUnlock _ _
  | .done _ _ => true
  | _ => false

/-- `chan .connector` is `to_connector_buf`, `isOpen .connector` is `is_open_for_writing_to_connector`.
Files are named by their addresses; `connectorFile` stays when that file is freed. -/
structure UnixSocket where
  connectorFile : Nat
  connectorFreed : Bool
  acceptorFile : Option Nat
  acceptorFreed : Bool
  chan : Side → Channel
  isOpen : Side → Bool
  isConnected : Bool
  lock : Option Nat
  pc : Nat → SocketPc

inductive ShutHow
  | SHUT_RD | SHUT_WR | SHUT_RDWR
  deriving DecidableEq

namespace UnixSocket

/-- The socket after `connect` through the file. -/
def create (file : Nat) (ring : Side → Nat → UInt8) : UnixSocket :=
  { connectorFile := file, connectorFreed := false, acceptorFile := none, acceptorFreed := false,
    chan := fun f => Channel.create PAGE_SIZE (ring f), isOpen := fun _ => true, isConnected := false, lock := none,
    pc := fun _ => .user .none }

def sideOf (connectorFile file : Nat) : Side := if file = connectorFile then .connector else .acceptor

/-- `is_connector`. -/
def side (s : UnixSocket) (file : Nat) : Side := sideOf s.connectorFile file

def hasFile (s : UnixSocket) (file : Nat) : Bool :=
  s.acceptorFile = some file && !s.acceptorFreed || file = s.connectorFile && !s.connectorFreed

def goto (s : UnixSocket) (t : Nat) (p : SocketPc) : UnixSocket := { s with pc := update s.pc t p }

def setChan (s : UnixSocket) (f : Side) (c : Channel) : UnixSocket := { s with chan := update s.chan f c }

@[simp] theorem setChan_self (s : UnixSocket) (f : Side) (c : Channel) : (s.setChan f c).chan f = c :=
  update_self ..

theorem setChan_of_ne (s : UnixSocket) {f g : Side} (h : g ≠ f) (c : Channel) : (s.setChan f c).chan g = s.chan g :=
  update_of_ne h ..

def bufToRead (f : Side) : Side := f

def bufToWrite (f : Side) : Side := f.other

def isReadable (s : UnixSocket) (f : Side) : Bool := !s.isOpen f || !(s.chan (bufToRead f)).buf.isEmpty

def isWritable (s : UnixSocket) : Side → Bool
  | .connector => s.isOpen .acceptor && !(s.chan (bufToWrite .connector)).buf.isFull
  | .acceptor => !s.isOpen .connector || !(s.chan (bufToWrite .acceptor)).buf.isFull

def resume (s : UnixSocket) (t : Nat) : Option UnixSocket :=
  match s.pc t with
  | .user _ => none
  | .readBlock f count => if s.isReadable f then some (s.goto t (.readLock f count)) else none
  | .readLock f count => if s.lock = none then some { s.goto t (.readLocked f count) with lock := some t } else none
  | .readLocked f count =>
    some (s.goto t (if (s.chan (bufToRead f)).buf.isEmpty then .readUnlock f count else .readCopy f count))
  | .readCopy f count =>
    some ((s.setChan (bufToRead f) ((s.chan (bufToRead f)).read count).2).goto t
      (.done (bufToRead f) (.read count ((s.chan (bufToRead f)).read count).1)))
  | .readUnlock f count => some { s.goto t (.readOpen f count) with lock := none }
  | .readOpen f count => some (s.goto t (if s.isOpen f then .readBlock f count else .user .eof))
  | .writeBlock f bytes => if s.isWritable f then some (s.goto t (.writeOpen f bytes)) else none
  | .writeOpen f bytes =>
    some (s.goto t (if f = .acceptor ∧ s.isOpen .connector = false then .user (.error .EPIPE) else .writeLock f bytes))
  | .writeLock f bytes => if s.lock = none then some { s.goto t (.writeLocked f bytes) with lock := some t } else none
  | .writeLocked f bytes =>
    some (s.goto t (if (s.chan (bufToWrite f)).buf.isFull then .writeUnlock f bytes else .writeCopy f bytes))
  | .writeCopy f bytes =>
    some ((s.setChan (bufToWrite f) ((s.chan (bufToWrite f)).write bytes).2).goto t
      (.done (bufToWrite f) (.write bytes ((s.chan (bufToWrite f)).write bytes).1)))
  | .writeUnlock f bytes => some { s.goto t (.writeBlock f bytes) with lock := none }
  | .done _ x => some { s.goto t (.user (.transfer x)) with lock := none }

def giveUp (s : UnixSocket) (t : Nat) (e : Errno) : Option UnixSocket :=
  match s.pc t with
  | .readBlock _ _ => some (s.goto t (.user (.error e)))
  | .writeBlock _ _ => some (s.goto t (.user (.error e)))
  | _ => none

def shutdown (s : UnixSocket) (f : Side) (how : ShutHow) : UnixSocket :=
  let shutRead := how = .SHUT_RD ∨ how = .SHUT_RDWR
  let shutWrite := how = .SHUT_WR ∨ how = .SHUT_RDWR
  { s with isOpen := fun g => if (g = f ∧ shutRead) ∨ (g = f.other ∧ shutWrite) then false else s.isOpen g }

inductive Event
  | accept
  | acceptFile (file : Nat)
  | shutdown (file : Nat) (how : ShutHow)
  | close (file : Nat)
  | read (t file count : Nat)
  | write (t file : Nat) (bytes : List UInt8)
  | resume (t : Nat)
  | giveUp (t : Nat) (e : Errno)

/-- `accept` makes the connection and then allocates its file, which may get the address of the connecting
file if that one has been freed. -/
def exec (s : UnixSocket) : Event → Option UnixSocket
  | .accept => some { s with isConnected := true }
  | .acceptFile file =>
    if s.isConnected ∧ s.acceptorFile = none ∧ s.hasFile file = false then some { s with acceptorFile := some file }
    else none
  | .shutdown file how => if s.hasFile file then some (s.shutdown (s.side file) how) else none
  | .close file =>
    if s.hasFile file then
      some { s with
        isOpen := fun _ => false
        connectorFreed := s.connectorFreed || file = s.connectorFile
        acceptorFreed := s.acceptorFreed || s.acceptorFile = some file }
    else none
  | .read t file count =>
    match s.pc t with
    | .user _ =>
      if 0 < count ∧ s.hasFile file then
        some (s.goto t (if s.isConnected then .readBlock (s.side file) count else .user (.error .EINVAL)))
      else none
    | _ => none
  | .write t file bytes =>
    match s.pc t with
    | .user _ =>
      if bytes ≠ [] ∧ s.hasFile file then
        some (s.goto t (if s.isConnected then .writeBlock (s.side file) bytes else .user (.error .ENOTCONN)))
      else none
    | _ => none
  | .resume t => s.resume t
  | .giveUp t e => s.giveUp t e

def Step (s : UnixSocket) (e : Event) (s' : UnixSocket) : Prop := s.exec e = some s'

end UnixSocket

/-! ## What holds in every state of a socket -/

def SocketPc.Sound (c : Side → Channel) : SocketPc → Prop
  | .user (.transfer x) => ∃ f, x ∈ (c f).transfers
  | .user _ => True
  | .done f x => x ∈ (c f).transfers
  | .readBlock _ count | .readLock _ count | .readLocked _ count | .readUnlock _ count | .readOpen _ count => 0 < count
  | .readCopy f count => 0 < count ∧ (c (UnixSocket.bufToRead f)).buf.isEmpty = false
  | .writeBlock _ bytes | .writeOpen _ bytes | .writeLock _ bytes | .writeLocked _ bytes | .writeUnlock _ bytes =>
    bytes ≠ []
  | .writeCopy f bytes => bytes ≠ [] ∧ (c (UnixSocket.bufToWrite f)).buf.isFull = false

theorem SocketPc.Sound.mono {p : SocketPc} {c c' : Side → Channel} (h : p.Sound c)
    (ht : ∀ f, (c f).transfers ⊆ (c' f).transfers) (hp : p.locked = false) : p.Sound c' := by
  cases p with
  | user r =>
    cases r with
    | transfer x =>
      obtain ⟨f, hf⟩ := h
      exact ⟨f, ht f hf⟩
    | _ => exact h
  | readBlock _ _ | readLock _ _ | readOpen _ _ | writeBlock _ _ | writeOpen _ _ | writeLock _ _ => exact h
  | _ => cases hp

namespace UnixSocket

structure Inv (s : UnixSocket) : Prop where
  stream : ∀ f, (s.chan f).Stream PAGE_SIZE
  holder : ∀ t, (s.pc t).locked = true → s.lock = some t
  threads : ∀ t, (s.pc t).Sound s.chan

theorem create_inv (file : Nat) (ring : Side → Nat → UInt8) : (create file ring).Inv where
  stream f := Channel.create_stream (by decide) (ring f)
  holder := by
    intro t h
    cases h
  threads := fun _ => trivial

section
variable {s s' : UnixSocket} {t : Nat} {p : SocketPc}

theorem Inv.move (h : s.Inv) {c : Side → Channel} {l : Option Nat} (hp : p.Sound c)
    (hpl : p.locked = true → l = some t) (hl : l = s.lock ∨ s.lock = none ∨ s.lock = some t)
    (hc : c = s.chan ∨
      s.lock = some t ∧ (∀ f, (c f).Stream PAGE_SIZE) ∧ ∀ f, (s.chan f).transfers ⊆ (c f).transfers) :
    Inv { s with pc := update s.pc t p, chan := c, lock := l } := by
  refine ⟨?_, holder_update h.holder hpl hl, ?_⟩
  · rcases hc with rfl | ⟨-, hc, -⟩
    · exact h.stream
    · exact hc
  · intro u
    by_cases hut : u = t
    · subst hut
      simpa only [update_self] using hp
    · simp only [update_of_ne hut]
      rcases hc with rfl | ⟨hlo, -, htr⟩
      · exact h.threads u
      · exact (h.threads u).mono htr (Bool.eq_false_iff.mpr fun hlu => hut (Option.some.inj ((h.holder u hlu).symm.trans hlo)))

theorem Inv.goto (h : s.Inv) (hp : p.Sound s.chan) (hpl : p.locked = true → s.lock = some t) : (s.goto t p).Inv :=
  h.move hp hpl (.inl rfl) (.inl rfl)

theorem Inv.acquire (h : s.Inv) (hp : p.Sound s.chan) (hl : s.lock = none) : Inv { s.goto t p with lock := some t } :=
  h.move hp (fun _ => rfl) (.inr (.inl hl)) (.inl rfl)

theorem Inv.release (h : s.Inv) (hp : p.Sound s.chan) (hpl : p.locked = false) (hl : s.lock = some t) :
    Inv { s.goto t p with lock := none } := by
  refine h.move hp ?_ (.inr (.inr hl)) (.inl rfl)
  intro hpl'
  rw [hpl] at hpl'
  cases hpl'

theorem Inv.copy (h : s.Inv) (hl : s.lock = some t) {f : Side} {c : Channel} {x : Transfer} (hc : c.Stream PAGE_SIZE)
    (ht : (s.chan f).transfers ⊆ c.transfers) (hx : x ∈ c.transfers) : ((s.setChan f c).goto t (.done f x)).Inv := by
  refine h.move ?_ (fun _ => hl) (.inl rfl) (.inr ⟨hl, ?_, ?_⟩)
  · show x ∈ ((s.setChan f c).chan f).transfers
    rwa [setChan_self]
  · intro g
    by_cases hg : g = f
    · subst hg
      rwa [setChan_self]
    · rw [setChan_of_ne s hg]
      exact h.stream g
  · intro g
    by_cases hg : g = f
    · subst hg
      rwa [setChan_self]
    · rw [setChan_of_ne s hg]
      exact List.Subset.refl _

theorem resume_inv (h : s.Inv) (hr : s.resume t = some s') : s'.Inv := by
  have hs := h.threads t
  have hh := h.holder t
  unfold resume at hr
  generalize hpc : s.pc t = p at hr hs hh
  cases p with
  | user r =>
    cases hr
  | readBlock | writeBlock =>
    dsimp only at hr
    split at hr
    · cases hr
      exact h.goto hs nofun
    · cases hr
  | readLock | writeLock =>
    dsimp only at hr
    split at hr
    · rename_i hl
      cases hr
      exact h.acquire hs hl
    · cases hr
  | readLocked f count =>
    cases hr
    cases he : (s.chan (bufToRead f)).buf.isEmpty with
    | true => exact h.goto hs fun _ => hh rfl
    | false => exact h.goto ⟨hs, he⟩ fun _ => hh rfl
  | readCopy f count =>
    cases hr
    exact h.copy (hh rfl) ((h.stream _).read hs.2 hs.1) (subset_append_left _ _)
      (Channel.mem_transfers_read count)
  | readUnlock | writeUnlock =>
    cases hr
    exact h.release hs rfl (hh rfl)
  | readOpen f count =>
    cases hr
    split
    · exact h.goto hs nofun
    · exact h.goto trivial nofun
  | writeOpen f bytes =>
    cases hr
    split
    · exact h.goto trivial nofun
    · exact h.goto hs nofun
  | writeLocked f bytes =>
    cases hr
    cases he : (s.chan (bufToWrite f)).buf.isFull with
    | true => exact h.goto hs fun _ => hh rfl
    | false => exact h.goto ⟨hs, he⟩ fun _ => hh rfl
  | writeCopy f bytes =>
    cases hr
    exact h.copy (hh rfl) ((h.stream _).write hs.2 hs.1) (subset_append_left _ _)
      (Channel.mem_transfers_write bytes)
  | done f x =>
    cases hr
    exact h.release ⟨f, hs⟩ rfl (hh rfl)

theorem giveUp_inv {e : Errno} (h : s.Inv) (hr : s.giveUp t e = some s') : s'.Inv := by
  unfold giveUp at hr
  split at hr
  · cases hr
    exact h.goto trivial nofun
  · cases hr
    exact h.goto trivial nofun
  · cases hr

theorem step_inv {e : Event} (h : s.Inv) (hs : Step s e s') : s'.Inv := by
  unfold Step exec at hs
  split at hs
  · cases hs
    exact ⟨h.stream, h.holder, h.threads⟩
  · split at hs
    · cases hs
      exact ⟨h.stream, h.holder, h.threads⟩
    · cases hs
  · split at hs
    · cases hs
      exact ⟨h.stream, h.holder, h.threads⟩
    · cases hs
  · split at hs
    · cases hs
      exact ⟨h.stream, h.holder, h.threads⟩
    · cases hs
  · split at hs
    · split at hs
      · rename_i hc
        cases hs
        split
        · exact h.goto hc.1 nofun
        · exact h.goto trivial nofun
      · cases hs
    · cases hs
  · split at hs
    · split at hs
      · rename_i hb
        cases hs
        split
        · exact h.goto hb.1 nofun
        · exact h.goto trivial nofun
      · cases hs
    · cases hs
  · exact resume_inv h hs
  · exact giveUp_inv h hs

end

end UnixSocket

/-! ## Lossless streams -/

end Yagura
