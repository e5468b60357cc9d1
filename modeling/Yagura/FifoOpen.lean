import Yagura.Fds

/-!
# Readers and writers of a FIFO

`fifo_open`, `fifo_close` and `fifo_poll` with what reaches them: `inode_open`
and the rest of `open`, `file_close`, the calls that share an open file, and
`fcntl(F_SETFL)`. An `open` may sleep in `file_block`; it goes on in a later
step, or a signal ends it. Steps are taken one at a time, in any order.
-/

namespace Yagura.FifoOpen

open Function Nat Prog

/-! ## The model -/

inductive Panic
  | unreachable
  | assertion
  deriving DecidableEq

inductive Access
  | reader | writer
  deriving DecidableEq

def Access.other : Access → Access
  | .reader => .writer
  | .writer => .reader

/-- The `switch (file->flags & O_ACCMODE)` of `fifo.c`; `none` is its `default`. -/
def accessOf (flags : Nat) : Option Access :=
  if accmode flags = O_RDONLY then some .reader
  else if accmode flags = O_WRONLY then some .writer
  else none

def decrement (n : Nat) : Nat := if n = 0 then 2 ^ 32 - 1 else n - 1

/-- `fifo_close` on `num_readers` and `num_writers`; `none` is its `UNREACHABLE()`. -/
def closeNum (num : Access → Nat) (flags : Nat) : Option (Access → Nat) :=
  (accessOf flags).map fun a => update num a (decrement (num a))

def nonblocks (flags : Nat) : Bool := flags &&& O_NONBLOCK != 0

inductive Phase
  | opening | live | gone
  deriving DecidableEq

/-- `opened` is the counter that the file's own open has incremented. -/
structure OpenFile where
  flags : Nat
  refCount : Nat
  opened : Access
  phase : Phase
  deriving DecidableEq

/-- `num` is `num_readers` and `num_writers`; `dev` is zero for a pipe. -/
structure Fifo where
  dev : Nat
  num : Access → Nat
  file : Nat → OpenFile
  numFiles : Nat

namespace Fifo

abbrev Call := Prog Fifo Panic

def setFile (s : Fifo) (f : Nat) (a : OpenFile) : Fifo := { s with file := update s.file f a }

def setNum (s : Fifo) (a : Access) (n : Nat) : Fifo := { s with num := update s.num a n }

def setPhase (s : Fifo) (f : Nat) (p : Phase) : Fifo := s.setFile f { s.file f with phase := p }

def unblockOpen (f : Nat) : Call Bool := do
  let s ← get
  match accessOf (s.file f).flags with
  | some a => pure (decide (0 < s.num a.other))
  | none => trap .unreachable

inductive Progress
  | returns (rc : Except Errno Unit)
  | sleeps
  deriving DecidableEq

def fileBlock (f : Nat) (unblock : Call Bool) : Call Progress := do
  let s ← get
  let free ← unblock
  if nonblocks (s.file f).flags && !free then pure (.returns (.error .EAGAIN))
  else if free then pure (.returns (.ok ()))
  else pure .sleeps

open Errno in
def blocked (flags : Nat) : Except Errno Unit → Except Errno Unit
  | .error .EAGAIN => .error (if accmode flags = O_WRONLY then ENXIO else EAGAIN)
  | rc => rc

def blockOpen (f flags : Nat) : Call Progress := do
  match ← fileBlock f (unblockOpen f) with
  | .returns rc => pure (.returns (blocked flags rc))
  | .sleeps => pure .sleeps

def count (a : Access) (f : Nat) (s : Fifo) : Fifo :=
  (s.setNum a (s.num a + 1)).setFile f { s.file f with opened := a }

def fifoOpen (f : Nat) : Call Progress := do
  let s ← get
  match accessOf (s.file f).flags with
  | none => pure (.returns (.error .EINVAL))
  | some a =>
    modify (count a f)
    if s.dev = 0 then pure (.returns (.ok ())) else blockOpen f (s.file f).flags

def fifoClose (f : Nat) : Call Unit := do
  let s ← get
  match closeNum s.num (s.file f).flags with
  | some num => modify fun s => { s with num := num }
  | none => trap .unreachable

def fifoPoll (f : Nat) : Call Unit := do
  let s ← get
  match accessOf (s.file f).flags with
  | some _ => pure ()
  | none => trap .unreachable

def fileClose (f : Nat) : Call Unit := do
  let s ← get
  ensure (0 < (s.file f).refCount) .assertion
  modify (·.setFile f { s.file f with refCount := (s.file f).refCount - 1 })
  if (s.file f).refCount - 1 > 0 then pure ()
  else do
    fifoClose f
    modify (·.setPhase f .gone)

def install (f : Nat) (slot : Bool) : Call (Except Errno Unit) := do
  modify (·.setPhase f .live)
  if slot then pure (.ok ())
  else do
    fileClose f
    pure (.error .EMFILE)

/-- Where `inode_open` stands after `fops->open`. FIFOs have no `truncate`. -/
def opened (f : Nat) (slot : Bool) : Progress → Call Progress
  | .sleeps => pure .sleeps
  | .returns (.error e) => do
    modify (·.setPhase f .gone)
    pure (.returns (.error e))
  | .returns (.ok ()) => do
    let rc ← install f slot
    pure (.returns rc)

def newFile (flags : Nat) : Call Nat := fun s =>
  .ok (s.numFiles, { s.setFile s.numFiles ⟨flags, 1, .reader, .opening⟩ with numFiles := s.numFiles + 1 })

def inodeOpen (flags : Nat) (memory slot : Bool) : Call Progress :=
  if accmode flags = 3 then pure (.returns (.error .EINVAL))
  else if memory = false then pure (.returns (.error .ENOMEM))
  else do
    let f ← newFile flags
    let p ← fifoOpen f
    opened f slot p

/-- `open`, or one end in `pipe`; a sleeping open woken up, or interrupted by a signal; a further
reference (`dup`, `dup2`, `F_DUPFD`, `fork`); one less (`close`, `dup2`, `exit`). -/
inductive Event
  | open (flags : Nat) (memory slot : Bool)
  | wake (f : Nat) (slot : Bool)
  | interrupt (f : Nat)
  | share (f : Nat)
  | close (f : Nat)
  | setfl (f arg : Nat)
  | poll (f : Nat)

def exec : Event → Call Progress
  | .open flags memory slot => inodeOpen flags memory slot
  | .wake f slot => opened f slot (.returns (.ok ()))
  | .interrupt f => opened f false (.returns (.error .EINTR))
  | .share f => do
    modify fun s => s.setFile f { s.file f with refCount := (s.file f).refCount + 1 }
    pure (.returns (.ok ()))
  | .close f => do
    fileClose f
    pure (.returns (.ok ()))
  | .setfl f arg => do
    modify fun s => s.setFile f { s.file f with flags := arg }
    pure (.returns (.ok ()))
  | .poll f => do
    fifoPoll f
    pure (.returns (.ok ()))

def meets (s : Fifo) (flags : Nat) : Bool :=
  match accessOf flags with
  | some a => decide (0 < s.num a.other)
  | none => false

def Enabled (s : Fifo) : Event → Prop
  | .open _ _ _ => True
  | .wake f _ => f < s.numFiles ∧ (s.file f).phase = .opening ∧ s.meets (s.file f).flags = true
  | .interrupt f => f < s.numFiles ∧ (s.file f).phase = .opening
  | .share f | .close f | .setfl f _ | .poll f => f < s.numFiles ∧ (s.file f).phase = .live

def Step (s : Fifo) (e : Event) (t : Fifo) : Prop := s.Enabled e ∧ ∃ p, exec e s = .ok (p, t)

/-- No open fails once it has counted itself, and `F_SETFL` keeps the access mode. -/
def Kept (s : Fifo) : Event → Prop
  | .open flags memory _ => memory = true → s.dev ≠ 0 → nonblocks flags = true → accessOf flags ≠ none →
      s.meets flags = true
  | .interrupt _ => False
  | .setfl f arg => accmode arg = accmode (s.file f).flags
  | .wake _ _ | .share _ | .close _ | .poll _ => True

instance (s : Fifo) (e : Event) : Decidable (s.Enabled e) := by
  cases e <;> unfold Enabled <;> infer_instance

instance (s : Fifo) (e : Event) : Decidable (s.Kept e) := by
  cases e <;> unfold Kept <;> infer_instance

def create (dev : Nat) : Fifo := ⟨dev, fun _ => 0, fun _ => ⟨0, 0, .reader, .gone⟩, 0⟩

/-! ## What is counted -/

def live (s : Fifo) (a : Access) : Nat :=
  tally s.numFiles s.file fun x => if x.phase = .live ∧ x.opened = a then 1 else 0

def opening (s : Fifo) (a : Access) : Nat :=
  tally s.numFiles s.file fun x => if x.phase = .opening ∧ x.opened = a then 1 else 0

def Exact (s : Fifo) : Prop := ∀ a, s.num a = s.live a + s.opening a

def weight (a : Access) (x : OpenFile) : Nat := if x.phase ≠ .gone ∧ x.opened = a then 1 else 0

structure FileSound (x : OpenFile) : Prop where
  access : accessOf x.flags = some x.opened
  refs : 0 < x.refCount
  opening : x.phase = .opening → x.refCount = 1

structure Inv (s : Fifo) : Prop where
  num : ∀ a, s.num a = tally s.numFiles s.file (weight a)
  sound : ∀ f < s.numFiles, (s.file f).phase ≠ .gone → FileSound (s.file f)

theorem live_add_opening (s : Fifo) (a : Access) : s.live a + s.opening a = tally s.numFiles s.file (weight a) := by
  unfold live opening
  rw [← tally_add]
  refine congrArg _ (funext fun x => ?_)
  unfold weight
  cases x.phase <;> simp

theorem Inv.exact {s : Fifo} (h : s.Inv) : s.Exact := fun a => (h.num a).trans (s.live_add_opening a).symm

theorem create_inv (dev : Nat) : (create dev).Inv := ⟨fun _ => rfl, nofun⟩

/-! ## Updates -/

section
variable {s : Fifo} {f n : Nat} {x : OpenFile} {a b : Access}

@[simp] theorem setNum_self : (s.setNum a n).num a = n := update_self _ _ _

theorem setNum_other (h : b ≠ a) : (s.setNum a n).num b = s.num b := update_of_ne h _ _

@[simp] theorem setFile_num : (s.setFile f x).num = s.num := rfl

theorem decrement_pos (h : 0 < n) : decrement n = n - 1 := if_neg (ne_of_gt h)

@[simp] theorem setFile_self : (s.setFile f x).file f = x := update_self _ _ _

theorem setFile_other {g : Nat} (h : g ≠ f) : (s.setFile f x).file g = s.file g := update_of_ne h _ _

theorem Inv.setFile (h : s.Inv) (hf : f < s.numFiles) (hx : x.phase ≠ .gone → FileSound x)
    (hw : ∀ a, weight a x = weight a (s.file f)) : (s.setFile f x).Inv := by
  refine ⟨fun a => ?_, fun g hg => ?_⟩
  · have := tally_update (g := s.file) (weight a) hf x
    rw [hw a] at this
    have hnum := h.num a
    change s.num a = tally s.numFiles (update s.file f x) (weight a)
    omega
  · by_cases hgf : g = f
    · subst hgf
      rwa [setFile_self]
    · rw [setFile_other hgf]
      exact h.sound g hg

theorem Inv.drop (h : s.Inv) (hf : f < s.numFiles) (ho : (s.file f).phase ≠ .gone) (hx : x.phase = .gone) :
    ((s.setFile f x).setNum (s.file f).opened (s.num (s.file f).opened - 1)).Inv := by
  have hgo : ∀ b, weight b x = 0 := fun b => by simp [weight, hx]
  refine ⟨fun b => ?_, fun g hg => ?_⟩
  · have hnum := h.num b
    have hta := tally_update (g := s.file) (weight b) hf x
    rw [hgo b] at hta
    change _ = tally s.numFiles (update s.file f x) (weight b)
    by_cases hb : b = (s.file f).opened
    · subst hb
      have : weight (s.file f).opened (s.file f) = 1 := if_pos ⟨ho, rfl⟩
      rw [setNum_self]
      omega
    · have : weight b (s.file f) = 0 := if_neg fun hc => hb hc.2.symm
      rw [setNum_other hb]
      change s.num b = _
      omega
  · change ((s.setFile f x).file g).phase ≠ .gone → FileSound ((s.setFile f x).file g)
    by_cases hgf : g = f
    · subst hgf
      rw [setFile_self]
      exact fun hc => absurd hx hc
    · rw [setFile_other hgf]
      exact h.sound g hg

theorem Inv.num_pos (h : s.Inv) (hf : f < s.numFiles) (ho : (s.file f).phase ≠ .gone) :
    0 < s.num (s.file f).opened := by
  have hle := le_tally (g := s.file) (weight (s.file f).opened) hf
  have : weight (s.file f).opened (s.file f) = 1 := if_pos ⟨ho, rfl⟩
  rw [h.num]
  omega

def addFile (s : Fifo) (x : OpenFile) : Fifo := { s.setFile s.numFiles x with numFiles := s.numFiles + 1 }

@[simp] theorem addFile_file : (s.addFile x).file s.numFiles = x := setFile_self

theorem tally_addFile (w : OpenFile → Nat) :
    tally (s.addFile x).numFiles (s.addFile x).file w = tally s.numFiles s.file w + w x := by
  have hre := tally_update_ge (g := s.file) w (le_refl s.numFiles) x
  change tally (s.numFiles + 1) (update s.file s.numFiles x) w = _
  rw [tally_succ, hre, update_self]

theorem addFile_sound (h : s.Inv) (hx : x.phase ≠ .gone → FileSound x) :
    ∀ g < (s.addFile x).numFiles, ((s.addFile x).file g).phase ≠ .gone → FileSound ((s.addFile x).file g) := by
  intro g hg
  by_cases hgn : g = s.numFiles
  · subst hgn
    rwa [addFile_file]
  · have hfi : (s.addFile x).file g = s.file g := setFile_other hgn
    have hlt : g < s.numFiles + 1 := hg
    rw [hfi]
    exact h.sound g (by omega)

theorem Inv.addGone (h : s.Inv) (hx : x.phase = .gone) : (s.addFile x).Inv where
  num a := by
    rw [tally_addFile, show weight a x = 0 by simp [weight, hx]]
    exact h.num a
  sound := addFile_sound h fun hc => absurd hx hc

theorem Inv.addCounted (h : s.Inv) (hx : FileSound x) (ho : x.phase ≠ .gone) :
    ((s.addFile x).setNum x.opened (s.num x.opened + 1)).Inv where
  num a := by
    change _ = tally (s.addFile x).numFiles (s.addFile x).file (weight a)
    rw [tally_addFile]
    by_cases ha : a = x.opened
    · subst ha
      rw [setNum_self, show weight x.opened x = 1 from if_pos ⟨ho, rfl⟩, h.num]
    · rw [setNum_other ha, show weight a x = 0 from if_neg fun hc => ha hc.2.symm]
      exact h.num a
  sound := addFile_sound h fun _ => hx

end

/-! ## Closing and installing -/

section
variable {s : Fifo} {f : Nat}

theorem fifoClose_run {a : Access} (h : accessOf (s.file f).flags = some a) :
    fifoClose f s = .ok ((), s.setNum a (decrement (s.num a))) := by
  unfold fifoClose
  rw [get_bind, closeNum, h]
  exact modify_run _

theorem fileClose_yields (h : s.Inv) (hf : f < s.numFiles) (ho : (s.file f).phase ≠ .gone) :
    Yields (fileClose f) s fun _ t => t.Inv ∧ t.numFiles = s.numFiles ∧
      ∀ a, t.num a + (if (s.file f).refCount = 1 ∧ (s.file f).opened = a then 1 else 0) = s.num a := by
  have hx := h.sound f hf ho
  refine .get ?_
  rw [Yields, ensure_bind, if_pos hx.refs, modify_bind]
  by_cases hla : (s.file f).refCount = 1
  · -- the last reference: `fifo_close` goes by the flags, which say how the file was opened
    have hpos := h.num_pos hf ho
    rw [if_neg (by omega), bind_run (fifoClose_run (a := (s.file f).opened) (by rw [setFile_self]; exact hx.access)),
      modify_run]
    refine ⟨(), _, rfl, ?_, rfl, fun a => ?_⟩
    · have hd := h.drop (x := { s.file f with refCount := (s.file f).refCount - 1, phase := .gone }) hf ho rfl
      convert hd using 1
      rw [setFile_num, decrement_pos hpos]
      simp only [setPhase, setFile, setNum, update_self, update_idem]
    · change (setNum _ _ _).num a + _ = _
      by_cases ha : a = (s.file f).opened
      · subst ha
        rw [setNum_self, if_pos ⟨hla, rfl⟩, setFile_num, decrement_pos hpos]
        omega
      · rw [setNum_other ha, if_neg fun hc => ha hc.2.symm]
        rfl
  · have := hx.refs
    rw [if_pos (by omega), pure_run]
    refine ⟨(), _, rfl, ?_, rfl, fun a => by rw [if_neg fun hc => hla hc.1]; rfl⟩
    refine h.setFile hf (fun _ => ⟨hx.access, by dsimp only; omega, fun hp => absurd (hx.opening hp) hla⟩) fun _ => rfl

theorem install_yields (h : s.Inv) (hf : f < s.numFiles) (ho : (s.file f).phase = .opening) (slot : Bool) :
    Yields (install f slot) s fun r t => t.Inv ∧
      ∀ e, r = .error e → ∀ a, t.num a + (if (s.file f).opened = a then 1 else 0) = s.num a := by
  have hgo : (s.file f).phase ≠ .gone := by simp [ho]
  have hx := h.sound f hf hgo
  have hli : (s.setPhase f .live).Inv :=
    h.setFile hf (fun _ => ⟨hx.access, hx.refs, nofun⟩) fun a => by simp [weight, ho]
  have hse : (s.setPhase f .live).file f = { s.file f with phase := .live } := setFile_self
  refine .modify_bind ?_
  cases slot with
  | true => exact .pure ⟨hli, nofun⟩
  | false =>
    refine .bind (fileClose_yields hli hf (by rw [hse]; nofun)) fun _ t ⟨ht, _, hnum⟩ => .pure ⟨ht, fun _ _ a => ?_⟩
    have := hnum a
    rw [hse, setPhase, setFile_num] at this
    simpa [hx.opening ho] using this

theorem opened_error (slot : Bool) (e : Errno) :
    opened f slot (.returns (.error e)) s = .ok (.returns (.error e), s.setPhase f .gone) := by
  simp only [opened, modify_bind, pure_run]

theorem opened_yields (h : s.Inv) (hf : f < s.numFiles) (ho : (s.file f).phase = .opening) (slot : Bool) :
    Yields (opened f slot (.returns (.ok ()))) s fun p t => t.Inv ∧
      ∀ e, p = .returns (.error e) → ∀ a, t.num a + (if (s.file f).opened = a then 1 else 0) = s.num a := by
  refine .bind (install_yields h hf ho slot) fun r t ⟨ht, he⟩ => .pure ⟨ht, fun e hr => he e ?_⟩
  cases hr
  rfl

end

/-! ## Opening -/

section
variable {s : Fifo} {f : Nat}

theorem unblockOpen_run {a : Access} (h : accessOf (s.file f).flags = some a) :
    unblockOpen f s = .ok (decide (0 < s.num a.other), s) := by
  unfold unblockOpen
  rw [get_bind, h]
  exact pure_run _

theorem fileBlock_run {unblock : Call Bool} {free : Bool} (h : unblock s = .ok (free, s))
    (hn : nonblocks (s.file f).flags = true → free = true) :
    fileBlock f unblock s = .ok (if free then .returns (.ok ()) else .sleeps, s) := by
  unfold fileBlock
  rw [get_bind, bind_run h]
  cases free with
  | true => simp [pure_run]
  | false =>
    have : nonblocks (s.file f).flags = false := by
      cases hb : nonblocks (s.file f).flags with
      | false => rfl
      | true => cases hn hb
    simp [this, pure_run]

theorem blockOpen_run {a : Access} (h : accessOf (s.file f).flags = some a)
    (hn : nonblocks (s.file f).flags = true → 0 < s.num a.other) (flags : Nat) :
    blockOpen f flags s = .ok (if 0 < s.num a.other then .returns (.ok ()) else .sleeps, s) := by
  have hbl := fileBlock_run (unblockOpen_run h) fun hb => decide_eq_true (hn hb)
  unfold blockOpen
  rw [bind_run hbl]
  by_cases hfr : 0 < s.num a.other
  · simp [hfr, blocked, pure_run]
  · simp [hfr, pure_run]

theorem opened_cases (h : s.Inv) (hf : f < s.numFiles) (ho : (s.file f).phase = .opening) (slot free : Bool) :
    Yields (opened f slot (if free then .returns (.ok ()) else .sleeps)) s fun p t => t.Inv ∧
      ∀ e, p = .returns (.error e) → ∀ a, t.num a + (if (s.file f).opened = a then 1 else 0) = s.num a := by
  cases free with
  | true => exact opened_yields h hf ho slot
  | false => exact .pure ⟨h, nofun⟩

def counted (s : Fifo) (flags : Nat) (a : Access) : Fifo :=
  (s.addFile ⟨flags, 1, a, .opening⟩).setNum a (s.num a + 1)

theorem counted_num (flags : Nat) (a b : Access) : (s.counted flags a).num b = s.num b + if a = b then 1 else 0 := by
  by_cases hb : b = a
  · subst hb
    rw [if_pos rfl]
    exact setNum_self
  · rw [if_neg (Ne.symm hb)]
    exact setNum_other hb

theorem count_addFile (flags : Nat) (a : Access) :
    count a s.numFiles (s.addFile ⟨flags, 1, .reader, .opening⟩) = s.counted flags a := by
  simp only [count, addFile_file]
  simp only [counted, addFile, setNum, setFile, update_idem]

theorem fifoOpen_run {flags : Nat} {a : Access} (ha : accessOf flags = some a)
    (hn : s.dev ≠ 0 → nonblocks flags = true → 0 < s.num a.other) :
    ∃ free : Bool, fifoOpen s.numFiles (s.addFile ⟨flags, 1, .reader, .opening⟩) =
      .ok (if free then .returns (.ok ()) else .sleeps, s.counted flags a) := by
  have hfi : (s.counted flags a).file s.numFiles = ⟨flags, 1, a, .opening⟩ := addFile_file
  have hot : (s.counted flags a).num a.other = s.num a.other := setNum_other (by cases a <;> nofun)
  unfold fifoOpen
  rw [get_bind, addFile_file]
  rw [ha]
  dsimp only
  rw [modify_bind, count_addFile]
  by_cases hdev : s.dev = 0
  · exact ⟨true, by rw [if_pos (by exact hdev), pure_run]; rfl⟩
  · rw [if_neg (by exact hdev)]
    refine ⟨decide (0 < s.num a.other), ?_⟩
    rw [blockOpen_run (a := a) (by rw [hfi]; exact ha) (by rw [hfi, hot]; exact hn hdev), hot]
    simp only [decide_eq_true_eq]

theorem inodeOpen_yields (h : s.Inv) {flags : Nat} {memory : Bool} (slot : Bool)
    (hn : memory = true → s.dev ≠ 0 → nonblocks flags = true → accessOf flags ≠ none → s.meets flags = true) :
    Yields (inodeOpen flags memory slot) s fun p t => t.Inv ∧ ∀ e, p = .returns (.error e) → t.num = s.num := by
  have hsa : ∀ e, Yields (pure (.returns (.error e)) : Call Progress) s fun p t =>
      t.Inv ∧ ∀ e, p = .returns (.error e) → t.num = s.num := fun _ => .pure ⟨h, fun _ _ => rfl⟩
  unfold inodeOpen
  by_cases hacc : accmode flags = 3
  · rw [if_pos hacc]
    exact hsa _
  rw [if_neg hacc]
  cases memory with
  | false => exact hsa _
  | true =>
    rw [if_neg (by decide)]
    have hnew : newFile flags s = .ok (s.numFiles, s.addFile ⟨flags, 1, .reader, .opening⟩) := rfl
    rw [Yields, bind_run hnew]
    cases ha : accessOf flags with
    | none =>
      -- `O_RDWR` is refused before anything is counted
      have hop : fifoOpen s.numFiles (s.addFile ⟨flags, 1, .reader, .opening⟩) =
          .ok (.returns (.error .EINVAL), s.addFile ⟨flags, 1, .reader, .opening⟩) := by
        unfold fifoOpen
        rw [get_bind, addFile_file]
        rw [ha]
        exact pure_run _
      rw [bind_run hop, opened_error]
      refine ⟨_, _, rfl, ?_, fun _ _ => rfl⟩
      have := h.addGone (x := ⟨flags, 1, .reader, .gone⟩) rfl
      convert this using 1
      simp only [setPhase, addFile_file]
      simp only [addFile, setFile, update_idem]
    | some a =>
      obtain ⟨free, hop⟩ := fifoOpen_run ha fun hdev hb => by
        have := hn rfl hdev hb (by rw [ha]; nofun)
        simpa [meets, ha] using this
      have hinv : (s.counted flags a).Inv :=
        h.addCounted (x := ⟨flags, 1, a, .opening⟩) ⟨ha, one_pos, fun _ => rfl⟩ nofun
      have hfi : (s.counted flags a).file s.numFiles = ⟨flags, 1, a, .opening⟩ := addFile_file
      rw [bind_run hop]
      refine (opened_cases hinv (lt_succ_self _) (by rw [hfi]) slot free).mono fun p t ⟨ht, he⟩ =>
        ⟨ht, fun e hp => funext fun b => ?_⟩
      have := he e hp b
      rw [hfi, counted_num] at this
      exact add_right_cancel this

end

/-! ## Runs -/

/-- What is asked of one step: a failed open counts for nothing, and a last close drops the counter that
the file's own open had incremented. -/
structure Fair (s : Fifo) (e : Event) (p : Progress) (t : Fifo) : Prop where
  exact : t.Exact
  failed : ∀ flags memory slot er, e = .open flags memory slot → p = .returns (.error er) → t.num = s.num
  closed : ∀ f, e = .close f → ∀ a,
    t.num a + (if (s.file f).refCount = 1 ∧ (s.file f).opened = a then 1 else 0) = s.num a

theorem step_yields {s : Fifo} (h : s.Inv) {e : Event} (he : s.Enabled e) (hk : s.Kept e) :
    Yields (exec e) s fun p t => t.Inv ∧ Fair s e p t := by
  have hfa : ∀ {p t}, t.Inv → (∀ flags memory slot, e ≠ .open flags memory slot) → (∀ f, e ≠ .close f) →
      t.Inv ∧ Fair s e p t := fun ht ho hc => ⟨ht, ht.exact, fun _ _ _ _ he' => absurd he' (ho _ _ _),
    fun _ he' => absurd he' (hc _)⟩
  cases e with
  | «open» flags memory slot =>
    exact (inodeOpen_yields h slot hk).mono fun p t ⟨ht, hfi⟩ =>
      ⟨ht, ht.exact, fun _ _ _ er _ hp => hfi er hp, nofun⟩
  | wake f slot =>
    obtain ⟨hf, ho, -⟩ := he
    exact (opened_yields h hf ho slot).mono fun p t ⟨ht, _⟩ => hfa ht nofun nofun
  | interrupt f => exact absurd hk id
  | share f =>
    obtain ⟨hf, ho⟩ := he
    have hx := h.sound f hf (by rw [ho]; nofun)
    refine .modify_bind (.pure (hfa (h.setFile hf (fun _ => ⟨hx.access, succ_pos _, ?_⟩) fun _ => rfl) nofun nofun))
    exact fun hp => absurd (ho.symm.trans hp) nofun
  | close f =>
    obtain ⟨hf, ho⟩ := he
    refine .bind (fileClose_yields h hf (by rw [ho]; nofun)) fun _ t ⟨ht, _, hnum⟩ => .pure ⟨ht, ht.exact, nofun, ?_⟩
    intro g hg
    cases hg
    exact hnum
  | setfl f arg =>
    obtain ⟨hf, ho⟩ := he
    have hx := h.sound f hf (by rw [ho]; nofun)
    have hacc : accessOf arg = accessOf (s.file f).flags := by
      unfold accessOf
      rw [show accmode arg = accmode (s.file f).flags from hk]
    exact .modify_bind (.pure (hfa (h.setFile hf (fun _ => ⟨hacc.trans hx.access, hx.refs, hx.opening⟩) fun _ => rfl)
      nofun nofun))
  | poll f =>
    obtain ⟨hf, ho⟩ := he
    have hx := h.sound f hf (by rw [ho]; nofun)
    have hpo : fifoPoll f s = .ok ((), s) := by
      unfold fifoPoll
      rw [get_bind, hx.access]
      exact pure_run _
    exact .bind ⟨(), s, hpo, rfl⟩ fun _ t (ht : t = s) => .pure (hfa (ht ▸ h) nofun nofun)

theorem counters_exact (dev : Nat) {s : Fifo} (h : Run Step Kept (create dev) s) :
    s.Exact ∧ ∀ e, s.Enabled e → s.Kept e → ∃ p t, exec e s = .ok (p, t) ∧ Fair s e p t := by
  have hs : s.Inv := by
    refine h.invariant (create_inv dev) fun s e t hs ⟨he, p, hrun⟩ hk => ?_
    obtain ⟨p', t', hrun', ht, -⟩ := step_yields hs he hk
    cases hrun.symm.trans hrun'
    exact ht
  refine ⟨hs.exact, fun e he hk => ?_⟩
  obtain ⟨p, t, hrun, -, hfa⟩ := step_yields hs he hk
  exact ⟨p, t, hrun, hfa⟩

def next (s : Fifo) (e : Event) : Option Fifo := if s.Enabled e then (exec e).after s else none

theorem next_step {s t : Fifo} {e : Event} (h : s.next e = some t) : Step s e t := by
  unfold next at h
  split at h
  · rename_i he
    exact ⟨he, after_some h⟩
  · cases h

theorem counters_exact_rendezvous :
    ∃ s, Run Step Kept (create 1) s ∧ s.live .reader = 1 ∧ s.live .writer = 1 ∧ s.Exact := by
  obtain ⟨s, hr, hl, hw⟩ := exists_follow next Kept
    [.open O_RDONLY true true, .open O_WRONLY true true, .wake 0 true, .share 0, .close 0, .setfl 0 O_NONBLOCK] (create 1)
    (fun s => s.live .reader = 1 ∧ s.live .writer = 1) (by decide +kernel)
  have hr := hr.imp fun _ _ _ => next_step
  exact ⟨s, hr, hl, hw, (counters_exact 1 hr).1⟩

/-- A failed or interrupted open stays counted; a file with a rewritten mode takes the other counter down. -/
theorem counters_drift :
    (∃ s, Run Step (fun _ _ => True) (create 1) s ∧ ¬ s.Exact ∧ s.num .writer = 1 ∧ s.numFiles = 1 ∧
        (s.file 0).phase = .gone) ∧
    (∃ s, Run Step (fun _ _ => True) (create 1) s ∧ ¬ s.Exact ∧ s.num .reader = 1 ∧ s.numFiles = 1 ∧
        (s.file 0).phase = .gone) ∧
    (∃ s, Run Step (fun _ _ => True) (create 0) s ∧ ¬ s.Exact ∧ s.num .reader = 1 ∧ s.num .writer = 2 ^ 32 - 1) ∧
    ∃ s, Run Step (fun _ _ => True) (create 0) s ∧ s.Enabled (.close 0) ∧
      (exec (.close 0) s).toOption.isNone = true := by
  have bad : ∀ s : Fifo, (∃ a, s.num a ≠ s.live a + s.opening a) → ¬ s.Exact := fun s ⟨a, ha⟩ h => ha (h a)
  refine ⟨?_, ?_, ?_, ?_⟩
  · obtain ⟨s, hr, ha, hs⟩ := exists_follow next (fun _ _ => True) [.open (O_WRONLY + O_NONBLOCK) true true] (create 1)
      (fun s => s.num .writer ≠ s.live .writer + s.opening .writer ∧ s.num .writer = 1 ∧ s.numFiles = 1 ∧
        (s.file 0).phase = .gone) (by decide +kernel)
    exact ⟨s, hr.imp fun _ _ _ => next_step, bad s ⟨_, ha⟩, hs⟩
  · obtain ⟨s, hr, ha, hs⟩ := exists_follow next (fun _ _ => True) [.open O_RDONLY true true, .interrupt 0] (create 1)
      (fun s => s.num .reader ≠ s.live .reader + s.opening .reader ∧ s.num .reader = 1 ∧ s.numFiles = 1 ∧
        (s.file 0).phase = .gone) (by decide +kernel)
    exact ⟨s, hr.imp fun _ _ _ => next_step, bad s ⟨_, ha⟩, hs⟩
  · obtain ⟨s, hr, ha, hs⟩ := exists_follow next (fun _ _ => True)
      [.open O_RDONLY true true, .setfl 0 O_WRONLY, .close 0] (create 0)
      (fun s => s.num .reader ≠ s.live .reader + s.opening .reader ∧ s.num .reader = 1 ∧ s.num .writer = 2 ^ 32 - 1)
      (by decide +kernel)
    exact ⟨s, hr.imp fun _ _ _ => next_step, bad s ⟨_, ha⟩, hs⟩
  · obtain ⟨s, hr, hs⟩ := exists_follow next (fun _ _ => True)
      [.open O_RDONLY true true, .setfl 0 O_RDWR] (create 0)
      (fun s => s.Enabled (.close 0) ∧ (exec (.close 0) s).toOption.isNone = true) (by decide +kernel)
    exact ⟨s, hr.imp fun _ _ _ => next_step, hs⟩

end Fifo

end Yagura.FifoOpen
