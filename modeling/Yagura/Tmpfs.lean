import Yagura.Vec

/-!
# Regular files of tmpfs

The content of a tmpfs file is a `vec`; open files read and write it at an
offset of their own. Below 2³¹ such a file is a byte string. What makes the
gaps read as zeros is that every byte of the buffer behind the contents is
zero.
-/

namespace Yagura

open List Prog

/-! ## The file -/

inductive AccMode
  | O_RDONLY | O_WRONLY | O_RDWR
  deriving DecidableEq

structure OpenFile where
  mode : AccMode
  offset : Nat

structure TmpfsFile where
  content : Vec
  files : Nat → OpenFile

inductive Whence
  | SEEK_SET | SEEK_CUR | SEEK_END
  deriving DecidableEq

def Whence.base (offset size : Nat) : Whence → Nat
  | .SEEK_SET => 0
  | .SEEK_CUR => offset
  | .SEEK_END => size

/-- How an `open` goes: its access mode (`none`: not one of the three), `O_TRUNC`, whether `inode_open` gets memory for
the file and whether the task has a descriptor left. -/
structure Opening where
  mode : Option AccMode
  trunc : Bool
  memory : Bool
  descriptor : Bool

/-- A call on open file `f`; `mem` is what `krealloc` will answer. -/
inductive FileOp
  | pread (f count offset : Nat)
  | pwrite (f : Nat) (mem : Realloc) (bytes : List UInt8) (offset : Nat)
  | read (f count : Nat)
  | write (f : Nat) (mem : Realloc) (bytes : List UInt8)
  | truncate (f : Nat) (mem : Realloc) (length : Nat)
  | openFile (f : Nat) (mem : Realloc) (o : Opening)
  | seek (f : Nat) (whence : Whence) (offset : Int)
  | stat

inductive FileResult
  | bytes (bytes : List UInt8)
  | value (n : Nat)
  deriving DecidableEq

abbrev FileProg := Prog TmpfsFile Trap

def onContent {α : Type} (x : VecProg α) : FileProg α := on TmpfsFile.content (fun s v => { s with content := v }) x

def TmpfsFile.setOffset (s : TmpfsFile) (f n : Nat) : TmpfsFile :=
  { s with files := Function.update s.files f { s.files f with offset := n } }

def filePread (f count offset : Nat) : FileProg (Except Errno (List UInt8)) := do
  let s ← get
  if (s.files f).mode = .O_WRONLY then pure (.error .EBADF)
  else
    let bytes ← onContent (Vec.vecPread count offset)
    pure (.ok bytes)

def filePwrite (f : Nat) (mem : Realloc) (bytes : List UInt8) (offset : Nat) : FileProg (Except Errno Nat) := do
  let s ← get
  if (s.files f).mode = .O_RDONLY then pure (.error .EBADF)
  else onContent (Vec.vecPwrite mem (fun i => bytes.getD i 0) bytes.length offset)

def fileRead (f count : Nat) : FileProg (Except Errno (List UInt8)) := do
  let s ← get
  let r ← filePread f count (s.files f).offset
  match r with
  | .error e => pure (.error e)
  | .ok bytes =>
    modify fun s => s.setOffset f (((s.files f).offset + bytes.length) % 2 ^ 64)
    pure (.ok bytes)

def fileWrite (f : Nat) (mem : Realloc) (bytes : List UInt8) : FileProg (Except Errno Nat) := do
  let s ← get
  let r ← filePwrite f mem bytes (s.files f).offset
  match r with
  | .error e => pure (.error e)
  | .ok n =>
    modify fun s => s.setOffset f (((s.files f).offset + n) % 2 ^ 64)
    pure (.ok n)

def fileTruncate (f : Nat) (mem : Realloc) (length : Nat) : FileProg (Except Errno Unit) := do
  let s ← get
  if (s.files f).mode = .O_RDONLY then pure (.error .EINVAL)
  else onContent (Vec.vecResize mem length)

/-- With `O_TRUNC` the file is truncated whatever the access mode. -/
def inodeOpen (mem : Realloc) (o : Opening) : FileProg (Except Errno OpenFile) :=
  match o.mode with
  | none => pure (.error .EINVAL)
  | some mode =>
    if o.memory = false then pure (.error .ENOMEM)
    else if o.trunc = false then pure (.ok ⟨mode, 0⟩)
    else do
      let r ← onContent (Vec.vecResize mem 0)
      pure (r.map fun _ => ⟨mode, 0⟩)

/-- The new file is number `f`; without a descriptor it is closed again. -/
def sysOpen (f : Nat) (mem : Realloc) (o : Opening) : FileProg (Except Errno Unit) := do
  let r ← inodeOpen mem o
  match r with
  | .error e => pure (.error e)
  | .ok file =>
    if o.descriptor = false then pure (.error .EMFILE)
    else
      modify fun s => { s with files := Function.update s.files f file }
      pure (.ok ())

def fileSeek (f : Nat) (whence : Whence) (offset : Int) : FileProg (Except Errno Nat) := do
  let s ← get
  let newOffset : Int := whence.base (s.files f).offset s.content.size + offset
  if newOffset < 0 then pure (.error .EINVAL)
  else
    modify fun s => s.setOffset f newOffset.toNat
    pure (.ok newOffset.toNat)

def FileOp.exec : FileOp → FileProg (Except Errno FileResult)
  | .pread f count offset => do
    let r ← filePread f count offset
    pure (r.map .bytes)
  | .pwrite f mem bytes offset => do
    let r ← filePwrite f mem bytes offset
    pure (r.map .value)
  | .read f count => do
    let r ← fileRead f count
    pure (r.map .bytes)
  | .write f mem bytes => do
    let r ← fileWrite f mem bytes
    pure (r.map .value)
  | .truncate f mem length => do
    let r ← fileTruncate f mem length
    pure (r.map fun _ => .value 0)
  | .openFile f mem o => do
    let r ← sysOpen f mem o
    pure (r.map fun _ => .value 0)
  | .seek f whence offset => do
    let r ← fileSeek f whence offset
    pure (r.map .value)
  | .stat => do
    let s ← get
    pure (.ok (.value s.content.size))

/-! ## The byte string -/

structure ByteString where
  str : List UInt8
  files : Nat → OpenFile

namespace ByteString

def overwrite (s bytes : List UInt8) (offset : Nat) : List UInt8 :=
  (s ++ List.replicate (offset - s.length) 0).take offset ++ bytes ++ s.drop (offset + bytes.length)

def cut (s : List UInt8) (n : Nat) : List UInt8 := s.take n ++ List.replicate (n - s.length) 0

def slice (s : List UInt8) (count offset : Nat) : List UInt8 := (s.drop offset).take count

def setOffset (b : ByteString) (f n : Nat) : ByteString :=
  { b with files := Function.update b.files f { b.files f with offset := n } }

def exec (b : ByteString) : FileOp → FileResult × ByteString
  | .pread _ count offset => (.bytes (slice b.str count offset), b)
  | .pwrite _ _ bytes offset => (.value bytes.length, { b with str := overwrite b.str bytes offset })
  | .read f count =>
    (.bytes (slice b.str count (b.files f).offset),
      b.setOffset f ((b.files f).offset + (slice b.str count (b.files f).offset).length))
  | .write f _ bytes =>
    (.value bytes.length,
      { b.setOffset f ((b.files f).offset + bytes.length) with str := overwrite b.str bytes (b.files f).offset })
  | .truncate _ _ length => (.value 0, { b with str := cut b.str length })
  | .openFile f _ o =>
    (.value 0, ⟨if o.trunc then [] else b.str, Function.update b.files f ⟨o.mode.getD .O_RDONLY, 0⟩⟩)
  | .seek f whence offset =>
    let newOffset : Int := whence.base (b.files f).offset b.str.length + offset
    (.value newOffset.toNat, b.setOffset f newOffset.toNat)
  | .stat => (.value b.str.length, b)

/-- Why a call may fail: the file is not open for it, it seeks before the start, or there is no memory or descriptor. -/
def MayFail (b : ByteString) : FileOp → Prop
  | .pread f _ _ | .read f _ => (b.files f).mode = .O_WRONLY
  | .pwrite f mem _ _ | .write f mem _ | .truncate f mem _ => (b.files f).mode = .O_RDONLY ∨ mem.isNone = true
  | .seek f whence offset => (whence.base (b.files f).offset b.str.length : Int) + offset < 0
  | .openFile _ _ o => o.mode = none ∨ o.memory = false ∨ o.descriptor = false
  | .stat => False

/-- The call truncates the file and then has no descriptor for it. -/
def TruncatesInVain : FileOp → Prop
  | .openFile _ _ o => o.mode ≠ none ∧ o.memory = true ∧ o.trunc = true ∧ o.descriptor = false
  | _ => False

instance (op : FileOp) : Decidable (TruncatesInVain op) := by
  unfold TruncatesInVain
  split <;> infer_instance

/-- What a call that fails leaves. -/
def failed (b : ByteString) (op : FileOp) : ByteString := if TruncatesInVain op then { b with str := [] } else b

/-- Offsets and counts stay below 2³¹, and transfers move at least one byte. -/
def InRange (b : ByteString) : FileOp → Prop
  | .pread _ count offset => 1 ≤ count ∧ offset + count < 2 ^ 31
  | .pwrite _ _ bytes offset => 1 ≤ bytes.length ∧ offset + bytes.length < 2 ^ 31
  | .read f count => 1 ≤ count ∧ (b.files f).offset + count < 2 ^ 31
  | .write f _ bytes => 1 ≤ bytes.length ∧ (b.files f).offset + bytes.length < 2 ^ 31
  | .truncate _ _ length => length < 2 ^ 31
  | .openFile _ _ _ | .stat => True
  | .seek f whence offset => (whence.base (b.files f).offset b.str.length : Int) + offset < 2 ^ 31

instance (b : ByteString) (op : FileOp) : Decidable (b.InRange op) := by
  unfold InRange
  split <;> infer_instance

/-! ## Bytes of a string -/

section
variable {s t bytes : List UInt8} {i n count offset : Nat}

theorem ext_getD (hl : s.length = t.length) (h : ∀ i, i < s.length → s.getD i 0 = t.getD i 0) : s = t := by
  apply ext_getElem hl
  intro i hs ht
  have := h i hs
  rwa [getD_eq_getElem _ _ hs, getD_eq_getElem _ _ ht] at this

theorem getD_append_zeros (k : Nat) : (s ++ replicate k 0).getD i 0 = s.getD i 0 := by
  simp only [getD_eq_getElem?_getD, getElem?_append, getElem?_replicate]
  split
  · rfl
  · rename_i h
    rw [getElem?_eq_none (Nat.not_lt.mp h)]
    split <;> rfl

theorem getD_take : (s.take n).getD i 0 = if i < n then s.getD i 0 else 0 := by
  simp only [getD_eq_getElem?_getD, getElem?_take]
  split <;> rfl

theorem getD_drop : (s.drop n).getD i 0 = s.getD (n + i) 0 := by
  simp only [getD_eq_getElem?_getD, getElem?_drop]

theorem length_overwrite : (overwrite s bytes offset).length = max s.length (offset + bytes.length) := by
  unfold overwrite
  simp only [length_append, length_take, length_replicate, length_drop]
  omega

theorem getD_overwrite : (overwrite s bytes offset).getD i 0 =
      if offset ≤ i ∧ i < offset + bytes.length then bytes.getD (i - offset) 0 else s.getD i 0 := by
  have hlen : ((s ++ replicate (offset - s.length) 0).take offset).length = offset := by
    simp only [length_take, length_append, length_replicate]
    omega
  unfold overwrite
  rw [append_assoc]
  by_cases hlo : i < offset
  · rw [if_neg (by omega), getD_append _ _ _ _ (by rwa [hlen]), getD_take, if_pos hlo, getD_append_zeros]
  · rw [getD_append_right _ _ _ _ (by rw [hlen]; omega), hlen]
    by_cases hhi : i < offset + bytes.length
    · rw [if_pos (by omega), getD_append _ _ _ _ (by omega)]
    · rw [if_neg (by omega), getD_append_right _ _ _ _ (by omega), getD_drop]
      congr 1
      omega

theorem length_cut : (cut s n).length = n := by
  unfold cut
  simp only [length_append, length_take, length_replicate]
  omega

theorem getD_cut : (cut s n).getD i 0 = if i < n then s.getD i 0 else 0 := by
  unfold cut
  rw [getD_append_zeros, getD_take]

theorem length_slice : (slice s count offset).length = min count (s.length - offset) := by
  unfold slice
  rw [length_take, length_drop]

theorem getD_slice : (slice s count offset).getD i 0 = if i < count then s.getD (offset + i) 0 else 0 := by
  unfold slice
  rw [getD_take, getD_drop]

end

theorem failed_eq_iff {b : ByteString} {op : FileOp} : b.failed op = b ↔ (TruncatesInVain op → b.str = []) := by
  unfold failed
  split
  · rename_i h
    refine ⟨fun he _ => (congrArg str he).symm, fun he => ?_⟩
    rw [← he h]
  · rename_i h
    exact ⟨fun _ ht => absurd ht h, fun _ => rfl⟩

end ByteString

/-! ## The contents of a buffer -/

namespace Vec

def contents (v : Vec) : List UInt8 := (List.range v.size).map v.bytes

structure Padded (v : Vec) : Prop where
  good : v.Good
  zeros : ∀ i, v.size ≤ i → i < v.capacity → v.bytes i = 0
  aligned : v.capacity % PAGE_SIZE = 0

section
variable {v w : Vec} {i n count offset : Nat}

@[simp] theorem length_contents (v : Vec) : v.contents.length = v.size := by
  simp [contents]

theorem getD_contents : v.contents.getD i 0 = if i < v.size then v.bytes i else 0 := by
  unfold contents
  rw [getD_eq_getElem?_getD, getElem?_map]
  by_cases h : i < v.size
  · rw [if_pos h, getElem?_range h]
    rfl
  · rw [if_neg h, getElem?_eq_none (by rw [length_range]; omega)]
    rfl

theorem Padded.getD_contents (h : v.Padded) (hi : i < v.capacity) : v.contents.getD i 0 = v.bytes i := by
  rw [Vec.getD_contents]
  split
  · rfl
  · rename_i hs
    exact (h.zeros i (Nat.not_lt.mp hs) hi).symm

theorem Room.padded (h : Room v n w) (hv : v.Padded) : w.Padded := by
  cases h with
  | enough => exact hv
  | grown hc hn hlt hal =>
    refine ⟨(Room.grown hc hn hlt hal).good hv.good, ?_, hal⟩
    intro i hs hi
    exact if_pos ⟨hs, hi⟩

theorem Room.contents (h : Room v n w) (hv : v.Padded) : w.contents = v.contents := by
  cases h with
  | enough => rfl
  | grown hc hn hlt hal =>
    apply map_congr_left
    intro i hi
    have hi : i < v.size := mem_range.mp hi
    have := hv.good.size
    show (if v.size ≤ i ∧ i < _ then 0 else if i < v.capacity then v.bytes i else _) = v.bytes i
    rw [if_neg (by omega), if_pos (by omega)]

theorem Padded.stored (h : v.Padded) {bytes : List UInt8} (hle : offset + bytes.length ≤ v.capacity) :
    (v.stored (fun i => bytes.getD i 0) bytes.length offset).Padded ∧
      (v.stored (fun i => bytes.getD i 0) bytes.length offset).contents =
        ByteString.overwrite v.contents bytes offset := by
  have hs := h.good.size
  refine ⟨⟨h.good.stored hle, ?_, h.aligned⟩, ?_⟩
  · intro i hi hc
    have hi : max v.size (offset + bytes.length) ≤ i := hi
    show (if offset ≤ i ∧ i < offset + bytes.length then _ else v.bytes i) = 0
    rw [if_neg (by omega)]
    exact h.zeros i (by omega) hc
  · apply ByteString.ext_getD
    · rw [length_contents, ByteString.length_overwrite, length_contents]
      rfl
    · intro i hi
      rw [length_contents] at hi
      have hi' : i < max v.size (offset + bytes.length) := hi
      rw [Vec.getD_contents, if_pos hi, ByteString.getD_overwrite, h.getD_contents (by omega)]
      rfl

theorem Padded.resized (h : v.Padded) (hle : n ≤ v.capacity) :
    (v.resized n).Padded ∧ (v.resized n).contents = ByteString.cut v.contents n := by
  refine ⟨⟨h.good.resized hle, ?_, h.aligned⟩, ?_⟩
  · intro i hi hc
    have hi : n ≤ i := hi
    show (if min v.size n ≤ i ∧ i < max v.size n then 0 else v.bytes i) = 0
    split
    · rfl
    · exact h.zeros i (by omega) hc
  · apply ByteString.ext_getD
    · rw [length_contents, ByteString.length_cut]
      rfl
    · intro i hi
      rw [length_contents] at hi
      have hi' : i < n := hi
      rw [Vec.getD_contents, if_pos hi, ByteString.getD_cut, if_pos hi', Vec.getD_contents]
      show (if min v.size n ≤ i ∧ i < max v.size n then 0 else v.bytes i) = _
      by_cases hlt : i < v.size
      · rw [if_neg (by omega), if_pos hlt]
      · rw [if_pos (by omega), if_neg hlt]

theorem slice_contents (v : Vec) (count offset : Nat) :
    (range (min count (v.size - offset))).map (fun i => v.bytes (offset + i)) =
      ByteString.slice v.contents count offset := by
  apply ByteString.ext_getD
  · rw [length_map, length_range, ByteString.length_slice, length_contents]
  · intro i hi
    rw [length_map, length_range] at hi
    rw [ByteString.getD_slice, if_pos (by omega), Vec.getD_contents, if_pos (by omega), getD_eq_getElem?_getD,
      getElem?_map, getElem?_range hi]
    rfl

theorem Padded.refuses {mem : Realloc} (h : v.Padded) (hlt : v.capacity < n) (hn : n < 2 ^ 31)
    (href : Refuses mem n v) : mem.isNone = true := by
  have hal := h.aligned
  unfold PAGE_SIZE at hal
  rcases href with hd | hz | hm
  · omega
  · unfold newCapacity roundUp roundDown add32 PAGE_SIZE at hz
    dsimp only at hz
    have hmax : max (v.capacity * 2 % 2 ^ 32) n ≠ 0 := by omega
    rw [if_neg hmax] at hz
    omega
  · exact hm

end

end Vec

/-! ## Refinement -/

def TmpfsFile.abs (s : TmpfsFile) : ByteString := ⟨s.content.contents, s.files⟩

def FileOp.Step (s : TmpfsFile) (op : FileOp) (s' : TmpfsFile) : Prop := ∃ r, op.exec s = .ok (r, s')

inductive Agrees {α : Type} (b : ByteString) (fails : Prop) (result : α) (after : ByteString) :
    Except Errno α → TmpfsFile → Prop
  | fails {e : Errno} {s' : TmpfsFile} : fails → s'.content.Padded → s'.abs = b → Agrees b fails result after (.error e) s'
  | same {s' : TmpfsFile} : s'.content.Padded → s'.abs = after → Agrees b fails result after (.ok result) s'

section
variable {α β : Type} {s : TmpfsFile} {f count offset n : Nat} {mem : Realloc} {bytes : List UInt8}

theorem onContent_run {x : VecProg α} {a : α} {v : Vec} (h : x s.content = .ok (a, v)) :
    onContent x s = .ok (a, { s with content := v }) :=
  on_ok.mpr ⟨v, h, rfl⟩

theorem filePread_agrees (f offset : Nat) (h : s.content.Padded) (hc : count < 2 ^ 32) :
    ∃ r s', filePread f count offset s = .ok (r, s') ∧
      Agrees s.abs ((s.files f).mode = .O_WRONLY) (ByteString.slice s.abs.str count offset) s.abs r s' := by
  unfold filePread
  rw [get_bind]
  by_cases hm : (s.files f).mode = .O_WRONLY
  · rw [if_pos hm]
    exact ⟨_, s, pure_run _, .fails hm h rfl⟩
  · rw [if_neg hm, bind_run (onContent_run (Vec.vecPread_run h.good hc)), Vec.slice_contents]
    exact ⟨_, s, pure_run _, .same h rfl⟩

theorem filePwrite_agrees (f : Nat) (mem : Realloc) (h : s.content.Padded) (hr : offset + bytes.length < 2 ^ 31) :
    ∃ r s', filePwrite f mem bytes offset s = .ok (r, s') ∧ s'.files = s.files ∧
      Agrees s.abs ((s.files f).mode = .O_RDONLY ∨ mem.isNone = true) bytes.length
        { s.abs with str := ByteString.overwrite s.abs.str bytes offset } r s' := by
  unfold filePwrite
  rw [get_bind]
  by_cases hm : (s.files f).mode = .O_RDONLY
  · rw [if_pos hm]
    exact ⟨_, s, pure_run _, rfl, .fails (.inl hm) h rfl⟩
  · rw [if_neg hm]
    obtain ⟨hlt, href, e, hrun⟩ | ⟨-, w, hro, hrun⟩ :=
      Vec.vecPwrite_run mem (fun i => bytes.getD i 0) h.good (show offset + bytes.length < 2 ^ 32 by omega)
    · exact ⟨_, _, onContent_run hrun, rfl, .fails (.inr (h.refuses hlt hr href)) h rfl⟩
    · obtain ⟨hp, hco⟩ := (hro.padded h).stored hro.le
      rw [hro.contents h] at hco
      exact ⟨_, _, onContent_run hrun, rfl, .same hp (by rw [TmpfsFile.abs, hco]; rfl)⟩

theorem fileTruncate_agrees (h : s.content.Padded) (hn : n < 2 ^ 31) : ∃ r s', fileTruncate f mem n s = .ok (r, s') ∧
      Agrees s.abs ((s.files f).mode = .O_RDONLY ∨ mem.isNone = true) ()
        { s.abs with str := ByteString.cut s.abs.str n } r s' := by
  unfold fileTruncate
  rw [get_bind]
  by_cases hm : (s.files f).mode = .O_RDONLY
  · rw [if_pos hm]
    exact ⟨_, s, pure_run _, .fails (.inl hm) h rfl⟩
  · rw [if_neg hm]
    obtain ⟨hlt, href, e, hrun⟩ | ⟨-, w, hro, hrun⟩ :=
      Vec.vecResize_run mem h.good (show n < 2 ^ 32 by omega)
    · exact ⟨_, _, onContent_run hrun, .fails (.inr (h.refuses hlt hn href)) h rfl⟩
    · obtain ⟨hp, hco⟩ := (hro.padded h).resized hro.le
      rw [hro.contents h] at hco
      exact ⟨_, _, onContent_run hrun, .same hp (by rw [TmpfsFile.abs, hco]; rfl)⟩

theorem inodeOpen_trunc {mode : AccMode} {descriptor : Bool} (mem : Realloc) (h : s.content.Padded) :
    ∃ v : Vec, inodeOpen mem ⟨some mode, true, true, descriptor⟩ s = .ok (.ok ⟨mode, 0⟩, { s with content := v }) ∧
      v.Padded ∧ v.contents = [] := by
  obtain ⟨hlt, -⟩ | ⟨-, w, hro, hrun⟩ := Vec.vecResize_run mem (n := 0) h.good (by decide)
  · cases hlt
  · exact ⟨_, (bind_run (onContent_run hrun)).trans (pure_run _), ((hro.padded h).resized hro.le).1, rfl⟩

theorem sysOpen_agrees {o : Opening} (h : s.content.Padded) :
    ∃ r s', sysOpen f mem o s = .ok (r, s') ∧
      Agrees (s.abs.failed (.openFile f mem o)) (s.abs.MayFail (.openFile f mem o)) ()
        (s.abs.exec (.openFile f mem o)).2 r s' := by
  obtain ⟨mode, trunc, memory, descriptor⟩ := o
  unfold sysOpen
  cases mode with
  | none => exact ⟨_, s, (bind_run (pure_run _)).trans (pure_run _), .fails (.inl rfl) h rfl⟩
  | some mode =>
    cases memory with
    | false => exact ⟨_, s, (bind_run (pure_run _)).trans (pure_run _), .fails (.inr (.inl rfl)) h rfl⟩
    | true =>
      cases trunc with
      | false =>
        cases descriptor with
        | false => exact ⟨_, s, (bind_run (pure_run _)).trans (pure_run _), .fails (.inr (.inr rfl)) h rfl⟩
        | true =>
          exact ⟨_, _, (bind_run (pure_run _)).trans ((modify_bind _ _).trans (pure_run _)), .same h rfl⟩
      | true =>
        obtain ⟨v, hrun, hp, hnil⟩ := inodeOpen_trunc mem h
        cases descriptor with
        | false =>
          refine ⟨_, _, (bind_run hrun).trans (pure_run _), .fails (.inr (.inr rfl)) hp ?_⟩
          rw [TmpfsFile.abs, hnil]
          rfl
        | true =>
          refine ⟨_, _, (bind_run hrun).trans ((modify_bind _ _).trans (pure_run _)), .same hp ?_⟩
          rw [TmpfsFile.abs, hnil]
          rfl

theorem fileSeek_agrees {whence : Whence} {o : Int} (h : s.content.Padded) :
    ∃ r s', fileSeek f whence o s = .ok (r, s') ∧
      Agrees s.abs ((whence.base (s.files f).offset s.abs.str.length : Int) + o < 0)
        ((whence.base (s.files f).offset s.abs.str.length : Int) + o).toNat
        (s.abs.setOffset f ((whence.base (s.files f).offset s.abs.str.length : Int) + o).toNat) r s' := by
  have hlen : s.abs.str.length = s.content.size := Vec.length_contents _
  unfold fileSeek
  rw [get_bind, hlen]
  by_cases hneg : (whence.base (s.files f).offset s.content.size : Int) + o < 0
  · rw [if_pos hneg]
    exact ⟨_, s, pure_run _, .fails hneg h rfl⟩
  · rw [if_neg hneg]
    exact ⟨_, _, (modify_bind _ _).trans (pure_run _), .same h rfl⟩

theorem fileRead_agrees (h : s.content.Padded) (hr : (s.files f).offset + count < 2 ^ 31) :
    ∃ r s', fileRead f count s = .ok (r, s') ∧
      Agrees s.abs ((s.files f).mode = .O_WRONLY) (ByteString.slice s.abs.str count (s.files f).offset)
        (s.abs.setOffset f ((s.files f).offset + (ByteString.slice s.abs.str count (s.files f).offset).length)) r s' := by
  unfold fileRead
  rw [get_bind]
  obtain ⟨r, s', hrun, hag⟩ := filePread_agrees f (s.files f).offset h
    (show count < 2 ^ 32 by omega)
  rw [bind_run hrun]
  cases hag with
  | fails hm hp ha => exact ⟨_, s', pure_run _, .fails hm hp ha⟩
  | same hp ha =>
    refine ⟨_, _, (modify_bind _ _).trans (pure_run _), .same hp ?_⟩
    have hfi : s'.files = s.files := congrArg ByteString.files ha
    have hle : (ByteString.slice s.abs.str count (s.files f).offset).length ≤ count := by
      rw [ByteString.length_slice]
      exact min_le_left _ _
    rw [hfi, Nat.mod_eq_of_lt (by omega), ← ha]
    rfl

theorem fileWrite_agrees (h : s.content.Padded) (hr : (s.files f).offset + bytes.length < 2 ^ 31) :
    ∃ r s', fileWrite f mem bytes s = .ok (r, s') ∧
      Agrees s.abs ((s.files f).mode = .O_RDONLY ∨ mem.isNone = true) bytes.length
        { s.abs.setOffset f ((s.files f).offset + bytes.length) with
          str := ByteString.overwrite s.abs.str bytes (s.files f).offset } r s' := by
  unfold fileWrite
  rw [get_bind]
  obtain ⟨r, s', hrun, hfi, hag⟩ := filePwrite_agrees f mem h hr
  rw [bind_run hrun]
  cases hag with
  | fails hm hp ha => exact ⟨_, s', pure_run _, .fails hm hp ha⟩
  | same hp ha =>
    refine ⟨_, _, (modify_bind _ _).trans (pure_run _), .same hp ?_⟩
    have hstr : s'.content.contents = ByteString.overwrite s.abs.str bytes (s.files f).offset :=
      congrArg ByteString.str ha
    rw [hfi, Nat.mod_eq_of_lt (by omega)]
    unfold TmpfsFile.setOffset ByteString.setOffset TmpfsFile.abs
    rw [hstr, hfi]
    rfl

theorem Agrees.map {b after : ByteString} {fails : Prop} {x : FileProg (Except Errno α)} {a : α} {g : α → β}
    (h : ∃ r s', x s = .ok (r, s') ∧ Agrees b fails a after r s') :
    ∃ r s', (x >>= fun r => pure (r.map g) : FileProg (Except Errno β)) s = .ok (r, s') ∧
      Agrees b fails (g a) after r s' := by
  obtain ⟨r, s', hrun, hag⟩ := h
  refine ⟨r.map g, s', (bind_run hrun).trans (pure_run _), ?_⟩
  cases hag with
  | fails hm hp ha => exact .fails hm hp ha
  | same hp ha => exact .same hp ha

theorem FileOp.exec_agrees {op : FileOp} (h : s.content.Padded) (hin : s.abs.InRange op) :
    ∃ r s', op.exec s = .ok (r, s') ∧ Agrees (s.abs.failed op) (s.abs.MayFail op) (s.abs.exec op).1 (s.abs.exec op).2 r s' := by
  cases op with
  | pread f count offset =>
    obtain ⟨-, hr⟩ := hin
    exact Agrees.map (filePread_agrees f offset h (by omega))
  | pwrite f mem bytes offset =>
    obtain ⟨r, s', hrun, -, hag⟩ := filePwrite_agrees f mem h hin.2
    exact Agrees.map ⟨r, s', hrun, hag⟩
  | read f count => exact Agrees.map (fileRead_agrees h hin.2)
  | write f mem bytes => exact Agrees.map (fileWrite_agrees h hin.2)
  | truncate f mem length => exact Agrees.map (fileTruncate_agrees h hin)
  | openFile f mem o => exact Agrees.map (sysOpen_agrees h)
  | seek f whence offset => exact Agrees.map (fileSeek_agrees h)
  | stat =>
    refine ⟨_, s, (get_bind _).trans (pure_run _), ?_⟩
    have hlen : s.abs.str.length = s.content.size := Vec.length_contents _
    rw [← hlen]
    exact .same h rfl

end

def TmpfsFile.create (bytes : Nat → UInt8) (files : Nat → OpenFile) : TmpfsFile := ⟨Vec.empty bytes, files⟩

theorem create_padded (bytes : Nat → UInt8) (files : Nat → OpenFile) :
    (TmpfsFile.create bytes files).content.Padded := by
  refine ⟨⟨Nat.le_refl 0, show 0 < 2 ^ 32 by decide⟩, ?_, rfl⟩
  intro i _ hi
  cases hi

theorem padded_of_run {bytes : Nat → UInt8} {files : Nat → OpenFile} {s : TmpfsFile}
    (hr : Run FileOp.Step (fun s op => s.abs.InRange op) (TmpfsFile.create bytes files) s) : s.content.Padded := by
  refine hr.invariant (I := fun s => s.content.Padded) (create_padded bytes files) ?_
  rintro t op t' ht ⟨r, hrun⟩ hin
  obtain ⟨r', t'', hrun', hag⟩ := FileOp.exec_agrees ht hin
  rw [hrun'] at hrun
  cases hrun
  cases hag with
  | fails _ hp _ => exact hp
  | same hp _ => exact hp

/-- Whatever calls were made, the next one returns, and it fails or does what it does to the string. A call that fails
leaves the string unless it is an open that truncates in vain. -/
theorem tmpfs_file_is_byte_string {bytes : Nat → UInt8} {files : Nat → OpenFile} {s : TmpfsFile}
    (hr : Run FileOp.Step (fun s op => s.abs.InRange op) (TmpfsFile.create bytes files) s) :
    (TmpfsFile.create bytes files).abs.str = [] ∧
    ∀ op, s.abs.InRange op → ∃ r s', op.exec s = .ok (r, s') ∧
      ((∃ e, r = .error e) ∧ s.abs.MayFail op ∧
          (s'.abs = s.abs ↔ (ByteString.TruncatesInVain op → s.abs.str = [])) ∨
        r = .ok (s.abs.exec op).1 ∧ s'.abs = (s.abs.exec op).2) := by
  refine ⟨rfl, ?_⟩
  intro op hin
  obtain ⟨r, s', hrun, hag⟩ := FileOp.exec_agrees (padded_of_run hr) hin
  refine ⟨r, s', hrun, ?_⟩
  cases hag with
  | fails hm _ ha => exact .inl ⟨⟨_, rfl⟩, hm, ha ▸ ByteString.failed_eq_iff⟩
  | same _ ha => exact .inr ⟨rfl, ha⟩

theorem tmpfs_file_reads_zeros :
    ∃ s, Run FileOp.Step (fun s op => s.abs.InRange op) (TmpfsFile.create (fun _ => 9) fun _ => ⟨.O_RDWR, 0⟩) s ∧
      s.abs.str = [5, 0, 0] ∧
      ∃ r s', (FileOp.pread 0 4 1).exec s = .ok (r, s') ∧
        ((∃ e, r = .error e) ∧ s.abs.MayFail (.pread 0 4 1) ∧
            (s'.abs = s.abs ↔ (ByteString.TruncatesInVain (.pread 0 4 1) → s.abs.str = [])) ∨
          r = .ok (s.abs.exec (.pread 0 4 1)).1 ∧ s'.abs = (s.abs.exec (.pread 0 4 1)).2) := by
  obtain ⟨s, hr, hstr, hin⟩ := exists_follow_prog FileOp.exec (fun s op => s.abs.InRange op)
    [.write 0 (some fun _ => 9) [5, 6], .truncate 0 none 1, .truncate 0 none 3]
    (TmpfsFile.create (fun _ => 9) fun _ => ⟨.O_RDWR, 0⟩)
    (fun s => s.abs.str = [5, 0, 0] ∧ s.abs.InRange (.pread 0 4 1)) (by decide +kernel)
  exact ⟨s, hr, hstr, (tmpfs_file_is_byte_string hr).2 _ hin⟩

/-- An open with `O_TRUNC` by a task that has no descriptor left fails and empties the file. -/
theorem failed_open_empties_file :
    ∃ s, Run FileOp.Step (fun s op => s.abs.InRange op) (TmpfsFile.create (fun _ => 9) fun _ => ⟨.O_RDWR, 0⟩) s ∧
      s.abs.str = [5, 6] ∧
      Yields (FileOp.openFile 1 none ⟨some .O_RDONLY, true, true, false⟩).exec s fun r s' =>
        r = .error .EMFILE ∧ s'.abs.str = [] :=
  exists_follow_prog FileOp.exec (fun s op => s.abs.InRange op) [.write 0 (some fun _ => 9) [5, 6]]
    (TmpfsFile.create (fun _ => 9) fun _ => ⟨.O_RDWR, 0⟩) _ (by decide +kernel)

end Yagura
