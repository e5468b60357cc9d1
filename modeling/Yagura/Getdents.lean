import Yagura.Errno
import Yagura.Paging
import Yagura.Trans

/-!
# Listing a directory

`getdents`, `getdents64` and `readdir`: the loop of `dentry_getdents` over the
entries from the position of the file on, the callback that fills the user's
buffer, and the three record formats. What a call delivers is read back from
the bytes it copied, as a user program reads them.
-/

namespace Yagura.Getdents

open List Nat Prog

/-! ## Entries -/

inductive FileType
  | fifo | chr | dir | blk | reg | lnk | sock
  deriving DecidableEq, Repr

def PATH_MAX : Nat := 4096

/-- `struct dentry` with the type of its inode. Names are components of pathnames. -/
structure Dentry where
  name : List UInt8
  type : FileType
  noNul : 0 ∉ name
  short : name.length < PATH_MAX

def modeToDirentType : FileType → UInt8
  | .dir => 4
  | .chr => 2
  | .blk => 6
  | .reg => 8
  | .fifo => 1
  | .lnk => 10
  | .sock => 12

def dentryLoop {γ ε : Type} (callback : List UInt8 → UInt8 → Prog γ ε Bool) : List Dentry → Nat → Prog γ ε Nat
  | [], offset => pure offset
  | d :: ds, offset => do
    if ← callback d.name (modeToDirentType d.type) then dentryLoop callback ds (offset + 1) else pure offset

def dentryGetdents {γ ε : Type} (callback : List UInt8 → UInt8 → Prog γ ε Bool) (head : List Dentry) (offset : Nat) :
    Prog γ ε Nat := dentryLoop callback (head.drop offset) offset

/-! ## Memory of the caller -/

structure UserBytes where
  writable : Nat → Bool
  byte : Nat → UInt8

def UserBytes.set (m : UserBytes) (a : Nat) (b : UInt8) : UserBytes := { m with byte := Function.update m.byte a b }

/-- `rep movsb`, which a page fault stops. -/
def safeMemcpy : Nat → List UInt8 → UserBytes → Except Errno Unit × UserBytes
  | _, [], m => (.ok (), m)
  | dest, b :: bs, m => if m.writable dest then safeMemcpy (dest + 1) bs (m.set dest b) else (.error .EFAULT, m)

def copyToUser (userTo : Nat) (src : List UInt8) (m : UserBytes) : Except Errno Unit × UserBytes :=
  if isUserRange userTo src.length then safeMemcpy userTo src m else (.error .EFAULT, m)

/-! ## Records -/

inductive Format
  | old | dirent | dirent64
  deriving DecidableEq, Repr

def Format.nameOff : Format → Nat
  | .old | .dirent => 10
  | .dirent64 => 19

def Format.trailer : Format → Nat
  | .dirent => 2
  | .old | .dirent64 => 0

/-- All three structures are aligned to four bytes on i386. -/
def Format.recLen (f : Format) (nameLen : Nat) : Nat := (f.nameOff + (nameLen + 1) + f.trailer + 3) / 4 * 4

def le16 (n : Nat) : List UInt8 := [UInt8.ofNat (n % 256), UInt8.ofNat (n / 256 % 256)]

def Format.head (f : Format) (nameLen : Nat) (type : UInt8) : List UInt8 :=
  match f with
  | .old => List.replicate 8 0 ++ le16 nameLen
  | .dirent => List.replicate 8 0 ++ le16 (f.recLen nameLen)
  | .dirent64 => List.replicate 16 0 ++ le16 (f.recLen nameLen) ++ [type]

def Format.pieces (f : Format) (name : List UInt8) (type : UInt8) : List (Nat × List UInt8) :=
  let tail := match f with
    | .dirent => [(f.nameOff + (name.length + 1) + 1, [type])]
    | .old | .dirent64 => []
  (0, f.head name.length type) :: (f.nameOff, name ++ [0]) :: tail

/-- Addresses cannot wrap: the first piece is refused unless `userBuf` is in the user half. -/
def copyPieces (userBuf : Nat) : List (Nat × List UInt8) → UserBytes → Except Errno Unit × UserBytes
  | [], m => (.ok (), m)
  | (o, bs) :: ps, m =>
    match copyToUser (userBuf + o) bs m with
    | (.error _, m') => (.error .EFAULT, m')
    | (.ok (), m') => copyPieces userBuf ps m'

abbrev FillDirFn := Nat → Nat → List UInt8 → UInt8 → UserBytes → Except Errno Nat × UserBytes

def fill (f : Format) : FillDirFn := fun userBuf bufSize name type m =>
  if bufSize < f.recLen name.length then (.ok 0, m)
  else
    match copyPieces userBuf (f.pieces name type) m with
    | (.error e, m') => (.error e, m')
    | (.ok (), m') => (.ok (f.recLen name.length), m')

def fillDirOld : FillDirFn := fill .old

def fillDir : FillDirFn := fill .dirent

def fillDir64 : FillDirFn := fill .dirent64

/-! ## The system calls -/

inductive Panic
  | assert
  deriving DecidableEq

structure FillDirCtx where
  userBuf : Nat
  nremaining : Nat
  nwritten : Nat
  rc : Option Errno
  mem : UserBytes

def FillDirCtx.advance (ctx : FillDirCtx) (n : Nat) (m : UserBytes) : FillDirCtx :=
  { ctx with userBuf := ctx.userBuf + n, nremaining := ctx.nremaining - n, nwritten := ctx.nwritten + n, mem := m }

def getdentsCallback (fillDir : FillDirFn) (name : List UInt8) (type : UInt8) : Prog FillDirCtx Panic Bool := do
  let ctx ← get
  match fillDir ctx.userBuf ctx.nremaining name type ctx.mem with
  | (.error e, m) =>
    modify fun _ => { ctx with rc := some e, mem := m }
    pure false
  | (.ok n, m) =>
    if n = 0 then
      modify fun _ => { ctx with rc := if ctx.nwritten = 0 then some .EINVAL else ctx.rc, mem := m }
      pure false
    else
      ensure (n ≤ ctx.nremaining) .assert
      modify fun _ => ctx.advance n m
      pure true

structure Listed where
  rc : Except Errno Nat
  offset : Nat
  mem : UserBytes

def getdents (dir : List Dentry) (offset userBuf count : Nat) (fillDir : FillDirFn) (m : UserBytes) :
    Except Panic Listed :=
  match dentryGetdents (getdentsCallback fillDir) dir offset ⟨userBuf, count, 0, none, m⟩ with
  | .error e => .error e
  | .ok (offset', ctx) =>
    match ctx.rc with
    | some e => .ok ⟨.error e, offset', ctx.mem⟩
    | none => .ok ⟨.ok ctx.nwritten, offset', ctx.mem⟩

def sysReaddir (dir : List Dentry) (offset : Nat) (userDirp count : UInt32) : UserBytes → Except Panic Listed :=
  getdents dir offset userDirp.toNat count.toNat fillDirOld

def sysGetdents (dir : List Dentry) (offset : Nat) (userDirp count : UInt32) : UserBytes → Except Panic Listed :=
  getdents dir offset userDirp.toNat count.toNat fillDir

def sysGetdents64 (dir : List Dentry) (offset : Nat) (userDirp count : UInt32) : UserBytes → Except Panic Listed :=
  getdents dir offset userDirp.toNat count.toNat fillDir64

/-! ## How a user program reads the records -/

/-- `linux_old_dirent` has no type. -/
structure Record where
  format : Format
  name : List UInt8
  type : Option UInt8
  deriving DecidableEq

def readU16 (byte : Nat → UInt8) (p : Nat) : Nat := (byte p).toNat + 256 * (byte (p + 1)).toNat

def cString (byte : Nat → UInt8) : Nat → Nat → List UInt8
  | 0, _ => []
  | n + 1, p => if byte p = 0 then [] else byte p :: cString byte n (p + 1)

def readRecord (f : Format) (byte : Nat → UInt8) (p : Nat) : Record × Nat :=
  let name := cString byte PATH_MAX (p + f.nameOff)
  match f with
  | .old => (⟨f, name, none⟩, f.recLen (readU16 byte (p + 8)))
  | .dirent => (⟨f, name, some (byte (p + f.nameOff + (name.length + 1) + 1))⟩, readU16 byte (p + 8))
  | .dirent64 => (⟨f, name, some (byte (p + 18))⟩, readU16 byte (p + 16))

def readRecords (f : Format) (byte : Nat → UInt8) : (fuel p n : Nat) → List Record
  | 0, _, _ => []
  | k + 1, p, n =>
    if n = 0 then []
    else
      let (r, len) := readRecord f byte p
      r :: readRecords f byte k (p + len) (n - len)

def Dentry.record (f : Format) (d : Dentry) : Record :=
  ⟨f, d.name, if f = .old then none else some (modeToDirentType d.type)⟩

def Dentry.pieces (f : Format) (d : Dentry) : List (Nat × List UInt8) := f.pieces d.name (modeToDirentType d.type)

def Dentry.len (f : Format) (d : Dentry) : Nat := f.recLen d.name.length

/-! ## Copies -/

section
variable {m : UserBytes} {a dest : Nat} {bs : List UInt8}

@[simp] theorem set_writable (b : UInt8) : (m.set a b).writable = m.writable := rfl

@[simp] theorem safeMemcpy_writable : (safeMemcpy dest bs m).2.writable = m.writable := by
  induction bs generalizing dest m with
  | nil => rfl
  | cons b bs ih =>
    rw [safeMemcpy]
    split
    · rw [ih, set_writable]
    · rfl

theorem safeMemcpy_below (ha : a < dest ∨ dest + bs.length ≤ a) : (safeMemcpy dest bs m).2.byte a = m.byte a := by
  induction bs generalizing dest m with
  | nil => rfl
  | cons b bs ih =>
    rw [safeMemcpy]
    simp only [length_cons] at ha
    split
    · rw [ih (by omega)]
      exact Function.update_of_ne (by omega) _ _
    · rfl

theorem safeMemcpy_ok : (safeMemcpy dest bs m).1 = .ok () ↔ ∀ i < bs.length, m.writable (dest + i) = true := by
  induction bs generalizing dest m with
  | nil => simp [safeMemcpy]
  | cons b bs ih =>
    rw [safeMemcpy, length_cons]
    split
    · rename_i hw
      rw [ih]
      constructor
      · intro h i hi
        cases i with
        | zero => exact hw
        | succ i =>
          have := h i (by omega)
          rwa [set_writable, show dest + 1 + i = dest + (i + 1) by omega] at this
      · intro h i hi
        rw [set_writable, show dest + 1 + i = dest + (i + 1) by omega]
        exact h (i + 1) (by omega)
    · rename_i hw
      exact iff_of_false (by simp) fun h => hw (h 0 (by omega))

theorem safeMemcpy_byte (h : (safeMemcpy dest bs m).1 = .ok ()) (i : Nat) (hi : i < bs.length) :
    (safeMemcpy dest bs m).2.byte (dest + i) = bs[i] := by
  induction bs generalizing dest m i with
  | nil => exact absurd hi (not_lt_zero i)
  | cons b bs ih =>
    rw [safeMemcpy] at h ⊢
    split at h
    · rename_i hw
      rw [if_pos hw]
      cases i with
      | zero =>
        rw [safeMemcpy_below (by omega)]
        exact Function.update_self _ _ _
      | succ i =>
        rw [show dest + (i + 1) = dest + 1 + i by omega]
        exact ih h i (by simpa using hi)
    · cases h

def CanCopy (w : Nat → Bool) (userTo n : Nat) : Prop := isUserRange userTo n = true ∧ ∀ i < n, w (userTo + i) = true

instance (w : Nat → Bool) (userTo n : Nat) : Decidable (CanCopy w userTo n) := by
  unfold CanCopy
  infer_instance

theorem copyToUser_ok (m : UserBytes) (dest : Nat) (bs : List UInt8) :
    (copyToUser dest bs m).1 = .ok () ↔ CanCopy m.writable dest bs.length := by
  unfold copyToUser CanCopy
  split
  · rename_i hr
    rw [safeMemcpy_ok, and_iff_right hr]
  · rename_i hr
    exact iff_of_false (by simp) fun h => hr h.1

theorem copyToUser_writable (m : UserBytes) (dest : Nat) (bs : List UInt8) :
    (copyToUser dest bs m).2.writable = m.writable := by
  unfold copyToUser
  split
  · exact safeMemcpy_writable
  · rfl

theorem copyToUser_below (ha : a < dest ∨ dest + bs.length ≤ a) : (copyToUser dest bs m).2.byte a = m.byte a := by
  unfold copyToUser
  split
  · exact safeMemcpy_below ha
  · rfl

theorem copyToUser_byte (h : (copyToUser dest bs m).1 = .ok ()) (i : Nat) (hi : i < bs.length) :
    (copyToUser dest bs m).2.byte (dest + i) = bs[i] := by
  unfold copyToUser at h ⊢
  split at h
  · rename_i hr
    rw [if_pos hr]
    exact safeMemcpy_byte h i hi
  · cases h

end

/-! ## One record -/

def Copies (w : Nat → Bool) (p : Nat) (ps : List (Nat × List UInt8)) : Prop := ∀ q ∈ ps, CanCopy w (p + q.1) q.2.length

instance (w : Nat → Bool) (p : Nat) (ps : List (Nat × List UInt8)) : Decidable (Copies w p ps) := by
  unfold Copies
  infer_instance

def Holds (byte : Nat → UInt8) (p : Nat) (ps : List (Nat × List UInt8)) : Prop :=
  ∀ q ∈ ps, ∀ i (hi : i < q.2.length), byte (p + q.1 + i) = q.2.get ⟨i, hi⟩

section
variable {m : UserBytes} {a p : Nat} {ps : List (Nat × List UInt8)}

theorem copyPieces_writable (m : UserBytes) (p : Nat) (ps : List (Nat × List UInt8)) :
    (copyPieces p ps m).2.writable = m.writable := by
  induction ps generalizing m with
  | nil => rfl
  | cons q ps ih =>
    have hw := copyToUser_writable m (p + q.1) q.2
    rw [copyPieces]
    split <;> rename_i m' he <;> rw [he] at hw
    · exact hw
    · exact (ih m').trans hw

theorem copyPieces_ok (m : UserBytes) (p : Nat) (ps : List (Nat × List UInt8)) :
    (copyPieces p ps m).1 = .ok () ↔ Copies m.writable p ps := by
  induction ps generalizing m with
  | nil => exact iff_of_true rfl nofun
  | cons q ps ih =>
    have hw := copyToUser_writable m (p + q.1) q.2
    have hok := copyToUser_ok m (p + q.1) q.2
    rw [Copies, forall_mem_cons, copyPieces]
    split <;> rename_i m' he <;> rw [he] at hw hok
    · exact iff_of_false (by simp) fun h => absurd (hok.mpr h.1) (by simp)
    · rw [ih, hw, and_iff_right (hok.mp rfl), Copies]

theorem copyPieces_below (ha : ∀ q ∈ ps, a < p + q.1 ∨ p + q.1 + q.2.length ≤ a) :
    (copyPieces p ps m).2.byte a = m.byte a := by
  induction ps generalizing m with
  | nil => rfl
  | cons q ps ih =>
    obtain ⟨hq, hps⟩ := forall_mem_cons.mp ha
    have hb := copyToUser_below (m := m) hq
    rw [copyPieces]
    split <;> rename_i m' he <;> rw [he] at hb
    · exact hb
    · exact (ih hps).trans hb

theorem copyPieces_under (m : UserBytes) (p : Nat) (ps : List (Nat × List UInt8)) :
    ∀ a < p, (copyPieces p ps m).2.byte a = m.byte a :=
  fun _ ha => copyPieces_below fun _ _ => .inl (by omega)

theorem copyPieces_holds (hs : ps.Pairwise fun q r => q.1 + q.2.length ≤ r.1) (h : (copyPieces p ps m).1 = .ok ()) :
    Holds (copyPieces p ps m).2.byte p ps := by
  induction ps generalizing m with
  | nil => exact nofun
  | cons q ps ih =>
    obtain ⟨hq, hps⟩ := pairwise_cons.mp hs
    have hb : (copyToUser (p + q.1) q.2 m).1 = .ok () → ∀ i (hi : i < q.2.length), _ := copyToUser_byte
    rw [copyPieces] at h ⊢
    split at h <;> rename_i m' he <;> rw [he] at hb
    · cases h
    · rw [Holds, forall_mem_cons]
      refine ⟨fun i hi => ?_, ih hps h⟩
      -- the later pieces lie behind this one
      rw [copyPieces_below fun r hr => .inl (by have := hq r hr; omega)]
      exact hb rfl i hi

end

theorem recLen_pos (f : Format) (n : Nat) : 0 < f.recLen n := by
  unfold Format.recLen
  omega

theorem pieces_pairwise (f : Format) (d : Dentry) : (d.pieces f).Pairwise fun q r => q.1 + q.2.length ≤ r.1 := by
  cases f <;> simp [Dentry.pieces, Format.pieces, Format.head, Format.nameOff, le16]
  omega

theorem pieces_within (f : Format) (d : Dentry) {q : Nat × List UInt8} (hq : q ∈ d.pieces f) :
    q.1 + q.2.length ≤ d.len f := by
  cases f <;>
    simp only [Dentry.pieces, Format.pieces, Format.head, Format.nameOff, le16, mem_cons, not_mem_nil,
      or_false] at hq <;>
    simp only [Dentry.len, Format.recLen, Format.nameOff, Format.trailer]
  · obtain rfl | rfl := hq <;> simp <;> omega
  · obtain rfl | rfl | rfl := hq <;> simp <;> omega
  · obtain rfl | rfl := hq <;> simp <;> omega

variable {p : Nat} {f : Format} {byte : Nat → UInt8} {dir : List Dentry} {s : Reading}

theorem cString_of_holds {name : List UInt8} {n : Nat} (h0 : 0 ∉ name) (hn : name.length < n)
    (h : ∀ i (hi : i < (name ++ [0]).length), byte (p + i) = (name ++ [0]).get ⟨i, hi⟩) :
    cString byte n p = name := by
  induction name generalizing p n with
  | nil =>
    obtain ⟨n, rfl⟩ : ∃ k, n = k + 1 := ⟨n - 1, by simp at hn; omega⟩
    have := h 0 (by simp)
    rw [cString, if_pos (by simpa using this)]
  | cons b name ih =>
    obtain ⟨n, rfl⟩ : ∃ k, n = k + 1 := ⟨n - 1, by simp at hn; omega⟩
    simp only [mem_cons, not_or] at h0
    have hb : byte p = b := h 0 (by simp)
    rw [cString, if_neg (by rw [hb]; exact fun e => h0.1 e.symm), hb]
    refine congrArg (b :: ·) (ih h0.2 (by simpa using hn) fun i hi => ?_)
    rw [show p + 1 + i = p + (i + 1) by omega]
    exact h (i + 1) (by simpa using hi)

theorem readU16_le16 {n : Nat} (hn : n < 65536) (h0 : byte p = UInt8.ofNat (n % 256))
    (h1 : byte (p + 1) = UInt8.ofNat (n / 256 % 256)) : readU16 byte p = n := by
  rw [readU16, h0, h1]
  simp only [UInt8.toNat_ofNat']
  omega

theorem readRecord_of_holds {d : Dentry} (h : Holds byte p (d.pieces f)) :
    readRecord f byte p = (d.record f, d.len f) := by
  have hsh := d.short
  unfold PATH_MAX at hsh
  have hna : cString byte PATH_MAX (p + f.nameOff) = d.name :=
    cString_of_holds d.noNul d.short (h (f.nameOff, d.name ++ [0]) (by simp [Dentry.pieces, Format.pieces]))
  have hhe : ∀ i (hi : i < (f.head d.name.length (modeToDirentType d.type)).length),
      byte (p + i) = (f.head d.name.length (modeToDirentType d.type)).get ⟨i, hi⟩ :=
    h (0, f.head d.name.length (modeToDirentType d.type)) (by simp [Dentry.pieces, Format.pieces])
  have hlen : f.recLen d.name.length < 65536 := by
    cases f <;> simp only [Format.recLen, Format.nameOff, Format.trailer] <;> omega
  unfold readRecord
  rw [hna]
  cases f with
  | old =>
    have hlen : readU16 byte (p + 8) = d.name.length :=
      readU16_le16 (by omega) (hhe 8 (by simp [Format.head, le16])) (hhe 9 (by simp [Format.head, le16]))
    simp [hlen, Dentry.record, Dentry.len]
  | dirent =>
    have hlen : readU16 byte (p + 8) = d.len .dirent :=
      readU16_le16 hlen (hhe 8 (by simp [Format.head, le16])) (hhe 9 (by simp [Format.head, le16]))
    have hty : byte (p + (10 + (d.name.length + 1) + 1) + 0) = modeToDirentType d.type :=
      h (10 + (d.name.length + 1) + 1, [modeToDirentType d.type])
        (by simp [Dentry.pieces, Format.pieces, Format.nameOff]) 0 (by simp)
    simp only [hlen, Dentry.record, reduceCtorEq, if_false, Format.nameOff, ← hty]
    simp only [add_assoc, add_zero]
  | dirent64 =>
    have hlen : readU16 byte (p + 16) = d.len .dirent64 :=
      readU16_le16 hlen (hhe 16 (by simp [Format.head, le16])) (hhe 17 (by simp [Format.head, le16]))
    have hty : byte (p + 18) = modeToDirentType d.type := hhe 18 (by simp [Format.head, le16])
    simp only [hlen, Dentry.record, reduceCtorEq, if_false, hty]

/-! ## One entry -/

section
variable {f : Format} {c : FillDirCtx} {d : Dentry}

theorem callback_full (h : c.nremaining < d.len f) : getdentsCallback (fill f) d.name (modeToDirentType d.type) c =
      .ok (false, { c with rc := if c.nwritten = 0 then some .EINVAL else c.rc }) := by
  have hfi : fill f c.userBuf c.nremaining d.name (modeToDirentType d.type) c.mem = (.ok 0, c.mem) := if_pos h
  unfold getdentsCallback
  rw [get_bind, hfi]
  dsimp only
  rw [if_pos rfl, modify_bind, pure_run]

theorem fill_eq (h : d.len f ≤ c.nremaining) : fill f c.userBuf c.nremaining d.name (modeToDirentType d.type) c.mem =
      match copyPieces c.userBuf (d.pieces f) c.mem with
      | (.error e, m) => (.error e, m)
      | (.ok (), m) => (.ok (d.len f), m) := if_neg (not_lt.mpr h)

theorem copyPieces_error {p : Nat} {ps : List (Nat × List UInt8)} {m : UserBytes} {e : Errno}
    (h : (copyPieces p ps m).1 = .error e) : e = .EFAULT := by
  induction ps generalizing m with
  | nil => cases h
  | cons q ps ih =>
    rw [copyPieces] at h
    split at h
    · cases h
      rfl
    · exact ih h

theorem callback_fault (h : d.len f ≤ c.nremaining) (hc : ¬ Copies c.mem.writable c.userBuf (d.pieces f)) :
    ∃ m, getdentsCallback (fill f) d.name (modeToDirentType d.type) c =
        .ok (false, { c with rc := some .EFAULT, mem := m }) ∧ ∀ a < c.userBuf, m.byte a = c.mem.byte a := by
  have hok := copyPieces_ok c.mem c.userBuf (d.pieces f)
  have hb := copyPieces_under c.mem c.userBuf (d.pieces f)
  cases hco : copyPieces c.userBuf (d.pieces f) c.mem with
  | mk r m =>
    rw [hco] at hok hb
    cases r with
    | ok u => exact absurd (hok.mp rfl) hc
    | error e =>
      obtain rfl : e = .EFAULT := copyPieces_error (by rw [hco])
      have hfi := fill_eq h
      rw [hco] at hfi
      refine ⟨m, ?_, hb⟩
      unfold getdentsCallback
      rw [get_bind, hfi]
      dsimp only
      rw [modify_bind, pure_run]

theorem callback_copied (h : d.len f ≤ c.nremaining) (hc : Copies c.mem.writable c.userBuf (d.pieces f)) :
    ∃ m, getdentsCallback (fill f) d.name (modeToDirentType d.type) c = .ok (true, c.advance (d.len f) m) ∧
      m.writable = c.mem.writable ∧ Holds m.byte c.userBuf (d.pieces f) ∧
      ∀ a < c.userBuf, m.byte a = c.mem.byte a := by
  have hok := (copyPieces_ok _ _ _).mpr hc
  have hw := copyPieces_writable c.mem c.userBuf (d.pieces f)
  have hh := copyPieces_holds (pieces_pairwise f d) hok
  have hb := copyPieces_under c.mem c.userBuf (d.pieces f)
  cases hco : copyPieces c.userBuf (d.pieces f) c.mem with
  | mk r m =>
    rw [hco] at hok hw hh hb
    have hfi := fill_eq h
    rw [hco, show r = .ok () from hok] at hfi
    refine ⟨m, ?_, hw, hh, hb⟩
    have hpos : d.len f ≠ 0 := (recLen_pos f d.name.length).ne'
    unfold getdentsCallback
    rw [get_bind, hfi]
    dsimp only
    rw [if_neg hpos, ensure_bind, if_pos h, modify_bind, pure_run]

end

/-! ## The loop -/

def Along (f : Format) (P : Nat → Dentry → Prop) : Nat → List Dentry → Prop
  | _, [] => True
  | p, d :: ds => P p d ∧ Along f P (p + d.len f) ds

instance Along.decidable {f : Format} {P : Nat → Dentry → Prop} [∀ p d, Decidable (P p d)] :
    ∀ (p : Nat) (ds : List Dentry), Decidable (Along f P p ds)
  | _, [] => .isTrue trivial
  | p, d :: ds =>
    have := Along.decidable (f := f) (P := P) (p + d.len f) ds
    inferInstanceAs (Decidable (P p d ∧ Along f P (p + d.len f) ds))

def fitting (f : Format) : Nat → List Dentry → List Dentry
  | _, [] => []
  | room, d :: ds => if room < d.len f then [] else d :: fitting f (room - d.len f) ds

def span (f : Format) (ds : List Dentry) : Nat := (ds.map (Dentry.len f)).sum

@[simp] theorem span_cons (f : Format) (d : Dentry) (ds : List Dentry) : span f (d :: ds) = d.len f + span f ds := by
  simp [span]

theorem span_eq_zero {ds : List Dentry} (h : span f ds = 0) : ds = [] := by
  cases ds with
  | nil => rfl
  | cons d ds =>
    have := recLen_pos f d.name.length
    rw [span_cons, Dentry.len] at h
    omega

theorem Along.take {P : Nat → Dentry → Prop} {ds : List Dentry} (h : Along f P p ds) (k : Nat) :
    Along f P p (ds.take k) := by
  induction ds generalizing p k with
  | nil =>
    rw [take_nil]
    trivial
  | cons d ds ih =>
    cases k with
    | zero => trivial
    | succ k => exact ⟨h.1, ih h.2 k⟩

theorem fitting_eq_take (f : Format) (room : Nat) (ds : List Dentry) :
    fitting f room ds = ds.take (fitting f room ds).length := by
  induction ds generalizing room with
  | nil => rfl
  | cons d ds ih =>
    rw [fitting]
    split
    · rfl
    · rw [length_cons, take_succ_cons, ← ih]

abbrev CopiesAll (f : Format) (w : Nat → Bool) : Nat → List Dentry → Prop := Along f fun p d => Copies w p (d.pieces f)

abbrev HoldsAll (f : Format) (byte : Nat → UInt8) : Nat → List Dentry → Prop := Along f fun p d => Holds byte p (d.pieces f)

inductive Stops (f : Format) (w : Nat → Bool) (p room n : Nat) (ds : List Dentry) (k : Nat) : Option Errno → Prop
  | atEnd : k = ds.length → Stops f w p room n ds k none
  | full : (fitting f room ds).length = k → k < ds.length →
      Stops f w p room n ds k (if n + span f (ds.take k) = 0 then some .EINVAL else none)
  | fault : k < (fitting f room ds).length → ¬ CopiesAll f w p ((fitting f room ds).take (k + 1)) →
      Stops f w p room n ds k (some .EFAULT)

structure Filled (f : Format) (c : FillDirCtx) (ds : List Dentry) (k : Nat) (c' : FillDirCtx) : Prop where
  le : k ≤ (fitting f c.nremaining ds).length
  copied : CopiesAll f c.mem.writable c.userBuf (ds.take k)
  stops : Stops f c.mem.writable c.userBuf c.nremaining c.nwritten ds k c'.rc
  nwritten : c'.nwritten = c.nwritten + span f (ds.take k)
  holds : HoldsAll f c'.mem.byte c.userBuf (ds.take k)
  below : ∀ a < c.userBuf, c'.mem.byte a = c.mem.byte a

section
variable {f : Format} {c c' : FillDirCtx} {d : Dentry} {ds : List Dentry} {k : Nat} {m : UserBytes}

theorem Stops.cons {w : Nat → Bool} {p room n : Nat} {rc : Option Errno} (hle : d.len f ≤ room)
    (h : Stops f w (p + d.len f) (room - d.len f) (n + d.len f) ds k rc) :
    Stops f w p room n (d :: ds) (k + 1) rc := by
  have hfit : fitting f room (d :: ds) = d :: fitting f (room - d.len f) ds := if_neg (not_lt.mpr hle)
  cases h with
  | atEnd hk => exact .atEnd (congrArg (· + 1) hk)
  | full hk hlt =>
    have : Stops f w p room n (d :: ds) (k + 1) (if n + span f ((d :: ds).take (k + 1)) = 0 then _ else _) :=
      .full (by rw [hfit, length_cons, hk]) (succ_lt_succ hlt)
    rwa [take_succ_cons, span_cons, ← add_assoc] at this
  | fault hk hn =>
    refine .fault (by rw [hfit]; exact succ_lt_succ hk) fun h => hn ?_
    rw [hfit, take_succ_cons] at h
    exact h.2

theorem Filled.cons (hle : d.len f ≤ c.nremaining) (hc : Copies c.mem.writable c.userBuf (d.pieces f))
    (hw : m.writable = c.mem.writable) (hh : Holds m.byte c.userBuf (d.pieces f))
    (hb : ∀ a < c.userBuf, m.byte a = c.mem.byte a) (h : Filled f (c.advance (d.len f) m) ds k c') :
    Filled f c (d :: ds) (k + 1) c' where
  le := by
    rw [fitting, if_neg (Nat.not_lt.mpr hle)]
    exact Nat.succ_le_succ h.le
  copied := ⟨hc, hw ▸ h.copied⟩
  stops := .cons hle (hw ▸ h.stops)
  nwritten := by
    rw [h.nwritten, take_succ_cons, span_cons, ← Nat.add_assoc]
    rfl
  holds := by
    refine ⟨fun q hq i hi => ?_, h.holds⟩
    have := pieces_within f d hq
    rw [h.below _ (show _ < c.userBuf + d.len f by omega)]
    exact hh q hq i hi
  below a ha := (h.below a (Nat.lt_add_right _ ha)).trans (hb a ha)

theorem dentryLoop_run (f : Format) (ds : List Dentry) (offset : Nat) (c : FillDirCtx) (hrc : c.rc = none) :
    ∃ k c', dentryLoop (getdentsCallback (fill f)) ds offset c = .ok (offset + k, c') ∧ Filled f c ds k c' := by
  induction ds generalizing offset c with
  | nil => exact ⟨0, c, pure_run _, le_rfl, trivial, hrc ▸ .atEnd rfl, rfl, trivial, fun _ _ => rfl⟩
  | cons d ds ih =>
    rw [dentryLoop]
    by_cases hro : c.nremaining < d.len f
    · have hfit : fitting f c.nremaining (d :: ds) = [] := if_pos hro
      refine ⟨0, _, (bind_run (callback_full hro)).trans (pure_run _), zero_le _, trivial, ?_, rfl, trivial,
        fun _ _ => rfl⟩
      have : Stops f c.mem.writable c.userBuf c.nremaining c.nwritten (d :: ds) 0 (if _ = 0 then _ else _) :=
        .full (by rw [hfit]; rfl) (succ_pos ds.length)
      simpa [hrc, span] using this
    · have hle := not_lt.mp hro
      by_cases hco : Copies c.mem.writable c.userBuf (d.pieces f)
      · obtain ⟨m, hrun, hw, hh, hb⟩ := callback_copied hle hco
        obtain ⟨k, c', hlo, hf⟩ := ih (offset + 1) (c.advance (d.len f) m) hrc
        refine ⟨k + 1, c', ?_, hf.cons hle hco hw hh hb⟩
        rw [bind_run hrun, if_pos rfl, hlo, add_assoc, add_comm 1 k]
      · obtain ⟨m, hrun, hb⟩ := callback_fault hle hco
        have hfit : fitting f c.nremaining (d :: ds) = d :: fitting f (c.nremaining - d.len f) ds := if_neg hro
        refine ⟨0, _, (bind_run hrun).trans (pure_run _), zero_le _, trivial, ?_, rfl, trivial, hb⟩
        refine .fault (by rw [hfit]; exact succ_pos _) fun h => hco ?_
        rw [hfit] at h
        exact h.1

theorem readRecords_of_holds {byte : Nat → UInt8} {p n : Nat} (h : HoldsAll f byte p ds) (hf : span f ds ≤ n) :
    readRecords f byte n p (span f ds) = ds.map (Dentry.record f) := by
  induction ds generalizing p n with
  | nil => cases n <;> rfl
  | cons d ds ih =>
    have hpos := recLen_pos f d.name.length
    change 0 < d.len f at hpos
    rw [span_cons] at hf ⊢
    obtain ⟨n, rfl⟩ : ∃ k, n = k + 1 := ⟨n - 1, by omega⟩
    rw [readRecords, if_neg (by omega), readRecord_of_holds h.1]
    dsimp only
    rw [Nat.add_sub_cancel_left, ih h.2 (by omega), map_cons]

end

/-! ## Sequences of calls -/

structure Call where
  format : Format
  userBuf : UInt32
  count : UInt32
  mem : UserBytes

def Call.run (dir : List Dentry) (offset : Nat) (c : Call) : Except Panic Listed :=
  match c.format with
  | .old => sysReaddir dir offset c.userBuf c.count c.mem
  | .dirent => sysGetdents dir offset c.userBuf c.count c.mem
  | .dirent64 => sysGetdents64 dir offset c.userBuf c.count c.mem

structure Reading where
  offset : Nat
  delivered : List Record
  deriving DecidableEq

def Reading.start : Reading := ⟨0, []⟩

def Reading.call (dir : List Dentry) (s : Reading) (c : Call) : Except Panic (Except Errno Nat × Reading) :=
  match c.run dir s.offset with
  | .error e => .error e
  | .ok l =>
    match l.rc with
    | .error e => .ok (.error e, ⟨l.offset, s.delivered⟩)
    | .ok n => .ok (.ok n, ⟨l.offset, s.delivered ++ readRecords c.format l.mem.byte n c.userBuf.toNat n⟩)

def Reading.Exact (dir : List Dentry) (s : Reading) : Prop :=
  s.offset ≤ dir.length ∧ List.Forall₂ (fun r d => r = d.record r.format) s.delivered (dir.take s.offset)

structure Sound (dir : List Dentry) (s t : Reading) (rc : Except Errno Nat) : Prop where
  exact : t.Exact dir
  complete : rc = .ok 0 → t.offset = dir.length
  unchanged : ∀ e, rc = .error e → t = s

/-- If the first record that fits into the buffer can be copied there, so can all of them. -/
def Call.Clean (dir : List Dentry) (offset : Nat) (c : Call) : Prop :=
  let ds := fitting c.format c.count.toNat (dir.drop offset)
  CopiesAll c.format c.mem.writable c.userBuf.toNat (ds.take 1) →
    CopiesAll c.format c.mem.writable c.userBuf.toNat ds

instance (dir : List Dentry) (offset : Nat) (c : Call) : Decidable (c.Clean dir offset) := by
  unfold Call.Clean
  infer_instance

theorem call_run (dir : List Dentry) (offset : Nat) (c : Call) :
    c.run dir offset = getdents dir offset c.userBuf.toNat c.count.toNat (fill c.format) c.mem := by
  unfold Call.run
  cases c.format <;> rfl

theorem Reading.call_outcome (dir : List Dentry) (s : Reading) (c : Call) :
    ∃ k ctx rc, Filled c.format ⟨c.userBuf.toNat, c.count.toNat, 0, none, c.mem⟩ (dir.drop s.offset) k ctx ∧
      rc = (match ctx.rc with | some e => .error e | none => .ok ctx.nwritten) ∧
      s.call dir c = .ok (rc, ⟨s.offset + k,
        s.delivered ++ if ctx.rc = none then ((dir.drop s.offset).take k).map (Dentry.record c.format) else []⟩) := by
  obtain ⟨k, ctx, hrun, hf⟩ := dentryLoop_run c.format (dir.drop s.offset) s.offset
    ⟨c.userBuf.toNat, c.count.toNat, 0, none, c.mem⟩ rfl
  refine ⟨k, ctx, _, hf, rfl, ?_⟩
  have hn : ctx.nwritten = span c.format ((dir.drop s.offset).take k) := by simpa using hf.nwritten
  have hre := readRecords_of_holds (n := ctx.nwritten) hf.holds (by rw [hn])
  rw [← hn] at hre
  unfold Reading.call
  rw [call_run, getdents, dentryGetdents, hrun]
  dsimp only
  cases hrc : ctx.rc with
  | some e => simp
  | none =>
    dsimp only
    rw [hre, if_pos rfl]

theorem Reading.Exact.extend {k : Nat} (h : s.Exact dir) (hk : k ≤ (dir.drop s.offset).length) :
    Reading.Exact dir ⟨s.offset + k, s.delivered ++ ((dir.drop s.offset).take k).map (Dentry.record f)⟩ := by
  refine ⟨by simp at hk; have := h.1; dsimp only; omega, ?_⟩
  rw [take_add]
  refine rel_append h.2 ?_
  rw [forall₂_map_left_iff]
  exact forall₂_same.mpr fun _ _ => rfl

theorem fitting_length_le (f : Format) (room : Nat) (ds : List Dentry) : (fitting f room ds).length ≤ ds.length := by
  rw [fitting_eq_take, length_take]
  exact min_le_right _ _

theorem Call.clean_of_copied {offset k : Nat} {c : Call}
    (hk : (fitting c.format c.count.toNat (dir.drop offset)).length = k)
    (h : CopiesAll c.format c.mem.writable c.userBuf.toNat ((dir.drop offset).take k)) : c.Clean dir offset := by
  intro _
  rwa [fitting_eq_take, hk]

theorem Reading.call_sound_iff (hs : s.Exact dir) (c : Call) :
    ∃ rc t, s.call dir c = .ok (rc, t) ∧ (Sound dir s t rc ↔ c.Clean dir s.offset) := by
  obtain ⟨k, ctx, rc, hf, hrc, hrun⟩ := s.call_outcome dir c
  refine ⟨rc, _, hrun, ?_⟩
  have hfit := fitting_length_le c.format c.count.toNat (dir.drop s.offset)
  have hle : k ≤ (fitting c.format c.count.toNat (dir.drop s.offset)).length := hf.le
  have hext := hs.extend (f := c.format) (hle.trans hfit)
  have hn : ctx.nwritten = span c.format ((dir.drop s.offset).take k) := by simpa using hf.nwritten
  generalize hr : ctx.rc = r at hrc hrun ⊢
  have hst := hf.stops
  rw [hr] at hst
  cases hst with
  | atEnd hk =>
    subst hrc
    refine iff_of_true ⟨by simpa using hext, fun _ => ?_, nofun⟩ (Call.clean_of_copied (by omega) hf.copied)
    rw [length_drop] at hk
    have := hs.1
    dsimp only
    omega
  | full hk hlt =>
    refine iff_of_true ?_ (Call.clean_of_copied hk hf.copied)
    rw [zero_add] at hrc ⊢
    by_cases h0 : span c.format ((dir.drop s.offset).take k) = 0
    · obtain rfl : k = 0 := by
        have := congrArg length (span_eq_zero h0)
        rw [length_take] at this
        simp only [length_nil] at this
        omega
      exact ⟨by simpa using hs, by subst hrc; rw [if_pos h0]; nofun, fun _ _ => by simp⟩
    · rw [if_neg h0]
      rw [if_neg h0, hn] at hrc
      exact ⟨by simpa using hext, fun h => absurd (Except.ok.inj (hrc.symm.trans h)) h0, by subst hrc; nofun⟩
  | fault hk hno =>
    subst hrc
    cases k with
    | zero => exact iff_of_true ⟨by simpa using hs, nofun, fun _ _ => by simp⟩ fun h => absurd h hno
    | succ k =>
      -- at least one entry is passed, although the call fails
      refine iff_of_false (fun h => ?_) fun h => hno ((h ?_).take _)
      · have := congrArg Reading.offset (h.unchanged _ rfl)
        dsimp only at this
        omega
      · have hpre : (fitting c.format c.count.toNat (dir.drop s.offset)).take 1 =
            ((dir.drop s.offset).take (k + 1)).take 1 := by
          rw [fitting_eq_take, take_take, take_take]
          congr 1
          omega
        rw [hpre]
        exact hf.copied.take 1

theorem Reading.start_exact (dir : List Dentry) : Reading.start.Exact dir := ⟨zero_le _, .nil⟩

theorem listing_exact (dir : List Dentry)
    (h : Run (fun s c t => ∃ rc, Reading.call dir s c = .ok (rc, t)) (fun s c => c.Clean dir s.offset) .start s) :
    s.Exact dir ∧ ∀ c, ∃ rc t, s.call dir c = .ok (rc, t) ∧ (Sound dir s t rc ↔ c.Clean dir s.offset) := by
  have hs : s.Exact dir := by
    refine h.invariant (Reading.start_exact dir) fun s c t hs ⟨rc, hrun⟩ hc => ?_
    obtain ⟨rc', t', hrun', hiff⟩ := Reading.call_sound_iff hs c
    cases hrun.symm.trans hrun'
    exact (hiff.mpr hc).exact
  exact ⟨hs, Reading.call_sound_iff hs⟩

/-! ## Two entries and a buffer that ends in the middle -/

def twoEntries : List Dentry := [⟨[97], .reg, by decide, by decide⟩, ⟨[98], .dir, by decide, by decide⟩]

def onePage : UserBytes := ⟨fun a => decide (0x1000 ≤ a ∧ a < 0x2000), fun _ => 0⟩

theorem listing_exact_twoEntries : ∃ s, Run (fun s c t => ∃ rc, Reading.call twoEntries s c = .ok (rc, t))
        (fun s c => c.Clean twoEntries s.offset) .start s ∧
      s.delivered = [⟨.dirent64, [97], some 8⟩, ⟨.dirent64, [98], some 4⟩] ∧ s.Exact twoEntries := by
  refine ⟨⟨2, [⟨.dirent64, [97], some 8⟩, ⟨.dirent64, [98], some 4⟩]⟩, ?_, rfl, (listing_exact twoEntries ?_).1⟩
  all_goals exact .tail (e := ⟨.dirent64, 0x1000, 64, onePage⟩) (.refl _) ⟨.ok 48, by decide +kernel⟩ (by decide +kernel)

/-- A record is written, the next one faults: the call fails, but the first entry is passed. -/
theorem getdents_fault_consumes :
    ∃ s, Reading.start.call twoEntries ⟨.dirent64, 0x1fe8, 48, onePage⟩ = .ok (.error .EFAULT, s) ∧
      s ≠ .start ∧ ¬ s.Exact twoEntries := by
  refine ⟨⟨1, []⟩, by decide +kernel, by decide, fun h => ?_⟩
  exact absurd h.2.length_eq (by decide)

end Yagura.Getdents
