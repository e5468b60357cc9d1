import Yagura.Getdents

/-!
# The records in the C library

`opendir` and `readdir` of the C library over `getdents`: the buffer of a `DIR`
is filled again when all its records have been read, and grown when a record
does not fit. `readdir` finds the name of a record, but takes the byte behind
the record for its type.
-/

namespace Yagura

namespace Readdir

open Getdents Option Prog

structure Dirent where
  name : List UInt8
  type : UInt8
  deriving DecidableEq

structure Dir where
  offset : Nat
  buf : UInt32
  bufCapacity : UInt32
  bufSize : Nat
  bufCursor : Nat
  mem : UserBytes

def opendir (bufCapacity : UInt32) (mem : UserBytes) : Dir := ⟨0, 0, bufCapacity, 0, 0, mem⟩

abbrev Realloc := UInt32 → UInt32 → UserBytes → Option (UInt32 × UserBytes)

def refill (realloc : Realloc) (dir : List Dentry) : (fuel : Nat) → Dir → Option (Option Dir)
  | 0, _ => none
  | k + 1, d =>
    match realloc d.buf d.bufCapacity d.mem with
    | none => some none
    | some (buf, mem) =>
      match sysGetdents dir d.offset buf d.bufCapacity mem with
      | .error _ => none
      | .ok l =>
        match l.rc with
        | .ok n =>
          if n = 0 then some none
          else some (some { d with offset := l.offset, buf := buf, bufSize := n, bufCursor := 0, mem := l.mem })
        | .error e =>
          if e = .EINVAL then
            refill realloc dir k
              { d with offset := l.offset, buf := buf, bufCapacity := d.bufCapacity * 2, mem := l.mem }
          else some none

/-- `name_size`; the difference is an unsigned number of 32 bits. -/
def nameSize (reclen : Nat) : Nat := min ((reclen + 2 ^ 32 - 2 - Format.dirent.nameOff) % 2 ^ 32) 256

def typeAt (byte : Nat → UInt8) (p : Nat) : Nat := p + Format.dirent.nameOff + nameSize (readU16 byte (p + 8)) + 2

def nameAt (byte : Nat → UInt8) (p : Nat) : List UInt8 := cString byte PATH_MAX (p + Format.dirent.nameOff)

def addresses (byte : Nat → UInt8) (p : Nat) : List Nat :=
  List.range' p Format.dirent.nameOff ++ List.range' (p + Format.dirent.nameOff) ((nameAt byte p).length + 1) ++
    [typeAt byte p]

def decode (byte : Nat → UInt8) (p : Nat) : Dirent :=
  ⟨(nameAt byte p).take (nameSize (readU16 byte (p + 8)) - 1), byte (typeAt byte p)⟩

inductive Outcome
  | null
  | entry (e : Dirent) (inside : Bool) (d : Dir)

/-- The record at the cursor; `inside` says that only bytes of the records in the buffer are read. -/
def next (d : Dir) : Outcome :=
  let p := d.buf.toNat + d.bufCursor
  .entry (decode d.mem.byte p) ((addresses d.mem.byte p).all fun a => d.buf.toNat ≤ a ∧ a < d.buf.toNat + d.bufSize)
    { d with bufCursor := d.bufCursor + readU16 d.mem.byte (p + 8) }

def readdir (realloc : Realloc) (dir : List Dentry) (fuel : Nat) (d : Dir) : Option Outcome :=
  if d.bufSize ≤ d.bufCursor then
    match refill realloc dir fuel d with
    | none => none
    | some none => some .null
    | some (some d) => some (next d)
  else some (next d)

def listAll (realloc : Realloc) (dir : List Dentry) : (fuel : Nat) → Dir → Option (List Dirent × Bool)
  | 0, _ => none
  | k + 1, d =>
    match readdir realloc dir k d with
    | none => none
    | some .null => some ([], true)
    | some (.entry e inside d) =>
      match listAll realloc dir k d with
      | none => none
      | some (es, b) => some (e :: es, inside && b)

/-! ## One record -/

section
variable {byte : Nat → UInt8} {p : Nat} {x : Dentry}

theorem readU16_of_holds (h : Holds byte p (x.pieces .dirent)) : readU16 byte (p + 8) = x.len .dirent :=
  congrArg Prod.snd (readRecord_of_holds h)

theorem nameAt_of_holds (h : Holds byte p (x.pieces .dirent)) : nameAt byte p = x.name :=
  congrArg (fun r => r.1.name) (readRecord_of_holds h)

theorem nameSize_len (hx : x.name.length ≤ 255) :
    nameSize (x.len .dirent) + 12 = x.len .dirent ∧ x.name.length < nameSize (x.len .dirent) := by
  have hlen : x.len .dirent = (10 + (x.name.length + 1) + 2 + 3) / 4 * 4 := rfl
  have hoff : Format.dirent.nameOff = 10 := rfl
  unfold nameSize
  omega

section
variable (h : Holds byte p (x.pieces .dirent)) (hx : x.name.length ≤ 255)
include h hx

theorem typeAt_of_holds : typeAt byte p = p + x.len .dirent := by
  have hsi := (nameSize_len hx).1
  unfold typeAt
  rw [readU16_of_holds h]
  show p + 10 + nameSize (x.len .dirent) + 2 = p + x.len .dirent
  omega

theorem decode_name : (decode byte p).name = x.name := by
  have hsi := (nameSize_len hx).2
  have hfi : x.name.length ≤ nameSize (x.len .dirent) - 1 := by omega
  unfold decode
  rw [nameAt_of_holds h, readU16_of_holds h, List.take_of_length_le hfi]

theorem decode_type : (decode byte p).type = byte (p + x.len .dirent) := by
  have hty : (decode byte p).type = byte (typeAt byte p) := rfl
  rw [hty, typeAt_of_holds h hx]

end

theorem byte_of_holds (h : Holds byte p (x.pieces .dirent)) : byte p = 0 :=
  h (0, Format.head .dirent x.name.length (modeToDirentType x.type)) (.head _) 0
    (by simp [Format.head])

theorem modeToDirentType_ne_zero (type : FileType) : modeToDirentType type ≠ 0 := by
  cases type <;> decide

end

/-! ## The buffer -/

structure Buffered (d : Dir) (ds : List Dentry) : Prop where
  holds : HoldsAll .dirent d.mem.byte (d.buf.toNat + d.bufCursor) ds
  size : d.bufSize = d.bufCursor + span .dirent ds

section
variable {realloc : Realloc} {dir ds : List Dentry} {d d' : Dir} {fuel : Nat}

theorem refill_some (h : refill realloc dir fuel d = some (some d')) :
    ∃ k, Buffered d' ((dir.drop d.offset).take k) ∧ (dir.drop d.offset).take k ≠ [] ∧ d'.offset = d.offset + k := by
  induction fuel generalizing d with
  | zero => cases h
  | succ fuel ih =>
    rw [refill] at h
    cases hr : realloc d.buf d.bufCapacity d.mem with
    | none =>
      rw [hr] at h
      cases h
    | some r =>
      obtain ⟨buf, mem⟩ := r
      obtain ⟨k, ctx, hrun, hf⟩ := dentryLoop_run .dirent (dir.drop d.offset) d.offset
        ⟨buf.toNat, d.bufCapacity.toNat, 0, none, mem⟩ rfl
      have hn : ctx.nwritten = span .dirent ((dir.drop d.offset).take k) := by simpa using hf.nwritten
      simp only [hr, sysGetdents, getdents, dentryGetdents, fillDir, hrun] at h
      cases hrc : ctx.rc with
      | none =>
        simp only [hrc] at h
        split at h
        · cases h
        · rename_i hpos
          obtain rfl := some.inj (some.inj h)
          refine ⟨k, ⟨hf.holds, by rw [Nat.zero_add]; exact hn⟩, fun hnil => hpos ?_, rfl⟩
          rw [hn, hnil]
          rfl
      | some e =>
        simp only [hrc] at h
        split at h
        · -- nothing has been passed
          rename_i hei
          have hk : k = 0 := by
            have hst := hf.stops
            generalize ctx.rc = r at hst hrc
            cases hst with
            | atEnd => cases hrc
            | full hk hlt =>
              by_cases hze : 0 + span .dirent ((dir.drop d.offset).take k) = 0
              · have hsp : span .dirent ((dir.drop d.offset).take k) = 0 := by omega
                have hlen := congrArg List.length (span_eq_zero hsp)
                rw [List.length_take, List.length_nil] at hlen
                omega
              · rw [if_neg hze] at hrc
                cases hrc
            | fault =>
              subst hei
              cases hrc
          subst hk
          obtain ⟨j, hbuf, hne, hof⟩ := ih h
          exact ⟨j, hbuf, hne, hof⟩
        · cases h

/-- `readdir` returns the next entry with its name. The type is read outside the records, or it is zero. -/
theorem next_spec {x : Dentry} (h : Buffered d (x :: ds)) (hx : x.name.length ≤ 255) :
    ∃ e b d', next d = .entry e b d' ∧ Buffered d' ds ∧ d'.offset = d.offset ∧ e.name = x.name ∧
      (b = true → e.type = 0) := by
  obtain ⟨⟨hrec, hre⟩, hsi⟩ := h
  refine ⟨_, _, _, rfl, ⟨?_, ?_⟩, rfl, decode_name hrec hx, fun hin => ?_⟩
  · rw [readU16_of_holds hrec, ← Nat.add_assoc]
    exact hre
  · rw [readU16_of_holds hrec, hsi, span_cons, Nat.add_assoc]
  · have hla := List.all_eq_true.mp hin (typeAt d.mem.byte (d.buf.toNat + d.bufCursor)) (by simp [addresses])
    rw [decode_type hrec hx]
    rw [typeAt_of_holds hrec hx] at hla
    cases ds with
    | nil =>
      have hsp : span .dirent [x] = x.len .dirent := by simp [span]
      have := (of_decide_eq_true hla).2
      omega
    | cons y ds => exact byte_of_holds hre.1

theorem readdir_spec (hds : ∀ x ∈ ds ++ dir.drop d.offset, x.name.length ≤ 255) (h : Buffered d ds) {e : Dirent}
    {b : Bool} (hr : readdir realloc dir fuel d = some (.entry e b d')) :
    ∃ x ds', ds ++ dir.drop d.offset = x :: (ds' ++ dir.drop d'.offset) ∧ Buffered d' ds' ∧ e.name = x.name ∧
      (b = true → e.type = 0) := by
  unfold readdir at hr
  cases ds with
  | cons x ds =>
    have hlen := recLen_pos .dirent x.name.length
    have hsi := h.size
    rw [span_cons] at hsi
    have hmo : ¬d.bufSize ≤ d.bufCursor := by
      change 0 < x.len .dirent at hlen
      omega
    rw [if_neg hmo] at hr
    obtain ⟨e', b', d'', hnx, hbuf, hof, hna, hty⟩ := next_spec h (hds x List.mem_cons_self)
    rw [hnx] at hr
    obtain ⟨rfl, rfl, rfl⟩ := Outcome.entry.inj (some.inj hr)
    exact ⟨x, ds, by rw [hof, List.cons_append], hbuf, hna, hty⟩
  | nil =>
    have hem : d.bufSize ≤ d.bufCursor := by
      have hsi := h.size
      exact hsi.le
    rw [if_pos hem] at hr
    cases hfi : refill realloc dir fuel d with
    | none =>
      rw [hfi] at hr
      cases hr
    | some r =>
      cases r with
      | none =>
        rw [hfi] at hr
        cases hr
      | some d₁ =>
        simp only [hfi] at hr
        obtain ⟨k, hbuf1, hne, hof1⟩ := refill_some hfi
        obtain ⟨x, ds', hco⟩ := List.exists_cons_of_ne_nil hne
        rw [hco] at hbuf1
        have hx : x ∈ dir.drop d.offset := List.mem_of_mem_take (hco ▸ List.mem_cons_self)
        obtain ⟨e', b', d'', hnx, hbuf, hof, hna, hty⟩ := next_spec hbuf1 (hds x hx)
        rw [hnx] at hr
        obtain ⟨rfl, rfl, rfl⟩ := Outcome.entry.inj (some.inj hr)
        refine ⟨x, ds', ?_, hbuf, hna, hty⟩
        rw [List.nil_append, ← List.take_append_drop k (dir.drop d.offset), hco, hof, hof1, List.drop_drop]
        rfl

theorem listAll_spec {es : List Dirent} {b : Bool} (hds : ∀ x ∈ ds ++ dir.drop d.offset, x.name.length ≤ 255)
    (h : Buffered d ds) (hl : listAll realloc dir fuel d = some (es, b)) :
    es.map Dirent.name <+: (ds ++ dir.drop d.offset).map Dentry.name ∧ (b = true → ∀ e ∈ es, e.type = 0) := by
  induction fuel generalizing d ds es b with
  | zero => cases hl
  | succ fuel ih =>
    rw [listAll] at hl
    cases hr : readdir realloc dir fuel d with
    | none =>
      rw [hr] at hl
      cases hl
    | some o =>
      cases o with
      | null =>
        rw [hr] at hl
        obtain ⟨rfl, rfl⟩ := Prod.mk.inj (some.inj hl)
        exact ⟨List.nil_prefix, nofun⟩
      | entry e inside d' =>
        obtain ⟨x, ds', hco, hbuf, hna, hty⟩ := readdir_spec hds h hr
        rw [hco] at hds ⊢
        simp only [hr] at hl
        cases hre : listAll realloc dir fuel d' with
        | none =>
          rw [hre] at hl
          cases hl
        | some r =>
          rw [hre] at hl
          obtain ⟨rfl, rfl⟩ := Prod.mk.inj (some.inj hl)
          obtain ⟨hpre, htp⟩ := ih (fun y hy => hds y (List.mem_cons_of_mem x hy)) hbuf hre
          refine ⟨?_, fun hb => ?_⟩
          · rw [List.map_cons, List.map_cons, hna]
            exact List.prefix_cons_inj _ |>.mpr hpre
          · obtain ⟨hin, hb'⟩ := Bool.and_eq_true_iff.mp hb
            exact List.forall_mem_cons.mpr ⟨hty hin, htp hb'⟩

end

/-! ## Directories -/

def dirent (x : Dentry) : Dirent := ⟨x.name, modeToDirentType x.type⟩

def Agrees (realloc : Realloc) (dir : List Dentry) (bufCapacity : UInt32) (mem : UserBytes) : Prop :=
  ∃ fuel, listAll realloc dir fuel (opendir bufCapacity mem) = some (dir.map dirent, true)

theorem opendir_buffered (bufCapacity : UInt32) (mem : UserBytes) : Buffered (opendir bufCapacity mem) [] :=
  ⟨trivial, rfl⟩

theorem listAll_nil (realloc : Realloc) (bufCapacity : UInt32) (mem : UserBytes) :
    listAll realloc [] 2 (opendir bufCapacity mem) = some ([], true) := by
  have hfi : refill realloc [] 1 (opendir bufCapacity mem) = some none := by
    rw [refill]
    split
    · rfl
    · rename_i buf mem' _
      have hget : sysGetdents [] (opendir bufCapacity mem).offset buf (opendir bufCapacity mem).bufCapacity mem' =
          .ok ⟨.ok 0, 0, mem'⟩ := by
        unfold sysGetdents getdents dentryGetdents
        rw [List.drop_nil, dentryLoop, pure_run]
        rfl
      rw [hget]
      rfl
  have hre : readdir realloc [] 1 (opendir bufCapacity mem) = some .null := by
    unfold readdir
    have hem : (opendir bufCapacity mem).bufSize ≤ (opendir bufCapacity mem).bufCursor := Nat.le_refl 0
    rw [if_pos hem, hfi]
  rw [listAll, hre]

section
variable {realloc : Realloc} {dir : List Dentry} {bufCapacity : UInt32} {mem : UserBytes}

theorem listed_spec (hdir : ∀ x ∈ dir, x.name.length ≤ 255) {fuel : Nat} {es : List Dirent} {b : Bool}
    (h : listAll realloc dir fuel (opendir bufCapacity mem) = some (es, b)) :
    es.map Dirent.name <+: dir.map Dentry.name ∧ (b = true → ∀ e ∈ es, e.type = 0) :=
  listAll_spec hdir (opendir_buffered bufCapacity mem) h

theorem Agrees.eq_nil (h : Agrees realloc dir bufCapacity mem) (hdir : ∀ x ∈ dir, x.name.length ≤ 255) : dir = [] := by
  obtain ⟨fuel, hli⟩ := h
  cases dir with
  | nil => rfl
  | cons x dir =>
    have hze := (listed_spec hdir hli).2 rfl (dirent x) (.head _)
    exact absurd hze (modeToDirentType_ne_zero x.type)

end

theorem readdir_agrees_iff (realloc : Realloc) (dir : List Dentry) (hdir : ∀ x ∈ dir, x.name.length ≤ 255)
    (bufCapacity : UInt32) (mem : UserBytes) :
    (Agrees realloc dir bufCapacity mem ↔ dir = []) ∧
      ∀ fuel es b, listAll realloc dir fuel (opendir bufCapacity mem) = some (es, b) →
        es.map Dirent.name <+: dir.map Dentry.name := by
  refine ⟨⟨fun h => h.eq_nil hdir, ?_⟩, fun fuel es b h => (listed_spec hdir h).1⟩
  rintro rfl
  exact ⟨2, listAll_nil realloc bufCapacity mem⟩

def zeros : UserBytes := ⟨fun _ => true, fun _ => 0⟩

def oneBuffer : Realloc := fun _ _ mem => some (0x1000, mem)

theorem twoEntries_short : ∀ x ∈ twoEntries, x.name.length ≤ 255 := by decide

theorem readdir_agrees_iff_twoEntries :
    (∀ x ∈ twoEntries, x.name.length ≤ 255) ∧ (Agrees oneBuffer twoEntries 1024 zeros ↔ twoEntries = []) :=
  ⟨twoEntries_short, (readdir_agrees_iff oneBuffer twoEntries twoEntries_short 1024 zeros).1⟩

/-- A regular file and a directory are both listed with type zero, the second from a byte behind the records. -/
theorem readdir_twoEntries :
    listAll oneBuffer twoEntries 4 (opendir 1024 zeros) = some ([⟨[97], 0⟩, ⟨[98], 0⟩], false) ∧
      twoEntries.map dirent = [⟨[97], 8⟩, ⟨[98], 4⟩] ∧ ¬Agrees oneBuffer twoEntries 1024 zeros := by
  refine ⟨by decide +kernel, by decide, fun h => ?_⟩
  have hnil := h.eq_nil twoEntries_short
  cases hnil

end Readdir

end Yagura
