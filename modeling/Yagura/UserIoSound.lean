import Yagura.UserIo

/-!
# Buffers that are mapped while a call lasts

If at every access of a call the buffer lies in present pages, writable ones
where the call writes to it, no access of the call faults. `/dev/random` needs
the whole words around the buffer, a disk needs it in one physical stretch.
-/

namespace Yagura.UserIo

open Prog

variable {pages : Nat → UserPages} {write : Bool} {lo n : Nat} {α β : Type}

def Present (pages : Nat → UserPages) (write : Bool) (lo n : Nat) : Prop :=
  ∀ t, ∀ i < n, ((pages t).locate write (lo + i)).isSome = true

/-- At every access of the call `buf` has the same physical address, and the rest of the buffer lies behind it. -/
def OneStretch (pages : Nat → UserPages) (write : Bool) (buf count : Nat) : Prop :=
  ∃ phys, ∀ t, (pages t).locate false buf = some phys ∧ ∀ i < count, (pages t).locate write (buf + i) = some (phys + i)

theorem Present.sub {lo' n' : Nat} (h : Present pages write lo n) (hlo : lo ≤ lo') (hn : lo' + n' ≤ lo + n) :
    Present pages write lo' n' := by
  intro t i hi
  have := h t (lo' - lo + i) (by omega)
  rwa [show lo + (lo' - lo + i) = lo' + i by omega] at this

theorem Present.take {m : Nat} (h : Present pages write lo n) (hm : m ≤ n) : Present pages write lo m :=
  h.sub le_rfl (by omega)

theorem Present.drop (m : Nat) (h : Present pages write lo n) : Present pages write (lo + m) (n - m) := by
  intro t i hi
  rw [Nat.add_assoc]
  exact h t (m + i) (by omega)

theorem locate_false {p : UserPages} {a phys : Nat} (h : p.locate write a = some phys) :
    p.locate false a = some phys := by
  unfold UserPages.locate at h ⊢
  split at h
  · cases h
  · split_ifs at h with hw
    simpa using h

theorem OneStretch.drop {m : Nat} (h : OneStretch pages write lo n) (hm : m < n) :
    OneStretch pages write (lo + m) (n - m) := by
  obtain ⟨phys, h⟩ := h
  refine ⟨phys + m, fun t => ⟨locate_false ((h t).2 m hm), fun i hi => ?_⟩⟩
  rw [Nat.add_assoc, Nat.add_assoc]
  exact (h t).2 (m + i) (by omega)

/-! ## Rules -/

/-- Whatever `x` does, it does not fail on the user's buffer. -/
def Spares (pages : Nat → UserPages) (x : IoProg α) : Prop :=
  ∀ s, s.pages = pages → Ends (fun e => ¬ e.onBuffer) x s fun _ t => t.pages = pages

namespace Spares

theorem pure (a : α) : Spares pages (pure a : IoProg α) := fun _ hs => .pure hs

theorem trap {e : IoTrap} (he : ¬ e.onBuffer) : Spares pages (trap e : IoProg α) := fun _ _ => .trap he

theorem bind {x : IoProg α} {f : α → IoProg β} (hx : Spares pages x) (hf : ∀ a, Spares pages (f a)) :
    Spares pages (x >>= f) :=
  fun s hs => .bind (hx s hs) fun a t ht => hf a t ht

theorem get : Spares pages (get : IoProg UserMem) := fun _ hs => .of_ok rfl hs

theorem modify {g : UserMem → UserMem} (hg : ∀ s, (g s).pages = s.pages) : Spares pages (modify g : IoProg Unit) :=
  fun s hs => .modify ((hg s).trans hs)

theorem ensure {p : Prop} [Decidable p] : Spares pages (ensure p .kernel : IoProg Unit) := by
  intro s hs
  by_cases hp : p
  · exact .of_ok (if_pos hp) hs
  · exact .of_error (if_neg hp) id

theorem ite {p : Prop} [Decidable p] {x y : IoProg α} (hx : Spares pages x) (hy : Spares pages y) :
    Spares pages (if p then x else y) := by
  split
  · exact hx
  · exact hy

theorem forUp {body : Nat → IoProg Unit} {k i : Nat} (hb : ∀ j < i + k, Spares pages (body j)) :
    Spares pages (forUp body k i) := by
  induction k generalizing i with
  | zero => exact .pure ()
  | succ k ih => exact .bind (hb i (by omega)) fun _ => ih fun j hj => hb j (by omega)

/-- What holds of the page tables at every access holds of the ones looked at. -/
theorem tables {P : UserPages → Prop} {f : UserPages → IoProg α} (hP : ∀ t, P (pages t))
    (hf : ∀ p, P p → Spares pages (f p)) : Spares pages (tables >>= f) := by
  intro s hs
  refine .bind (P := fun p t => P p ∧ t.pages = pages) ?_ fun p t h => hf p h.1 t h.2
  unfold UserIo.tables
  exact .get (.modify_bind (.pure ⟨hs ▸ hP s.accesses, hs⟩))

theorem load {a : Nat} (h : Present pages false lo n) (ha : lo ≤ a) (hn : a < lo + n) : Spares pages (load a) := by
  refine .tables (P := fun p => (p.locate false a).isSome = true) (fun t => ?_) fun p hp => ?_
  · have := h t (a - lo) (by omega)
    rwa [Nat.add_sub_cancel' ha] at this
  · obtain ⟨phys, hphys⟩ := Option.isSome_iff_exists.mp hp
    rw [hphys]
    exact .bind .get fun _ => .pure _

theorem store {a : Nat} {b : UInt8} (h : Present pages true lo n) (ha : lo ≤ a) (hn : a < lo + n) :
    Spares pages (store a b) := by
  refine .tables (P := fun p => (p.locate true a).isSome = true) (fun t => ?_) fun p hp => ?_
  · have := h t (a - lo) (by omega)
    rwa [Nat.add_sub_cancel' ha] at this
  · obtain ⟨phys, hphys⟩ := Option.isSome_iff_exists.mp hp
    rw [hphys]
    exact .modify fun _ => rfl

theorem copyOut {src : Nat → UInt8} (h : Present pages true lo n) : Spares pages (copyOut lo src n) :=
  .forUp fun _ _ => .store h (by omega) (by omega)

theorem copyIn (h : Present pages false lo n) : Spares pages (copyIn lo n) :=
  .forUp fun _ _ => .bind (.load h (by omega) (by omega)) fun _ => .pure ()

theorem serialWrite (h : Present pages false lo n) : Spares pages (serialWrite lo n) :=
  .forUp fun _ _ => .bind (.load h (by omega) (by omega)) fun _ => .bind (.load h (by omega) (by omega)) fun _ => .pure ()

theorem rounds {ρ : Type} {body : ρ → IoProg (Option IoResult)} (hb : ∀ r, Spares pages (body r)) (rs : List ρ) :
    Spares pages (rounds body rs) := by
  induction rs with
  | nil => exact .trap id
  | cons r rs ih =>
    refine .bind (hb r) fun v => ?_
    cases v with
    | none => exact ih
    | some v => exact .pure v

/-- A round that `file_block` let through. -/
theorem round {rc : Option Errno} {x : IoProg (Option IoResult)} (hx : Spares pages x) :
    Spares pages (match rc with | some e => Pure.pure (some (.error e)) | none => x) := by
  cases rc with
  | none => exact hx
  | some e => exact .pure _

/-! ## File operations -/

section
variable {buf count : Nat}

theorem vecPread (v : Vec) (offset : Nat) (h : Present pages true buf count) :
    Spares pages (vecPread v buf count offset) := by
  unfold UserIo.vecPread
  refine .ite (.pure _) (.bind (.forUp fun j hj => .bind .ensure fun _ => .store h (by omega) ?_) fun _ => .pure _)
  split_ifs at hj with hend
  · have := Nat.mod_le (v.size - offset) (2 ^ 32)
    have := Nat.mod_le (offset + count) (2 ^ 64)
    omega
  · omega

theorem vecPwrite (v : Vec) (mem : Realloc) (offset : Nat) (h : Present pages false buf count) :
    Spares pages (vecPwrite v mem buf count offset) := by
  unfold UserIo.vecPwrite
  split
  · exact .trap id
  · exact .pure _
  · exact .bind (.forUp fun _ _ => .bind (.load h (by omega) (by omega)) fun _ => .ensure) fun _ => .pure _

theorem ringBufRead {k : Nat} (b : RingBuf UInt8) (h : Present pages true buf count) (hk : n + k ≤ count) :
    Spares pages (ringBufRead buf k n b) := by
  induction k generalizing n b with
  | zero => exact .pure n
  | succ k ih => exact .bind (.store h (by omega) (by omega)) fun _ => .ite (.pure _) (ih _ (by omega))

theorem ringBufWrite {k : Nat} (b : RingBuf UInt8) (h : Present pages false buf count) (hk : n + k ≤ count) :
    Spares pages (ringBufWrite buf k n b) := by
  induction k generalizing n b with
  | zero => exact .pure n
  | succ k ih => exact .bind (.load h (by omega) (by omega)) fun _ => .ite (.pure _) (ih _ (by omega))

theorem fifoPread (rs : List FifoRound) (h : Present pages true buf count) : Spares pages (fifoPread rs buf count) := by
  refine .rounds (fun r => .round (.ite (.bind ?_ fun _ => .pure _) (.ite (.pure _) (.pure _)))) rs
  exact .ringBufRead r.buf h (by omega)

theorem fifoPwrite (rs : List FifoRound) (h : Present pages false buf count) : Spares pages (fifoPwrite rs buf count) := by
  refine .rounds (fun r => .round (.ite (.pure _) (.ite (.pure _) (.bind ?_ fun _ => .pure _)))) rs
  exact .ringBufWrite r.buf h (by omega)

theorem unixSocketPread (c k : Bool) (rs : List SocketRound) (h : Present pages true buf count) :
    Spares pages (unixSocketPread c k rs buf count) := by
  refine .ite (.pure _) (.rounds (fun r => .round (.ite (.bind ?_ fun _ => .pure _) (.ite (.pure _) (.pure _)))) rs)
  exact .ringBufRead r.buf h (by omega)

theorem unixSocketPwrite (c k : Bool) (rs : List SocketRound) (h : Present pages false buf count) :
    Spares pages (unixSocketPwrite c k rs buf count) := by
  refine .ite (.pure _) (.rounds (fun r => .round (.ite (.pure _) (.ite (.pure _) (.bind ?_ fun _ => .pure _)))) rs)
  exact .ringBufWrite r.buf h (by omega)

theorem ttyCopy (stack : UInt8) {fuel ret left : Nat} (b : RingBuf UInt8) (h : Present pages true buf count)
    (hl : ret + left ≤ count) : Spares pages (ttyCopy stack buf fuel ret left b) := by
  induction fuel generalizing ret left b with
  | zero =>
    cases left with
    | zero => exact .pure ret
    | succ left => exact .trap id
  | succ fuel ih =>
    cases left with
    | zero => exact .pure ret
    | succ left =>
      refine .ite (.bind (.store h (by omega) (by omega)) fun _ => .ite (.pure _) (ih _ (by omega))) ?_
      exact .ite (.pure _) (ih _ hl)

theorem ttyPread (rs : List TtyRound) (h : Present pages true buf count) : Spares pages (ttyPread rs buf count) := by
  refine .rounds (fun r => .round (.ite (.pure _) (.bind ?_ fun _ => .pure _))) rs
  exact .ttyCopy r.stack r.buf h (by omega)

theorem ttyPwrite (opost : Bool) (dev : Option EchoTo) (h : Present pages false buf count) :
    Spares pages (ttyPwrite opost dev buf count) := by
  refine .ite (.bind ?_ fun _ => .pure _) (.bind (.copyIn h) fun _ => .pure _)
  obtain _ | _ | _ := dev
  · exact .pure ()
  · exact .serialWrite h
  · exact .copyIn h

theorem fillEdge {word : Option Nat} (h : Present pages true lo n) : Spares pages (fillEdge word lo n) := by
  refine .ite ?_ (.pure _)
  cases word with
  | none => exact .pure _
  | some v => exact .bind (.copyOut h) fun _ => .pure _

theorem fillWords (words : Nat → Option Nat) {k i p : Nat} (h : Present pages true lo n) (hp : lo ≤ p)
    (hk : p + 4 * k ≤ lo + n) : Spares pages (fillWords words k i p) := by
  induction k generalizing i p with
  | zero => exact .pure _
  | succ k ih =>
    unfold UserIo.fillWords
    cases words i with
    | none => exact .pure _
    | some v => exact .bind (.copyOut (h.sub hp (by omega))) fun _ => ih (by omega) (by omega)

/-- The first and the last piece are filled even where they reach out of the buffer. -/
theorem randomGet (words : Nat → Option Nat)
    (h : Present pages true (buf / 4 * 4) ((buf + count + 3) / 4 * 4 - buf / 4 * 4)) :
    Spares pages (randomGet words buf count) := by
  unfold UserIo.randomGet
  refine .bind (.fillEdge (h.sub (by omega) (by omega))) fun _ => .ite (.pure _) ?_
  refine .bind ?_ fun _ => .ite (.pure _) (.bind (.fillEdge (h.sub (by omega) (by omega))) fun _ => .ite (.pure _) (.pure _))
  by_cases hle : (buf + 3) / 4 * 4 ≤ (buf + count) / 4 * 4
  · exact .fillWords words h (by omega) (by omega)
  · rw [show ((buf + count) / 4 * 4 - (buf + 3) / 4 * 4) / 4 = 0 by omega]
    exact .pure _

theorem kmsgPread (log : Option KmsgCopy) (offset : Nat) (h : Present pages true buf count) :
    Spares pages (kmsgPread log buf count offset) := by
  unfold UserIo.kmsgPread
  cases log with
  | none => exact .pure _
  | some kmsg =>
    refine .ite (.pure _) (.bind (.copyOut (h.take ?_)) fun _ => .pure _)
    split_ifs
    · have := Nat.mod_le (offset + count) (2 ^ 64)
      omega
    · exact le_rfl

theorem eventCopy {size : Nat} (queue : List (Nat → UInt8)) {nread : Nat} (h : Present pages true lo n) :
    Spares pages (eventCopy size queue lo n nread) := by
  induction queue generalizing lo n nread with
  | nil => exact .pure _
  | cons e queue ih =>
    unfold UserIo.eventCopy
    split_ifs with hle
    · exact .pure _
    · exact .bind (.copyOut (h.take (by omega))) fun _ => ih (h.drop size)

theorem eventPread (size : Nat) (rs : List EventRound) (h : Present pages true buf count) :
    Spares pages (eventPread size rs buf count) := by
  refine .rounds (fun r => .round (.ite (.pure _) (.bind ?_ fun _ => .pure _))) rs
  exact .eventCopy r.queue h

theorem ac97DevicePwrite (wait : Nat → Option Errno) (i nwritten : Nat) (h : Present pages false lo n) :
    Spares pages (ac97DevicePwrite wait i lo n nwritten) := by
  induction n using Nat.strong_induction_on generalizing i lo nwritten with
  | _ n ih =>
    unfold UserIo.ac97DevicePwrite
    split_ifs with h0
    · exact .pure _
    · split
      · exact .pure _
      · refine .bind (.copyIn (h.take (Nat.min_le_right _ _))) fun _ => ih _ ?_ _ _ (h.drop _)
        unfold PAGE_SIZE
        omega

theorem dma {phys : Nat} {data : Nat → UInt8} (h : ∀ t, ∀ i < n, (pages t).locate write (lo + i) = some (phys + i)) :
    Spares pages (dma write phys lo data n) := by
  refine .forUp fun i hi => .tables (P := fun p => p.locate write (lo + i) = some (phys + i))
    (fun t => h t i (by omega)) fun p hp => ?_
  refine .bind (fun s hs => .of_ok (if_pos hp) hs) fun _ => ?_
  split_ifs
  · exact .modify fun _ => rfl
  · exact .pure ()

theorem submitRequest (d : VirtioBlk) (h : OneStretch pages write lo n) (hn : count ≤ n) :
    Spares pages (submitRequest d write lo count) := by
  obtain ⟨phys, h⟩ := h
  refine .rounds (fun r => .round (.ite (.pure _) ?_)) d.rounds
  refine .tables (P := fun p => p.locate false lo = some phys) (fun t => (h t).1) fun p hp => ?_
  rw [hp]
  refine .bind (.dma fun t i hi => (h t).2 i (by omega)) fun _ => ?_
  cases d.status with
  | none => exact .pure _
  | some e => exact .pure _

theorem virtioBlkDoIo (d : VirtioBlk) (offset : Nat) (h : OneStretch pages write buf count) :
    Spares pages (virtioBlkDoIo d write buf count offset) :=
  .ite (.pure _) (.ite (.pure _) (.ite (.pure _) (.submitRequest d h (Nat.min_le_left _ _))))

end

end Spares

/-! ## Files -/

/-- What a call that reads from a file (`write`: it writes to the buffer) or writes to it needs of the page tables. -/
def Inode.Ready (pages : Nat → UserPages) (write : Bool) (buf count : Nat) : Inode → Prop
  | .random _ => write = true → Present pages true (buf / 4 * 4) ((buf + count + 3) / 4 * 4 - buf / 4 * 4)
  | .virtioBlk _ => OneStretch pages write buf count
  | .systemConsole active => active.Ready pages write buf count
  | _ => Present pages write buf count

theorem Inode.Ready.drop {k : Inode} {buf count m : Nat} (h : k.Ready pages write buf count) (hm : m < count) :
    k.Ready pages write (buf + m) (count - m) := by
  induction k with
  | random words => exact fun hw => (h hw).sub (by omega) (by omega)
  | virtioBlk d => exact OneStretch.drop h hm
  | systemConsole active ih => exact ih h
  | _ => exact Present.drop m h

section
variable {op : Nat → FileOperation} {isSeekable : Bool} {buf count : Nat}

end

def IoFile.Ready (f : IoFile) (pages : Nat → UserPages) (write : Bool) (buf count : Nat) : Prop :=
  ∀ i, (f.inode i).Ready pages write buf count

/-- Every buffer of the call is mapped as the file needs it. -/
def IoCall.Ready (f : IoFile) (pages : Nat → UserPages) : IoCall → Prop
  | .read buf count | .pread64 buf count _ => f.Ready pages true buf count
  | .write buf count | .pwrite64 buf count _ => f.Ready pages false buf count
  | .readv _ iovcnt iov => ∀ j < iovcnt.toNat, ∀ base len, iov j = some (base, len) → f.Ready pages true base len
  | .writev _ iovcnt iov => ∀ j < iovcnt.toNat, ∀ base len, iov j = some (base, len) → f.Ready pages false base len

/-- Page 1 is writable at every access; all else may come and go. -/
def onePage : UserMem := ⟨fun t p => if p = 1 ∨ p = t then some ⟨9, true⟩ else none, 0, fun _ => 0⟩

instance decidableError {ε α : Type} [DecidableEq ε] (e : ε) : DecidablePred fun r : Except ε α => r = .error e
  | .ok _ => isFalse nofun
  | .error e' => decidable_of_iff (e' = e) ⟨congrArg _, Except.error.inj⟩

end Yagura.UserIo
