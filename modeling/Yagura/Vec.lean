import Yagura.Paging
import Yagura.Trans

/-!
# Growable buffers

`containers/vec.c`, which holds the contents of files. Offsets and sizes are
64-bit, but addresses, counts and the capacity `krealloc` is asked for are
32-bit; every conversion is written out. A byte of the buffer is named by its
distance from `data`, modulo 2³². Copying to or from a byte outside the buffer
is a fault.
-/

namespace Yagura

open Nat Prog

@[ext] structure Vec where
  capacity : Nat
  size : Nat
  bytes : Nat → UInt8

abbrev Realloc := Option (Nat → UInt8)

abbrev VecProg := Prog Vec Trap

namespace Vec

def empty (bytes : Nat → UInt8) : Vec := ⟨0, 0, bytes⟩

/-! ## The functions -/

def access (k n : Nat) : VecProg Unit := do
  let v ← get
  ensure (n = 0 ∨ k + n ≤ v.capacity) .fault

def memset (k n : Nat) : VecProg Unit := do
  access k n
  modify fun v => { v with bytes := fun i => if k ≤ i ∧ i < k + n then 0 else v.bytes i }

def memcpy (src : Nat → UInt8) (k n : Nat) : VecProg Unit := do
  access k n
  modify fun v => { v with bytes := fun i => if k ≤ i ∧ i < k + n then src (i - k) else v.bytes i }

def vecPread (count offset : Nat) : VecProg (List UInt8) := do
  let v ← get
  if v.size ≤ offset then pure []
  else
    let count := if v.size ≤ (offset + count) % 2 ^ 64 then (v.size - offset) % 2 ^ 32 else count
    access (offset % 2 ^ 32) count
    pure ((List.range count).map fun i => v.bytes (offset % 2 ^ 32 + i))

def newCapacity (v : Vec) (requested : Nat) : Nat :=
  let c := max (v.capacity * 2 % 2 ^ 32) requested
  roundUp (if c = 0 then PAGE_SIZE else c)

def growCapacity (mem : Realloc) (requested : Nat) : VecProg (Except Errno Unit) := do
  let v ← get
  if v.capacity * 2 % 2 ^ 32 < v.capacity then pure (.error .EOVERFLOW)
  else if v.newCapacity requested = 0 then pure (.error .EOVERFLOW)
  else
    ensure (v.capacity < v.newCapacity requested) (.assert .vec)
    match mem with
    | none => pure (.error .ENOMEM)
    | some fresh =>
      -- the new buffer is installed here, so that the bounds of the `memset` are its own
      modify fun v => { v with
        capacity := v.newCapacity requested
        bytes := fun i => if i < v.capacity then v.bytes i else fresh i }
      memset (v.size % 2 ^ 32) ((v.newCapacity requested + 2 ^ 64 - v.size) % 2 ^ 32)
      pure (.ok ())

def vecReserve (mem : Realloc) (additional : Nat) : VecProg (Except Errno Unit) := do
  let v ← get
  let newSize := (v.size + additional) % 2 ^ 32
  if newSize < v.size then pure (.error .EOVERFLOW)
  else if newSize ≤ v.capacity then pure (.ok ())
  else growCapacity mem newSize

def fitSize (mem : Realloc) (newSize : Nat) : VecProg (Except Errno Unit) := do
  let v ← get
  if newSize ≤ v.size then
    memset (newSize % 2 ^ 32) ((v.size - newSize) % 2 ^ 32)
    pure (.ok ())
  else if newSize % 2 ^ 32 ≤ v.capacity then
    memset (v.size % 2 ^ 32) ((newSize - v.size) % 2 ^ 32)
    pure (.ok ())
  else growCapacity mem (newSize % 2 ^ 32)

def vecResize (mem : Realloc) (newSize : Nat) : VecProg (Except Errno Unit) := do
  let v ← get
  if newSize = v.size then pure (.ok ())
  else
    let r ← fitSize mem newSize
    match r with
    | .error e => pure (.error e)
    | .ok () =>
      modify fun v => { v with size := newSize }
      pure (.ok ())

def fitEnd (mem : Realloc) (stop : Nat) : VecProg (Except Errno Unit) := do
  let v ← get
  if v.capacity < stop then growCapacity mem (stop % 2 ^ 32) else pure (.ok ())

def vecPwrite (mem : Realloc) (src : Nat → UInt8) (count offset : Nat) : VecProg (Except Errno Nat) := do
  let stop := (offset + count) % 2 ^ 64
  let r ← fitEnd mem stop
  match r with
  | .error e => pure (.error e)
  | .ok () =>
    memcpy src (offset % 2 ^ 32) count
    modify fun v => { v with size := if v.size < stop then stop else v.size }
    pure (.ok count)

def vecAppend (mem : Realloc) (src : Nat → UInt8) (count : Nat) : VecProg (Except Errno Nat) := do
  let v ← get
  vecPwrite mem src count v.size

/-! ## Room -/

structure Good (v : Vec) : Prop where
  size : v.size ≤ v.capacity
  capacity : v.capacity < 2 ^ 32

/-- `grow_capacity` gives up: the doubled capacity or the rounded one overflows, or there is no memory. -/
def Refuses (mem : Realloc) (requested : Nat) (v : Vec) : Prop :=
  v.capacity * 2 % 2 ^ 32 < v.capacity ∨ v.newCapacity requested = 0 ∨ mem.isNone = true
  deriving Decidable

def grown (v : Vec) (c : Nat) (fresh : Nat → UInt8) : Vec :=
  { v with
    capacity := c
    bytes := fun i => if v.size ≤ i ∧ i < c then 0 else if i < v.capacity then v.bytes i else fresh i }

inductive Room (v : Vec) (n : Nat) : Vec → Prop
  | enough : n ≤ v.capacity → Room v n v
  | grown {c : Nat} {fresh : Nat → UInt8} :
    v.capacity < c → n ≤ c → c < 2 ^ 32 → c % PAGE_SIZE = 0 → Room v n (v.grown c fresh)

section
variable {v w : Vec} {n k requested : Nat} {mem : Realloc} {src : Nat → UInt8}

theorem Room.good (h : Room v n w) (hv : v.Good) : w.Good := by
  cases h with
  | enough => exact hv
  | grown hc _ hlt _ => exact ⟨hv.size.trans hc.le, hlt⟩

theorem Room.size (h : Room v n w) : w.size = v.size := by
  cases h <;> rfl

theorem Room.le (h : Room v n w) : n ≤ w.capacity := by
  cases h with
  | enough h => exact h
  | grown _ h _ _ => exact h

theorem le_roundUp {a : Nat} (ha : a < 2 ^ 32) (h : roundUp a ≠ 0) : a ≤ roundUp a := by
  unfold roundUp roundDown add32 PAGE_SIZE at *
  omega

theorem roundUp_lt (a : Nat) : roundUp a < 2 ^ 32 := by
  unfold roundUp roundDown add32 PAGE_SIZE
  omega

theorem roundUp_mod (a : Nat) : roundUp a % PAGE_SIZE = 0 := mul_mod_left _ _

theorem access_run (h : n = 0 ∨ k + n ≤ v.capacity) : access k n v = .ok ((), v) := by
  unfold access
  rw [get_bind]
  exact ensure_ok.mpr ⟨h, rfl⟩

theorem memset_run (h : n = 0 ∨ k + n ≤ v.capacity) :
    memset k n v = .ok ((), { v with bytes := fun i => if k ≤ i ∧ i < k + n then 0 else v.bytes i }) := by
  unfold memset
  rw [bind_run (access_run h), modify_run]

theorem memcpy_run (h : n = 0 ∨ k + n ≤ v.capacity) :
    memcpy src k n v = .ok ((), { v with bytes := fun i => if k ≤ i ∧ i < k + n then src (i - k) else v.bytes i }) := by
  unfold memcpy
  rw [bind_run (access_run h), modify_run]

theorem newCapacity_spec (hreq : requested < 2 ^ 32) (hd : ¬ v.capacity * 2 % 2 ^ 32 < v.capacity)
    (hz : v.newCapacity requested ≠ 0) :
    v.capacity < v.newCapacity requested ∧ requested ≤ v.newCapacity requested ∧ v.newCapacity requested < 2 ^ 32 := by
  unfold newCapacity at hz ⊢
  dsimp only at hz ⊢
  generalize hc : max (v.capacity * 2 % 2 ^ 32) requested = c at *
  have hle : requested ≤ c := hc ▸ le_max_right _ _
  have hclt : c < 2 ^ 32 := by
    rw [← hc]
    exact max_lt (mod_lt _ (by decide)) hreq
  refine ⟨?_, ?_, roundUp_lt _⟩
  · by_cases h0 : c = 0
    · rw [if_pos h0]
      have : v.capacity = 0 := by omega
      rw [this]
      decide
    · rw [if_neg h0] at hz ⊢
      have := le_roundUp hclt hz
      omega
  · by_cases h0 : c = 0
    · omega
    · rw [if_neg h0] at hz ⊢
      exact hle.trans (le_roundUp hclt hz)

theorem growCapacity_run (mem : Realloc) (hv : v.Good) (hreq : requested < 2 ^ 32) :
    (Refuses mem requested v ∧ ∃ e, growCapacity mem requested v = .ok (.error e, v)) ∨
      (¬ Refuses mem requested v ∧ ∃ w, v.capacity < w.capacity ∧ Room v requested w ∧
        growCapacity mem requested v = .ok (.ok (), w)) := by
  unfold growCapacity Refuses
  rw [get_bind]
  by_cases hd : v.capacity * 2 % 2 ^ 32 < v.capacity
  · rw [if_pos hd]
    exact .inl ⟨.inl hd, _, pure_run _⟩
  rw [if_neg hd]
  by_cases hz : v.newCapacity requested = 0
  · rw [if_pos hz]
    exact .inl ⟨.inr (.inl hz), _, pure_run _⟩
  obtain ⟨hlt, hle, hc⟩ := newCapacity_spec hreq hd hz
  rw [if_neg hz, ensure_bind, if_pos hlt]
  cases mem with
  | none => exact .inl ⟨.inr (.inr rfl), _, pure_run _⟩
  | some fresh =>
    have hsi := hv.size
    refine .inr ⟨?_, v.grown (v.newCapacity requested) fresh, hlt, .grown hlt hle hc (roundUp_mod _), ?_⟩
    · rintro (h | h | h)
      · exact hd h
      · exact hz h
      · cases h
    · have hsub : (v.newCapacity requested + 2 ^ 64 - v.size) % 2 ^ 32 = v.newCapacity requested - v.size := by omega
      dsimp only
      rw [modify_bind, hsub, mod_eq_of_lt (show v.size < 2 ^ 32 by omega),
        bind_run (memset_run (.inr (by dsimp only; omega))), pure_run]
      have hbo : v.size + (v.newCapacity requested - v.size) = v.newCapacity requested := by omega
      rw [hbo]
      rfl

end

/-! ## What each call does to a good buffer -/

def stored (v : Vec) (src : Nat → UInt8) (count offset : Nat) : Vec :=
  { v with
    size := max v.size (offset + count)
    bytes := fun i => if offset ≤ i ∧ i < offset + count then src (i - offset) else v.bytes i }

def resized (v : Vec) (n : Nat) : Vec :=
  { v with size := n, bytes := fun i => if min v.size n ≤ i ∧ i < max v.size n then 0 else v.bytes i }

section
variable {v : Vec} {n count offset additional : Nat} {mem : Realloc} {src : Nat → UInt8}

theorem vecPread_run (hv : v.Good) (hc : count < 2 ^ 32) :
    vecPread count offset v = .ok ((List.range (min count (v.size - offset))).map fun i => v.bytes (offset + i), v) := by
  have hs := hv.size
  have hcap := hv.capacity
  unfold vecPread
  rw [get_bind]
  by_cases ho : v.size ≤ offset
  · rw [if_pos ho, pure_run, show v.size - offset = 0 by omega, min_zero]
    rfl
  · have hn : (if v.size ≤ (offset + count) % 2 ^ 64 then (v.size - offset) % 2 ^ 32 else count) =
        min count (v.size - offset) := by
      split <;> omega
    rw [if_neg ho, hn, mod_eq_of_lt (show offset < 2 ^ 32 by omega), bind_run (access_run (.inr (by omega))), pure_run]

theorem fitEnd_run (mem : Realloc) (hv : v.Good) (stop : Nat) (h : v.capacity < stop → stop < 2 ^ 32 ∨ Refuses mem (stop % 2 ^ 32) v) :
    (v.capacity < stop ∧ Refuses mem (stop % 2 ^ 32) v ∧ ∃ e, fitEnd mem stop v = .ok (.error e, v)) ∨
      (¬ (v.capacity < stop ∧ Refuses mem (stop % 2 ^ 32) v) ∧
        ∃ w, Room v stop w ∧ fitEnd mem stop v = .ok (.ok (), w)) := by
  unfold fitEnd
  rw [get_bind]
  by_cases hlt : v.capacity < stop
  · rw [if_pos hlt]
    obtain ⟨href, e, hrun⟩ | ⟨href, w, -, hro, hrun⟩ := growCapacity_run mem hv (mod_lt stop (by decide))
    · exact .inl ⟨hlt, href, e, hrun⟩
    · rcases h hlt with hs | hs
      · rw [mod_eq_of_lt hs] at hro
        exact .inr ⟨fun hand => href hand.2, w, hro, hrun⟩
      · exact absurd hs href
  · rw [if_neg hlt]
    exact .inr ⟨fun hand => hlt hand.1, v, .enough (by omega), pure_run _⟩

theorem vecPwrite_run (mem : Realloc) (src : Nat → UInt8) (hv : v.Good) (hfit : offset + count < 2 ^ 32) :
    (v.capacity < offset + count ∧ Refuses mem (offset + count) v ∧
      ∃ e, vecPwrite mem src count offset v = .ok (.error e, v)) ∨
    (¬ (v.capacity < offset + count ∧ Refuses mem (offset + count) v) ∧
      ∃ w, Room v (offset + count) w ∧ vecPwrite mem src count offset v = .ok (.ok count, w.stored src count offset)) := by
  unfold vecPwrite
  rw [mod_eq_of_lt (show offset + count < 2 ^ 64 by omega)]
  have hmod : (offset + count) % 2 ^ 32 = offset + count := mod_eq_of_lt hfit
  obtain ⟨hlt, href, e, hrun⟩ | ⟨href, w, hro, hrun⟩ := fitEnd_run mem hv (offset + count) fun _ => .inl hfit
  · rw [hmod] at href
    refine .inl ⟨hlt, href, e, ?_⟩
    rw [bind_run hrun]
    exact pure_run _
  · rw [hmod] at href
    refine .inr ⟨href, w, hro, ?_⟩
    have hle := hro.le
    rw [bind_run hrun]
    dsimp only
    rw [mod_eq_of_lt (show offset < 2 ^ 32 by omega), bind_run (memcpy_run (.inr hle)), modify_bind, pure_run]
    have hmax : (if w.size < offset + count then offset + count else w.size) = max w.size (offset + count) := by
      split <;> omega
    rw [hmax]
    rfl

theorem vecPwrite_refused (src : Nat → UInt8) (hv : v.Good) (hlt : v.capacity < (offset + count) % 2 ^ 64)
    (href : Refuses mem ((offset + count) % 2 ^ 64 % 2 ^ 32) v) :
    ∃ e, vecPwrite mem src count offset v = .ok (.error e, v) := by
  obtain ⟨-, -, e, hrun⟩ | ⟨hno, -⟩ := fitEnd_run mem hv ((offset + count) % 2 ^ 64) fun _ => .inr href
  · refine ⟨e, ?_⟩
    unfold vecPwrite
    rw [bind_run hrun]
    exact pure_run _
  · exact absurd ⟨hlt, href⟩ hno

theorem resized_self (h : n = v.size) : v.resized n = v := by
  subst h
  refine Vec.ext rfl rfl ?_
  funext i
  exact if_neg (by omega)

theorem resized_grown {c : Nat} {fresh : Nat → UInt8} (hs : v.size ≤ n) (hc : n ≤ c) :
    (v.grown c fresh).resized n = { v.grown c fresh with size := n } := by
  refine Vec.ext rfl rfl ?_
  funext i
  show (if min v.size n ≤ i ∧ i < max v.size n then 0 else _) = _
  split
  · exact (if_pos (by omega)).symm
  · rfl

theorem fitSize_run (mem : Realloc) (hv : v.Good) (hn : n < 2 ^ 32) :
    (v.capacity < n ∧ Refuses mem n v ∧ ∃ e, fitSize mem n v = .ok (.error e, v)) ∨
    (¬ (v.capacity < n ∧ Refuses mem n v) ∧
      ∃ w u, Room v n w ∧ fitSize mem n v = .ok (.ok (), u) ∧ { u with size := n } = w.resized n) := by
  have hs := hv.size
  have hcap := hv.capacity
  unfold fitSize
  rw [get_bind]
  by_cases hle : n ≤ v.size
  · rw [if_pos hle, mod_eq_of_lt hn, mod_eq_of_lt (show v.size - n < 2 ^ 32 by omega),
      bind_run (memset_run (.inr (by omega))), pure_run]
    refine .inr ⟨by omega, v, _, .enough (by omega), rfl, Vec.ext rfl rfl ?_⟩
    funext i
    show (if n ≤ i ∧ i < n + (v.size - n) then _ else _) = if min v.size n ≤ i ∧ i < max v.size n then _ else _
    rw [show n + (v.size - n) = max v.size n by omega, show min v.size n = n by omega]
  rw [if_neg hle]
  by_cases hle' : n ≤ v.capacity
  · rw [if_pos (by rwa [mod_eq_of_lt hn]), mod_eq_of_lt (show v.size < 2 ^ 32 by omega),
      mod_eq_of_lt (show n - v.size < 2 ^ 32 by omega), bind_run (memset_run (.inr (by omega))), pure_run]
    refine .inr ⟨by omega, v, _, .enough hle', rfl, Vec.ext rfl rfl ?_⟩
    funext i
    show (if v.size ≤ i ∧ i < v.size + (n - v.size) then _ else _) =
      if min v.size n ≤ i ∧ i < max v.size n then _ else _
    rw [show v.size + (n - v.size) = max v.size n by omega, show min v.size n = v.size by omega]
  · rw [if_neg (by rwa [mod_eq_of_lt hn]), mod_eq_of_lt hn]
    obtain ⟨href, e, hrun⟩ | ⟨href, w, -, hro, hrun⟩ := growCapacity_run mem hv hn
    · exact .inl ⟨by omega, href, e, hrun⟩
    · refine .inr ⟨fun hand => href hand.2, w, w, hro, hrun, ?_⟩
      cases hro with
      | enough h => omega
      | grown _ hc _ _ => exact (resized_grown (by omega) hc).symm

theorem vecResize_run (mem : Realloc) (hv : v.Good) (hn : n < 2 ^ 32) :
    (v.capacity < n ∧ Refuses mem n v ∧ ∃ e, vecResize mem n v = .ok (.error e, v)) ∨
    (¬ (v.capacity < n ∧ Refuses mem n v) ∧ ∃ w, Room v n w ∧ vecResize mem n v = .ok (.ok (), w.resized n)) := by
  unfold vecResize
  rw [get_bind]
  by_cases heq : n = v.size
  · have hle : n ≤ v.capacity := heq ▸ hv.size
    rw [if_pos heq, pure_run]
    exact .inr ⟨by omega, v, .enough hle, by rw [resized_self heq]⟩
  · rw [if_neg heq]
    obtain ⟨hlt, href, e, hrun⟩ | ⟨href, w, u, hro, hrun, hu⟩ := fitSize_run mem hv hn
    · refine .inl ⟨hlt, href, e, ?_⟩
      rw [bind_run hrun]
      exact pure_run _
    · refine .inr ⟨href, w, hro, ?_⟩
      rw [bind_run hrun]
      dsimp only
      rw [modify_bind, pure_run, hu]

theorem vecResize_refused (hv : v.Good) (hs : v.size < n) (hlt : v.capacity < n % 2 ^ 32)
    (href : Refuses mem (n % 2 ^ 32) v) : ∃ e, vecResize mem n v = .ok (.error e, v) := by
  obtain ⟨-, e, hrun⟩ | ⟨hno, -⟩ := growCapacity_run mem hv (mod_lt n (by decide))
  · refine ⟨e, ?_⟩
    have hfit : fitSize mem n v = .ok (.error e, v) := by
      unfold fitSize
      rw [get_bind, if_neg (by omega), if_neg (by omega), hrun]
    unfold vecResize
    rw [get_bind, if_neg (by omega), bind_run hfit]
    exact pure_run _
  · exact absurd href hno

theorem vecReserve_run (mem : Realloc) (hv : v.Good) (h : v.size + additional < 2 ^ 32 ∨ (v.size + additional) % 2 ^ 32 < v.size ∨
      v.capacity < (v.size + additional) % 2 ^ 32 ∧ Refuses mem ((v.size + additional) % 2 ^ 32) v) :
    (∃ e, vecReserve mem additional v = .ok (.error e, v)) ∨
    (v.size + additional < 2 ^ 32 ∧ ∃ w, Room v (v.size + additional) w ∧ vecReserve mem additional v = .ok (.ok (), w)) := by
  unfold vecReserve
  rw [get_bind]
  by_cases hw : (v.size + additional) % 2 ^ 32 < v.size
  · rw [if_pos hw]
    exact .inl ⟨_, pure_run _⟩
  rw [if_neg hw]
  by_cases hle : (v.size + additional) % 2 ^ 32 ≤ v.capacity
  · have hfit : v.size + additional < 2 ^ 32 := by
      rcases h with h | h | h
      · exact h
      · exact absurd h hw
      · omega
    rw [if_pos hle]
    rw [mod_eq_of_lt hfit] at hle
    exact .inr ⟨hfit, v, .enough hle, pure_run _⟩
  rw [if_neg hle]
  obtain ⟨-, e, hrun⟩ | ⟨href, w, -, hro, hrun⟩ := growCapacity_run mem hv (mod_lt _ (by decide))
  · exact .inl ⟨e, hrun⟩
  · have hfit : v.size + additional < 2 ^ 32 := by
      rcases h with h | h | h
      · exact h
      · exact absurd h hw
      · exact absurd h.2 href
    rw [mod_eq_of_lt hfit] at hro
    exact .inr ⟨hfit, w, hro, hrun⟩

end

/-! ## Runs -/

section
variable {v w : Vec} {n : Nat}

theorem Good.stored (h : v.Good) {src : Nat → UInt8} {count offset : Nat} (hle : offset + count ≤ v.capacity) :
    (v.stored src count offset).Good :=
  ⟨max_le h.size hle, h.capacity⟩

theorem Good.resized (h : v.Good) (hle : n ≤ v.capacity) : (v.resized n).Good := ⟨hle, h.capacity⟩

end

end Vec

inductive VecOp
  | pread (count : UInt32) (offset : UInt64)
  | pwrite (mem : Realloc) (src : Nat → UInt8) (count : UInt32) (offset : UInt64)
  | append (mem : Realloc) (src : Nat → UInt8) (count : UInt32)
  | resize (mem : Realloc) (newSize : UInt64)
  | reserve (mem : Realloc) (additional : UInt64)

namespace VecOp

def exec : VecOp → VecProg (Except Errno Unit)
  | .pread count offset => do
    let _ ← Vec.vecPread count.toNat offset.toNat
    pure (.ok ())
  | .pwrite mem src count offset => do
    let r ← Vec.vecPwrite mem src count.toNat offset.toNat
    pure (r.map fun _ => ())
  | .append mem src count => do
    let r ← Vec.vecAppend mem src count.toNat
    pure (r.map fun _ => ())
  | .resize mem newSize => Vec.vecResize mem newSize.toNat
  | .reserve mem additional => Vec.vecReserve mem additional.toNat

def Step (v : Vec) (op : VecOp) (v' : Vec) : Prop := ∃ r, op.exec v = .ok (r, v')

def stop (v : Vec) : VecOp → Nat
  | .pread _ _ => 0
  | .pwrite _ _ count offset => offset.toNat + count.toNat
  | .append _ _ count => v.size + count.toNat
  | .resize _ newSize => newSize.toNat
  | .reserve _ additional => v.size + additional.toNat

/-- The end fits in the 32-bit address space; a read stops at the end of the contents. -/
def Fits (v : Vec) (op : VecOp) : Prop := op.stop v < 2 ^ 32

/-- The call asks for more capacity and does not get it, or `vec_reserve` notices the overflow. -/
def Refused (v : Vec) : VecOp → Prop
  | .pread _ _ => False
  | .pwrite mem _ count offset =>
    v.capacity < (offset.toNat + count.toNat) % 2 ^ 64 ∧
      Vec.Refuses mem ((offset.toNat + count.toNat) % 2 ^ 64 % 2 ^ 32) v
  | .append mem _ count =>
    v.capacity < (v.size + count.toNat) % 2 ^ 64 ∧ Vec.Refuses mem ((v.size + count.toNat) % 2 ^ 64 % 2 ^ 32) v
  | .resize mem newSize =>
    v.size < newSize.toNat ∧ v.capacity < newSize.toNat % 2 ^ 32 ∧ Vec.Refuses mem (newSize.toNat % 2 ^ 32) v
  | .reserve mem additional =>
    (v.size + additional.toNat) % 2 ^ 32 < v.size ∨
      v.capacity < (v.size + additional.toNat) % 2 ^ 32 ∧ Vec.Refuses mem ((v.size + additional.toNat) % 2 ^ 32) v

def Handled (v : Vec) (op : VecOp) : Prop := op.Fits v ∨ op.Refused v

instance (v : Vec) (op : VecOp) : Decidable (op.Handled v) := by
  unfold Handled Fits Refused
  split <;> infer_instance

section
variable {v v' : Vec} {op : VecOp}

theorem pwrite_returns {mem : Realloc} (src : Nat → UInt8) {count offset : Nat} (hv : v.Good)
    (h : offset + count < 2 ^ 32 ∨
      v.capacity < (offset + count) % 2 ^ 64 ∧ Vec.Refuses mem ((offset + count) % 2 ^ 64 % 2 ^ 32) v) :
    ∃ r v', Vec.vecPwrite mem src count offset v = .ok (r, v') ∧ v'.Good ∧
      (¬ offset + count < 2 ^ 32 → (∃ e, r = .error e) ∧ v' = v) := by
  rcases h with hfit | ⟨hlt, href⟩
  · obtain ⟨-, -, e, hrun⟩ | ⟨-, w, hro, hrun⟩ := Vec.vecPwrite_run mem src hv hfit
    · exact ⟨_, v, hrun, hv, fun hno => absurd hfit hno⟩
    · exact ⟨_, _, hrun, (hro.good hv).stored hro.le, fun hno => absurd hfit hno⟩
  · obtain ⟨e, hrun⟩ := Vec.vecPwrite_refused src hv hlt href
    exact ⟨_, v, hrun, hv, fun _ => ⟨⟨e, rfl⟩, rfl⟩⟩

theorem Handled.exec (hv : v.Good) (h : op.Handled v) :
    ∃ r v', op.exec v = .ok (r, v') ∧ v'.Good ∧ (¬ op.Fits v → (∃ e, r = .error e) ∧ v' = v) := by
  cases op with
  | pread count offset =>
    exact ⟨.ok (), v, (bind_run (Vec.vecPread_run hv (UInt32.toNat_lt count))).trans (pure_run _), hv,
      fun hno => absurd (show 0 < 2 ^ 32 by decide) hno⟩
  | pwrite mem src count offset =>
    obtain ⟨r, v', hrun, hgo, hno⟩ := pwrite_returns src hv h
    refine ⟨r.map fun _ => (), v', (bind_run hrun).trans (pure_run _), hgo, fun hfit => ?_⟩
    obtain ⟨⟨e, rfl⟩, rfl⟩ := hno hfit
    exact ⟨⟨e, rfl⟩, rfl⟩
  | append mem src count =>
    obtain ⟨r, v', hrun, hgo, hno⟩ := pwrite_returns src hv h
    have hrun : Vec.vecAppend mem src count.toNat v = .ok (r, v') := (get_bind _).trans hrun
    refine ⟨r.map fun _ => (), v', (bind_run hrun).trans (pure_run _), hgo, fun hfit => ?_⟩
    obtain ⟨⟨e, rfl⟩, rfl⟩ := hno hfit
    exact ⟨⟨e, rfl⟩, rfl⟩
  | resize mem newSize =>
    rcases h with hfit | ⟨hs, hlt, href⟩
    · obtain ⟨-, -, e, hrun⟩ | ⟨-, w, hro, hrun⟩ := Vec.vecResize_run mem hv hfit
      · exact ⟨_, v, hrun, hv, fun hno => absurd hfit hno⟩
      · exact ⟨_, _, hrun, (hro.good hv).resized hro.le, fun hno => absurd hfit hno⟩
    · obtain ⟨e, hrun⟩ := Vec.vecResize_refused hv hs hlt href
      exact ⟨_, v, hrun, hv, fun _ => ⟨⟨e, rfl⟩, rfl⟩⟩
  | reserve mem additional =>
    obtain ⟨e, hrun⟩ | ⟨hfit, w, hro, hrun⟩ := Vec.vecReserve_run mem hv h
    · exact ⟨_, v, hrun, hv, fun _ => ⟨⟨e, rfl⟩, rfl⟩⟩
    · exact ⟨_, w, hrun, hro.good hv, fun hno => absurd hfit hno⟩

theorem good_of_run {b : Nat → UInt8} (hr : Run Step (fun v op => op.Handled v) (Vec.empty b) v) : v.Good := by
  refine hr.invariant (I := Vec.Good) ⟨le_refl 0, show 0 < 2 ^ 32 by decide⟩ ?_
  rintro t op t' ht ⟨r, hrun⟩ hok
  obtain ⟨r', t'', hrun', hgo, -⟩ := Handled.exec ht hok
  rw [hrun'] at hrun
  cases hrun
  exact hgo

end

end VecOp

structure Vec.Safe (v : Vec) : Prop where
  size : v.size ≤ v.capacity
  inside : ∀ op : VecOp, op.Handled v → ∃ r v', op.exec v = .ok (r, v')
  refused : ∀ (op : VecOp) r v', op.Handled v → ¬ op.Fits v → op.exec v = .ok (r, v') → (∃ e, r = .error e) ∧ v' = v

theorem vec_safe_of_handled {b : Nat → UInt8} {v : Vec}
    (hr : Run VecOp.Step (fun v op => op.Handled v) (Vec.empty b) v) : v.Safe := by
  have hv := VecOp.good_of_run hr
  refine ⟨hv.size, ?_, ?_⟩
  · intro op hop
    obtain ⟨r, v', hrun, -⟩ := hop.exec hv
    exact ⟨r, v', hrun⟩
  · intro op r v' hop hno hrun
    obtain ⟨r', v'', hrun', -, hfa⟩ := hop.exec hv
    rw [hrun'] at hrun
    cases hrun
    exact hfa hno

theorem vec_safe_after_write :
    ∃ v, Run VecOp.Step (fun v op => op.Handled v) (Vec.empty fun _ => 0) v ∧ v.size = 4097 ∧ v.Safe := by
  obtain ⟨v, hr, hs⟩ := exists_follow_prog VecOp.exec (fun v op => op.Handled v)
    [.pwrite (some fun _ => 0) (fun _ => 7) 1 4096] (Vec.empty fun _ => 0) (fun v => v.size = 4097) (by decide +kernel)
  exact ⟨v, hr, hs, vec_safe_of_handled hr⟩

/-- A read by `op` from what a write has left faults, the size being above the capacity. -/
def faultsAfter (op : VecOp) : Except Trap (Except Errno Unit × Vec) → Bool
  | .ok (.ok _, v) => decide (v.capacity < v.size) && match op.exec v with | .error .fault => true | _ => false
  | _ => false

/-- One byte written at offset 2³² leaves a size above the capacity, and a byte behind it is read. -/
theorem size_above_capacity_after_far_write :
    ∃ v r, (VecOp.pwrite (some fun _ => 0) (fun _ => 7) 1 0x100000000).exec (Vec.empty fun _ => 0) = .ok (.ok r, v) ∧
      v.capacity < v.size ∧ (VecOp.pread 1 4096).exec v = .error .fault := by
  have h : faultsAfter (.pread 1 4096)
      ((VecOp.pwrite (some fun _ => 0) (fun _ => 7) 1 0x100000000).exec (Vec.empty fun _ => 0)) = true := by
    decide +kernel
  unfold faultsAfter at h
  split at h
  · rename_i r v hrun
    rw [Bool.and_eq_true] at h
    obtain ⟨hlt, hf⟩ := h
    refine ⟨v, r, hrun, of_decide_eq_true hlt, ?_⟩
    split at hf
    · rename_i hf'
      exact hf'
    · cases hf
  · cases h

end Yagura
