import Yagura.Prog

/-!
# Filling and copying memory

`memset`, `memcpy` and `memmove` (`common/string.c`). An aligned range is
written in words as far as they go, and byte by byte from there.
-/

namespace Yagura.MemString

open Function

abbrev Memory := Nat → BitVec 8

/-- The bytes `f` from `p` on. -/
def Memory.put (m : Memory) (p n : Nat) (f : Nat → BitVec 8) : Memory := fun a =>
  if p ≤ a ∧ a < p + n then f (a - p) else m a

def byte (v : BitVec 32) (k : Nat) : BitVec 8 := v.extractLsb' (8 * k) 8

/-- `rep stosb` and `rep stosl`, for a width of 1 and 4. -/
def repStos (width : Nat) (eax : BitVec 32) : Nat → Nat → Memory → Memory
  | 0, _, m => m
  | ecx + 1, edi, m => repStos width eax ecx (edi + width) (m.put edi width (byte eax))

/-- `rep movsb` and `rep movsl`. -/
def repMovs (width : Nat) : Nat → Nat → Nat → Memory → Memory
  | 0, _, _, m => m
  | ecx + 1, esi, edi, m => repMovs width ecx (esi + width) (edi + width) (m.put edi width fun i => m (esi + i))

def memset (s : Nat) (c : BitVec 32) (n : Nat) (m : Memory) : Memory :=
  if s % 4 = 0 ∧ 4 ≤ n then
    let nd := n / 4
    let m := repStos 4 (c <<< 24 ||| c <<< 16 ||| c <<< 8 ||| c) nd s m
    if n - 4 * nd = 0 then m else repStos 1 c (n - 4 * nd) (s + 4 * nd) m
  else repStos 1 c n s m

def memcpy (dest src n : Nat) (m : Memory) : Memory :=
  if (dest % 4 = 0 ∧ src % 4 = 0) ∧ 4 ≤ n then
    let nd := n / 4
    let m := repMovs 4 nd src dest m
    if n - 4 * nd = 0 then m else repMovs 1 (n - 4 * nd) (src + 4 * nd) (dest + 4 * nd) m
  else repMovs 1 n src dest m

def copyBackwards (dest src : Nat) : Nat → Memory → Memory
  | 0, m => m
  | n + 1, m => copyBackwards dest src n (update m (dest + n) (m (src + n)))

def memmove (dest src n : Nat) (m : Memory) : Memory :=
  if n ≤ (dest + 2 ^ 32 - src) % 2 ^ 32 then memcpy dest src n m else copyBackwards dest src n m

/-! ## Ranges that are written -/

variable {m : Memory} {p n k w : Nat} {f g : Nat → BitVec 8}

theorem put_zero : m.put p 0 f = m := by
  funext a
  exact if_neg (by omega)

theorem put_put : (m.put p k f).put (p + k) n g = m.put p (k + n) fun i => if i < k then f i else g (i - k) := by
  funext a
  simp only [Memory.put, Nat.sub_add_eq]
  split_ifs <;> first | rfl | omega

theorem put_inj : m.put p n f = m.put p n g ↔ ∀ i < n, f i = g i := by
  constructor
  · intro h i hi
    simpa [Memory.put, hi] using congrFun h (p + i)
  · intro h
    funext a
    unfold Memory.put
    split_ifs with ha
    · exact h _ (by omega)
    · rfl

theorem put_of_lt {a : Nat} (h : a < p ∨ p + n ≤ a) : m.put p n f a = m a := if_neg (by omega)

/-! ## Filling -/

theorem repStos_eq {eax : BitVec 32} : repStos w eax n p m = m.put p (w * n) fun i => byte eax (i % w) := by
  induction n generalizing p m with
  | zero => exact put_zero.symm
  | succ n ih =>
    rw [repStos, ih, put_put, Nat.mul_succ, Nat.add_comm]
    refine put_inj.mpr fun i hi => ?_
    split_ifs with hiw
    · rw [Nat.mod_eq_of_lt hiw]
    · rw [← Nat.mod_eq_sub_mod (by omega)]

theorem byte_fill (c : BitVec 32) : (∀ k < 4, byte (c <<< 24 ||| c <<< 16 ||| c <<< 8 ||| c) k = byte c 0) ↔
    ∀ k < 4, byte c k ||| byte c 0 = byte c 0 := by
  have hbyte : ∀ k < 4, byte (c <<< 24 ||| c <<< 16 ||| c <<< 8 ||| c) k =
      (List.range (k + 1)).foldr (fun j b => byte c j ||| b) 0 := by
    intro k hk
    interval_cases k <;> ext i hi <;> simp [byte, List.range_succ] <;> grind
  constructor
  · intro h k hk
    have hlast := (hbyte 3 (by omega)).symm.trans (h 3 (by omega))
    simp only [List.range_succ, List.range_zero] at hlast
    interval_cases k <;> grind
  · intro h k hk
    have h1 := h 1 (by omega)
    have h2 := h 2 (by omega)
    rw [hbyte k hk]
    interval_cases k <;> simp only [List.range_succ, List.range_zero] <;> grind

/-- All bytes are `(unsigned char)c` if and only if no words are stored or no byte of `c` has a bit that the lowest
one does not have. -/
theorem memset_fills_iff (m : Memory) (s n : Nat) (c : BitVec 32) : memset s c n m = m.put s n (fun _ => byte c 0) ↔
    (s % 4 = 0 ∧ 4 ≤ n → ∀ k < 4, byte c k ||| byte c 0 = byte c 0) := by
  rw [← byte_fill]
  unfold memset
  by_cases ha : s % 4 = 0 ∧ 4 ≤ n
  · have htail (x : Memory) : (if n - 4 * (n / 4) = 0 then x else repStos 1 c (n - 4 * (n / 4)) (s + 4 * (n / 4)) x) =
        x.put (s + 4 * (n / 4)) (n - 4 * (n / 4)) fun _ => byte c 0 := by
      split_ifs with h
      · rw [h, put_zero]
      · simp [repStos_eq, Nat.mod_one]
    rw [if_pos ha]
    dsimp only
    rw [htail, repStos_eq, put_put, Nat.add_sub_cancel' (by omega), put_inj]
    simp only [ha, and_self, true_implies]
    constructor
    · intro h k hk
      simpa [show k < 4 * (n / 4) by omega, Nat.mod_eq_of_lt hk] using h k (by omega)
    · intro h i _
      split_ifs
      · exact h _ (Nat.mod_lt _ (by omega))
      · rfl
  · simp [ha, repStos_eq, Nat.mod_one]

theorem memset_uneven : memset 0 256 4 (fun _ => 0) ≠ Memory.put (fun _ => 0) 0 4 fun _ => byte 256 0 :=
  fun h => absurd (congrFun h 1) (by decide)

/-! ## Copying -/

theorem repMovs_eq {esi edi : Nat} (h : edi + w ≤ esi ∨ edi = esi ∨ esi + w * n ≤ edi) :
    repMovs w n esi edi m = m.put edi (w * n) fun i => m (esi + i) := by
  induction n generalizing esi edi m with
  | zero => exact put_zero.symm
  | succ n ih =>
    rw [Nat.mul_succ] at h ⊢
    rw [repMovs, ih (by omega), put_put, Nat.add_comm w]
    refine put_inj.mpr fun i hi => ?_
    split_ifs with hiw
    · rfl
    · rw [put_of_lt (by omega), Nat.add_assoc, Nat.add_sub_cancel' (by omega)]

theorem memcpy_eq {dest src : Nat} (h : dest ≤ src ∨ src + n ≤ dest) :
    memcpy dest src n m = m.put dest n fun i => m (src + i) := by
  unfold memcpy
  by_cases ha : (dest % 4 = 0 ∧ src % 4 = 0) ∧ 4 ≤ n
  · have htail (x : Memory) : (if n - 4 * (n / 4) = 0 then x
        else repMovs 1 (n - 4 * (n / 4)) (src + 4 * (n / 4)) (dest + 4 * (n / 4)) x) =
        x.put (dest + 4 * (n / 4)) (n - 4 * (n / 4)) fun i => x (src + 4 * (n / 4) + i) := by
      split_ifs with h
      · rw [h, put_zero]
      · rw [repMovs_eq (by omega), Nat.one_mul]
    rw [if_pos ha]
    dsimp only
    rw [htail, repMovs_eq (by omega), put_put, Nat.add_sub_cancel' (by omega)]
    refine put_inj.mpr fun i hi => ?_
    split_ifs with hiw
    · rfl
    · rw [put_of_lt (by omega), Nat.add_assoc, Nat.add_sub_cancel' (by omega)]
  · rw [if_neg ha, repMovs_eq (by omega), Nat.one_mul]

theorem copyBackwards_eq {dest src : Nat} (h : src ≤ dest) :
    copyBackwards dest src n m = m.put dest n fun i => m (src + i) := by
  induction n generalizing m with
  | zero => exact put_zero.symm
  | succ n ih =>
    rw [copyBackwards, ih]
    funext a
    simp only [Memory.put, update_apply]
    split_ifs <;> first | rfl | omega | congr 1; omega

theorem memmove_exact (m : Memory) {dest src n : Nat} (hd : dest + n ≤ 2 ^ 32) (hs : src + n ≤ 2 ^ 32) :
    memmove dest src n m = m.put dest n (fun i => m (src + i)) ∧
    (dest ≤ src ∨ src + n ≤ dest → memcpy dest src n m = m.put dest n fun i => m (src + i)) := by
  refine ⟨?_, memcpy_eq⟩
  unfold memmove
  split_ifs with h
  · exact memcpy_eq (by omega)
  · exact copyBackwards_eq (by omega)

theorem memmove_exact_up :
    memmove 0 1 3 (fun a => .ofNat 8 a) = Memory.put (fun a => .ofNat 8 a) 0 3 fun i => .ofNat 8 (1 + i) :=
  (memmove_exact _ (by decide) (by decide)).1

end Yagura.MemString
