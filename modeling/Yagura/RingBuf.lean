import Mathlib

/-!
# Ring buffers

`ring_buf.h`: the two indices, the loops of `ring_buf_read` and
`ring_buf_write`, and the queue they implement. A ring holds its contents in
the cells from the read index up to the write index; what the other cells
hold does not matter. One cell always stays free.
-/

namespace Yagura

open Function List

structure RingBuf (α : Type) where
  capacity : Nat
  writeIndex : Nat
  readIndex : Nat
  ring : Nat → α

namespace RingBuf

variable {α : Type}

def isEmpty (b : RingBuf α) : Bool := b.writeIndex == b.readIndex

def isFull (b : RingBuf α) : Bool := (b.writeIndex + 1) % b.capacity == b.readIndex

def take (b : RingBuf α) : α × RingBuf α :=
  (b.ring b.readIndex, { b with readIndex := (b.readIndex + 1) % b.capacity })

def read (b : RingBuf α) : Nat → List α × RingBuf α
  | 0 => ([], b)
  | count + 1 =>
    if b.take.2.readIndex = b.take.2.writeIndex then ([b.take.1], b.take.2)
    else (b.take.1 :: (b.take.2.read count).1, (b.take.2.read count).2)

def put (b : RingBuf α) (x : α) : RingBuf α :=
  { b with ring := update b.ring b.writeIndex x, writeIndex := (b.writeIndex + 1) % b.capacity }

def write (b : RingBuf α) : List α → Nat × RingBuf α
  | [] => (0, b)
  | x :: xs =>
    if ((b.put x).writeIndex + 1) % b.capacity = (b.put x).readIndex then (1, b.put x)
    else ((((b.put x).write xs).1 + 1), ((b.put x).write xs).2)

/-! ## The contents -/

structure Valid (b : RingBuf α) : Prop where
  capacity : 2 ≤ b.capacity
  writeIndex : b.writeIndex < b.capacity
  readIndex : b.readIndex < b.capacity

def length (b : RingBuf α) : Nat := (b.writeIndex + b.capacity - b.readIndex) % b.capacity

def contents (b : RingBuf α) : List α :=
  (List.range b.length).map fun i => b.ring ((b.readIndex + i) % b.capacity)

@[simp] theorem length_contents (b : RingBuf α) : b.contents.length = b.length := by
  simp [contents]

section
variable {b : RingBuf α}

theorem Valid.length_lt (h : b.Valid) : b.length < b.capacity :=
  Nat.mod_lt _ (by have := h.capacity; omega)

theorem Valid.writeIndex_eq (h : b.Valid) : b.writeIndex = (b.readIndex + b.length) % b.capacity := by
  obtain ⟨-, hw, hr⟩ := h
  unfold length
  by_cases hle : b.readIndex ≤ b.writeIndex
  · rw [show b.writeIndex + b.capacity - b.readIndex = b.writeIndex - b.readIndex + b.capacity by omega,
      Nat.add_mod_right, Nat.mod_eq_of_lt (show b.writeIndex - b.readIndex < b.capacity by omega),
      Nat.mod_eq_of_lt (by omega)]
    omega
  · rw [Nat.mod_eq_of_lt (show b.writeIndex + b.capacity - b.readIndex < b.capacity by omega),
      show b.readIndex + (b.writeIndex + b.capacity - b.readIndex) = b.writeIndex + b.capacity by omega,
      Nat.add_mod_right, Nat.mod_eq_of_lt hw]

theorem Valid.length_unique (h : b.Valid) {n : Nat} (hn : n < b.capacity)
    (he : b.writeIndex = (b.readIndex + n) % b.capacity) : b.length = n := by
  have hr := h.readIndex
  unfold length
  rw [he]
  by_cases hlt : b.readIndex + n < b.capacity
  · rw [Nat.mod_eq_of_lt hlt, show b.readIndex + n + b.capacity - b.readIndex = n + b.capacity by omega,
      Nat.add_mod_right, Nat.mod_eq_of_lt hn]
  · rw [show b.readIndex + n = b.readIndex + n - b.capacity + b.capacity by omega, Nat.add_mod_right,
      Nat.mod_eq_of_lt (show b.readIndex + n - b.capacity < b.capacity by omega),
      show b.readIndex + n - b.capacity + b.capacity - b.readIndex = n by omega, Nat.mod_eq_of_lt hn]

theorem Valid.isEmpty_iff (h : b.Valid) : b.isEmpty = true ↔ b.contents = [] := by
  rw [← length_eq_zero_iff, length_contents]
  unfold isEmpty
  rw [beq_iff_eq]
  constructor
  · intro he
    apply h.length_unique (by have := h.capacity; omega)
    rw [Nat.add_zero, Nat.mod_eq_of_lt h.readIndex]
    exact he
  · intro hl
    have := h.writeIndex_eq
    rwa [hl, Nat.add_zero, Nat.mod_eq_of_lt h.readIndex] at this

theorem Valid.isFull_iff (h : b.Valid) : b.isFull = true ↔ b.contents.length + 1 = b.capacity := by
  have hlt := h.length_lt
  have hr := h.readIndex
  have hw : (b.writeIndex + 1) % b.capacity = (b.readIndex + (b.length + 1)) % b.capacity := by
    conv_lhs => rw [h.writeIndex_eq]
    rw [Nat.mod_add_mod, Nat.add_assoc]
  rw [length_contents]
  unfold isFull
  rw [beq_iff_eq, hw]
  constructor
  · intro he
    by_contra hne
    by_cases hs : b.readIndex + (b.length + 1) < b.capacity
    · rw [Nat.mod_eq_of_lt hs] at he
      omega
    · rw [show b.readIndex + (b.length + 1) = b.readIndex + (b.length + 1) - b.capacity + b.capacity by omega,
        Nat.add_mod_right, Nat.mod_eq_of_lt (by omega)] at he
      omega
  · intro he
    rw [he, Nat.add_mod_right, Nat.mod_eq_of_lt hr]

/-! ## One byte -/

theorem Valid.take (h : b.Valid) : b.take.2.Valid :=
  ⟨h.capacity, h.writeIndex, Nat.mod_lt _ (by have := h.readIndex; omega)⟩

theorem Valid.put (h : b.Valid) (x : α) : (b.put x).Valid :=
  ⟨h.capacity, Nat.mod_lt _ (by have := h.readIndex; omega), h.readIndex⟩

theorem Valid.contents_take (h : b.Valid) (hne : b.contents ≠ []) : b.contents = b.take.1 :: b.take.2.contents := by
  have hpos : 0 < b.length := by
    rw [← length_contents]
    exact length_pos_of_ne_nil hne
  have hlen : b.take.2.length = b.length - 1 := by
    apply h.take.length_unique
    · have : b.length < b.capacity := h.length_lt
      show b.length - 1 < b.capacity
      omega
    · show b.writeIndex = ((b.readIndex + 1) % b.capacity + (b.length - 1)) % b.capacity
      rw [Nat.mod_add_mod, show b.readIndex + 1 + (b.length - 1) = b.readIndex + b.length by omega]
      exact h.writeIndex_eq
  unfold contents
  rw [hlen]
  obtain ⟨n, hn⟩ : ∃ n, b.length = n + 1 := ⟨b.length - 1, by omega⟩
  rw [hn, range_succ_eq_map, map_cons, map_map, Nat.add_zero, Nat.mod_eq_of_lt h.readIndex]
  congr 1
  apply map_congr_left
  intro i _
  show b.ring ((b.readIndex + (i + 1)) % b.capacity) = b.ring (((b.readIndex + 1) % b.capacity + i) % b.capacity)
  rw [Nat.mod_add_mod, Nat.add_assoc, Nat.add_comm 1 i]

theorem Valid.contents_put (h : b.Valid) (x : α) (hro : b.contents.length + 1 < b.capacity) :
    (b.put x).contents = b.contents ++ [x] := by
  rw [length_contents] at hro
  have hlen : (b.put x).length = b.length + 1 := by
    apply (h.put x).length_unique hro
    show (b.writeIndex + 1) % b.capacity = (b.readIndex + (b.length + 1)) % b.capacity
    conv_lhs => rw [h.writeIndex_eq]
    rw [Nat.mod_add_mod, Nat.add_assoc]
  unfold contents
  rw [hlen, range_succ, map_append]
  congr 1
  · apply map_congr_left
    intro i hi
    have hi := mem_range.mp hi
    -- the cell written is not one of the contents
    show update b.ring b.writeIndex x ((b.readIndex + i) % b.capacity) = _
    rw [update_of_ne]
    intro he
    have hlt : b.length = i := h.length_unique (by omega) he.symm
    omega
  · show [update b.ring b.writeIndex x ((b.readIndex + b.length) % b.capacity)] = [x]
    rw [← h.writeIndex_eq, update_self]

end

/-! ## The loops -/

theorem Valid.read {b : RingBuf α} (h : b.Valid) (hne : b.contents ≠ []) (count : Nat) :
    (b.read count).2.Valid ∧ (b.read count).2.capacity = b.capacity ∧
      (b.read count).1 = b.contents.take count ∧ (b.read count).2.contents = b.contents.drop count := by
  induction count generalizing b with
  | zero => exact ⟨h, rfl, rfl, rfl⟩
  | succ count ih =>
    have hc := h.contents_take hne
    unfold RingBuf.read
    by_cases he : b.take.2.readIndex = b.take.2.writeIndex
    · rw [if_pos he]
      have hnil : b.take.2.contents = [] := h.take.isEmpty_iff.mp (by rw [RingBuf.isEmpty, he, beq_iff_eq])
      rw [hnil] at hc
      exact ⟨h.take, rfl, by rw [hc, take_succ_cons, take_nil],
        by rw [hc, hnil, drop_succ_cons, drop_nil]⟩
    · rw [if_neg he]
      have hne' : b.take.2.contents ≠ [] := by
        intro hnil
        have := h.take.isEmpty_iff.mpr hnil
        rw [RingBuf.isEmpty, beq_iff_eq] at this
        exact he this.symm
      obtain ⟨hv, hcap, hr, hd⟩ := ih h.take hne'
      exact ⟨hv, hcap, by rw [hr, hc, take_succ_cons], by rw [hd, hc, drop_succ_cons]⟩

theorem Valid.write {b : RingBuf α} (h : b.Valid) (hro : b.contents.length + 1 < b.capacity) (xs : List α) :
    (b.write xs).2.Valid ∧ (b.write xs).2.capacity = b.capacity ∧
      (b.write xs).1 = min xs.length (b.capacity - 1 - b.contents.length) ∧
      (b.write xs).2.contents = b.contents ++ xs.take (b.write xs).1 := by
  induction xs generalizing b with
  | nil => exact ⟨h, rfl, by simp [RingBuf.write], by simp [RingBuf.write]⟩
  | cons x xs ih =>
    have hc := h.contents_put x hro
    have hl : (b.put x).contents.length = b.contents.length + 1 := by rw [hc, length_append]; rfl
    unfold RingBuf.write
    by_cases he : ((b.put x).writeIndex + 1) % b.capacity = (b.put x).readIndex
    · rw [if_pos he]
      have hfull := (h.put x).isFull_iff.mp (by rw [RingBuf.isFull, beq_iff_eq]; exact he)
      have hcap : (b.put x).capacity = b.capacity := rfl
      refine ⟨h.put x, rfl, ?_, hc⟩
      simp only [length_cons]
      omega
    · rw [if_neg he]
      have hnf : (b.put x).contents.length + 1 < (b.put x).capacity := by
        have hlt := (h.put x).length_lt
        have hne : ¬ (b.put x).contents.length + 1 = (b.put x).capacity := by
          intro hfull
          have := (h.put x).isFull_iff.mpr hfull
          rw [RingBuf.isFull, beq_iff_eq] at this
          exact he this
        rw [length_contents] at hne ⊢
        omega
      obtain ⟨hv, hcap, hn, hco⟩ := ih (h.put x) hnf
      refine ⟨hv, hcap, ?_, ?_⟩
      · rw [hn, hl, length_cons]
        have : (b.put x).capacity = b.capacity := rfl
        omega
      · rw [hco, hc, append_assoc]
        rfl

end RingBuf

end Yagura
