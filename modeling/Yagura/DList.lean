import Mathlib

/-!
# Doubly linked lists in a heap

Nodes are named by numbers and hold a value and the names of their
neighbours. `Linked h hd l`: following `next` from `hd` visits exactly `l`,
and every `prev` points back to the node before. Inserting after a node and
removing a node, as pointer programs do them, edit `l` accordingly.
-/

namespace Yagura

open Function List Option

structure Cell (α : Type) where
  val : α
  prev : Option Nat
  next : Option Nat

abbrev Heap (α : Type) : Type := Nat → Cell α

namespace Heap

variable {α : Type}

def setVal (h : Heap α) (i : Nat) (a : α) : Heap α := update h i { h i with val := a }

def setPrev (h : Heap α) (i : Nat) (p : Option Nat) : Heap α := update h i { h i with prev := p }

def setNext (h : Heap α) (i : Nat) (n : Option Nat) : Heap α := update h i { h i with next := n }

def setPrev? (h : Heap α) (i : Option Nat) (p : Option Nat) : Heap α :=
  match i with
  | some i => h.setPrev i p
  | none => h

def insertAfter (h : Heap α) (hd : Option Nat) (c : Option Nat) (x : Nat) : Heap α × Option Nat :=
  match c with
  | some c => ((((h.setPrev x (some c)).setNext x (h c).next).setPrev? (h c).next (some x)).setNext c (some x), hd)
  | none => (((h.setPrev x none).setNext x hd).setPrev? hd (some x), some x)

def remove (h : Heap α) (hd : Option Nat) (x : Nat) : Heap α × Option Nat :=
  let h₁ := match (h x).prev with
    | some p => h.setNext p (h x).next
    | none => h
  let hd₁ := match (h x).prev with
    | some _ => hd
    | none => (h x).next
  (((h₁.setPrev? (h x).next (h x).prev).setPrev x none).setNext x none, hd₁)

section
variable (h : Heap α) (i j : Nat) (p : Option Nat) (a : α)

theorem setVal_apply : h.setVal i a j = if j = i then { h i with val := a } else h j := update_apply ..

theorem setPrev_apply : h.setPrev i p j = if j = i then { h i with prev := p } else h j := update_apply ..

theorem setNext_apply : h.setNext i p j = if j = i then { h i with next := p } else h j := update_apply ..

@[simp] theorem setVal_prev : (h.setVal i a j).prev = (h j).prev := by
  rw [setVal_apply]; split <;> simp_all

@[simp] theorem setVal_next : (h.setVal i a j).next = (h j).next := by
  rw [setVal_apply]; split <;> simp_all

@[simp] theorem setPrev_val : (h.setPrev i p j).val = (h j).val := by
  rw [setPrev_apply]; split <;> simp_all

@[simp] theorem setPrev_next : (h.setPrev i p j).next = (h j).next := by
  rw [setPrev_apply]; split <;> simp_all

@[simp] theorem setNext_val : (h.setNext i p j).val = (h j).val := by
  rw [setNext_apply]; split <;> simp_all

@[simp] theorem setNext_prev : (h.setNext i p j).prev = (h j).prev := by
  rw [setNext_apply]; split <;> simp_all

theorem setVal_val : (h.setVal i a j).val = if j = i then a else (h j).val := by
  rw [setVal_apply]; split <;> rfl

theorem setPrev_prev : (h.setPrev i p j).prev = if j = i then p else (h j).prev := by
  rw [setPrev_apply]; split <;> rfl

theorem setNext_next : (h.setNext i p j).next = if j = i then p else (h j).next := by
  rw [setNext_apply]; split <;> rfl

@[simp] theorem setPrev?_val (i : Option Nat) : (h.setPrev? i p j).val = (h j).val := by
  cases i <;> simp [setPrev?]

@[simp] theorem setPrev?_next (i : Option Nat) : (h.setPrev? i p j).next = (h j).next := by
  cases i <;> simp [setPrev?]

theorem setPrev?_prev (i : Option Nat) : (h.setPrev? i p j).prev = if i = some j then p else (h j).prev := by
  cases i with
  | none => simp [setPrev?]
  | some i => simp only [setPrev?, setPrev_prev, some.injEq, eq_comm]

end

/-! ## Segments -/

/-- Following `next` from `hd`, whose `prev` is `p`, visits `l` and arrives at `out` coming from `q`. -/
def Seg (h : Heap α) : Option Nat → Option Nat → List Nat → Option Nat → Option Nat → Prop
  | p, hd, [], q, out => p = q ∧ hd = out
  | p, hd, i :: l, q, out => hd = some i ∧ (h i).prev = p ∧ Seg h (some i) (h i).next l q out

def Linked (h : Heap α) (hd : Option Nat) (l : List Nat) : Prop := ∃ q, Seg h none hd l q none

variable {h h' : Heap α} {p hd q out : Option Nat} {l l₁ l₂ : List Nat} {c x : Nat}

theorem seg_append : Seg h p hd (l₁ ++ l₂) q out ↔ ∃ r m, Seg h p hd l₁ r m ∧ Seg h r m l₂ q out := by
  induction l₁ generalizing p hd with
  | nil =>
    constructor
    · intro hs
      exact ⟨p, hd, ⟨rfl, rfl⟩, hs⟩
    · rintro ⟨r, m, ⟨rfl, rfl⟩, hs⟩
      exact hs
  | cons i l ih =>
    simp only [cons_append, Seg, ih]
    constructor
    · rintro ⟨h1, h2, r, m, hs, ht⟩
      exact ⟨r, m, ⟨h1, h2, hs⟩, ht⟩
    · rintro ⟨r, m, ⟨h1, h2, hs⟩, ht⟩
      exact ⟨h1, h2, r, m, hs, ht⟩

theorem Seg.congr (heq : ∀ i ∈ l, (h' i).prev = (h i).prev ∧ (h' i).next = (h i).next)
    (hs : Seg h p hd l q out) : Seg h' p hd l q out := by
  induction l generalizing p hd with
  | nil => exact hs
  | cons i l ih =>
    obtain ⟨h1, h2, h3⟩ := hs
    obtain ⟨hp, hn⟩ := heq i (by simp)
    refine ⟨h1, hp.trans h2, ?_⟩
    rw [hn]
    exact ih (fun j hj => heq j (by simp [hj])) h3

theorem Seg.enter (hs : Seg h (some c) hd l q none) (h' : Heap α) (p : Option Nat)
    (hx : ∀ i ∈ l, (h' i).next = (h i).next)
    (hp : ∀ i ∈ l, (h' i).prev = if hd = some i then p else (h i).prev) (hnd : l.Nodup) :
    ∃ q', Seg h' p hd l q' none := by
  cases l with
  | nil => exact ⟨p, rfl, hs.2⟩
  | cons i l =>
    obtain ⟨rfl, h2, h3⟩ := hs
    obtain ⟨hi, hnd⟩ := nodup_cons.mp hnd
    refine ⟨q, rfl, by rw [hp i (by simp)]; simp, ?_⟩
    rw [hx i (by simp)]
    refine Seg.congr (fun j hj => ⟨?_, hx j (by simp [hj])⟩) h3
    have : i ≠ j := fun hij => hi (hij ▸ hj)
    rw [hp j (by simp [hj]), if_neg (by simpa using this)]

theorem Seg.leave {out' : Option Nat} (hs : Seg h p hd (l ++ [c]) q out)
    (heq : ∀ i ∈ l, (h' i).prev = (h i).prev ∧ (h' i).next = (h i).next)
    (hc : (h' c).prev = (h c).prev) (hn : (h' c).next = out') :
    Seg h' p hd (l ++ [c]) (some c) out' := by
  obtain ⟨r, m, h1, rfl, h2, -, -⟩ := seg_append.mp hs
  exact seg_append.mpr ⟨r, _, h1.congr heq, rfl, hc.trans h2, rfl, hn⟩

theorem Seg.mem_next {i j : Nat} (hs : Seg h p hd l q out) (hi : i ∈ l) (hj : (h i).next = some j) :
    j ∈ l ∨ out = some j := by
  induction l generalizing p hd with
  | nil => simp at hi
  | cons k l ih =>
    obtain ⟨-, -, h3⟩ := hs
    rcases mem_cons.mp hi with rfl | hi
    · cases l with
      | nil => exact .inr (by rw [← h3.2, hj])
      | cons n l => exact .inl (by rw [hj] at h3; simp [some.inj h3.1])
    · exact (ih h3 hi).imp_left fun hm => by simp [hm]

/-! ## Lists -/

theorem Linked.congr (heq : ∀ i ∈ l, (h' i).prev = (h i).prev ∧ (h' i).next = (h i).next)
    (hs : Linked h hd l) : Linked h' hd l :=
  hs.imp fun _ hs => hs.congr heq

theorem Linked.head (hs : Linked h hd l) : hd = l.head? := by
  obtain ⟨q, hs⟩ := hs
  cases l with
  | nil => exact hs.2
  | cons i l => exact hs.1

theorem Linked.next (hs : Linked h hd (l₁ ++ c :: l₂)) : (h c).next = l₂.head? := by
  obtain ⟨q, hs⟩ := hs
  obtain ⟨r, m, -, -, -, h2⟩ := seg_append.mp hs
  cases l₂ with
  | nil => exact h2.2
  | cons n l => exact h2.1

theorem Linked.insertAfter_some (hs : Linked h hd (l₁ ++ c :: l₂)) (hnd : (l₁ ++ c :: l₂).Nodup)
    (hx : x ∉ l₁ ++ c :: l₂) : Linked (h.insertAfter hd (some c) x).1 hd (l₁ ++ c :: x :: l₂) := by
  have hnt := hs.next
  obtain ⟨q, hs⟩ := hs
  obtain ⟨r, m, h1, rfl, h2, h3⟩ := seg_append.mp hs
  simp only [nodup_append, nodup_cons, mem_cons, mem_append, not_or] at hnd hx
  obtain ⟨hnd1, ⟨hc2, hnd2⟩, hdis⟩ := hnd
  obtain ⟨hx1, hxc, hx2⟩ := hx
  have hxc' : c ≠ x := fun hh => hxc hh.symm
  have hnc : (h c).next ≠ some c := by
    rw [hnt]; intro hh; exact hc2 (mem_of_head? hh)
  have hnx : (h c).next ≠ some x := by
    rw [hnt]; intro hh; exact hx2 (mem_of_head? hh)
  have hn1 : ∀ i ∈ l₁, (h c).next ≠ some i := by
    rw [hnt]; intro i hi hh; exact hdis i hi i (.inr (mem_of_head? hh)) rfl
  obtain ⟨q', h₃'⟩ := h3.enter (h.insertAfter hd (some c) x).1 (some x)
    (fun i hi => by
      have h1 : i ≠ c := fun hh => hc2 (hh ▸ hi)
      have h2 : i ≠ x := fun hh => hx2 (hh ▸ hi)
      simp [insertAfter, setNext_next, h1, h2])
    (fun i hi => by
      have h2 : i ≠ x := fun hh => hx2 (hh ▸ hi)
      simp [insertAfter, setPrev_prev, setPrev?_prev, h2])
    hnd2
  refine ⟨q', seg_append.mpr ⟨r, some c, h1.congr fun i hi => ?_, rfl, ?_, ?_⟩⟩
  · have h1 : i ≠ c := fun hh => hdis i hi c (.inl rfl) hh
    have h2 : i ≠ x := fun hh => hx1 (hh ▸ hi)
    simp [insertAfter, setPrev_prev, setPrev?_prev, setNext_next, h1, h2, hn1 i hi]
  · simp [insertAfter, setPrev_prev, setPrev?_prev, hxc', hnc, h2]
  · refine ⟨by simp [insertAfter, setNext_next], ?_, ?_⟩
    · simp [insertAfter, setPrev_prev, setPrev?_prev, hnx]
    · have : ((h.insertAfter hd (some c) x).1 x).next = (h c).next := by
        simp [insertAfter, setNext_next, hxc]
      rwa [this]

theorem Linked.insertAfter_none (hs : Linked h hd l) (hnd : l.Nodup) (hx : x ∉ l) :
    Linked (h.insertAfter hd none x).1 (some x) (x :: l) := by
  obtain ⟨q, hs⟩ := hs
  cases l with
  | nil =>
    obtain ⟨-, rfl⟩ := hs
    exact ⟨some x, rfl, by simp [insertAfter, setPrev_prev, setPrev?_prev], rfl, by simp [insertAfter, setNext_next]⟩
  | cons i l =>
    obtain ⟨rfl, h2, h3⟩ := hs
    simp only [nodup_cons, mem_cons, not_or] at hnd hx
    have hix : i ≠ x := fun hh => hx.1 hh.symm
    refine ⟨q, rfl, by simp [insertAfter, setPrev_prev, setPrev?_prev, hix], ?_⟩
    refine ⟨by simp [insertAfter, setNext_next], by simp [insertAfter, setPrev?_prev], ?_⟩
    have : ((h.insertAfter (some i) none x).1 i).next = (h i).next := by
      simp [insertAfter, setNext_next, hix]
    rw [this]
    refine h3.congr fun j hj => ?_
    have h1 : i ≠ j := fun hh => hnd.1 (hh ▸ hj)
    have h2 : j ≠ x := fun hh => hx.2 (hh ▸ hj)
    simp [insertAfter, setPrev_prev, setPrev?_prev, setNext_next, h1, h2]

theorem Linked.remove (hs : Linked h hd (l₁ ++ x :: l₂)) (hnd : (l₁ ++ x :: l₂).Nodup) :
    Linked (h.remove hd x).1 (h.remove hd x).2 (l₁ ++ l₂) := by
  have hnx := hs.next
  obtain ⟨q, hs⟩ := hs
  obtain ⟨r, m, h1, rfl, h2, h3⟩ := seg_append.mp hs
  simp only [nodup_append, nodup_cons, mem_cons] at hnd
  obtain ⟨hnd1, ⟨hx2, hnd2⟩, hdis⟩ := hnd
  have hn1 : ∀ i ∈ l₁, (h x).next ≠ some i := by
    rw [hnx]; intro i hi hh; exact hdis i hi i (.inr (mem_of_head? hh)) rfl
  have hx1 : ∀ i ∈ l₁, i ≠ x := fun i hi => hdis i hi x (.inl rfl)
  have hx₂' : ∀ i ∈ l₂, i ≠ x := fun i hi hh => hx2 (hh ▸ hi)
  rcases eq_nil_or_concat l₁ with rfl | ⟨l, c, rfl⟩
  · -- the removed node is the head
    obtain ⟨rfl, rfl⟩ := h1
    obtain ⟨q', h₃'⟩ := h3.enter (h.remove (some x) x).1 none
      (fun i hi => by simp [Heap.remove, h2, setNext_next, hx₂' i hi])
      (fun i hi => by simp [Heap.remove, h2, setPrev_prev, setPrev?_prev, hx₂' i hi])
      hnd2
    refine ⟨q', ?_⟩
    rwa [show (h.remove (some x) x).2 = (h x).next by simp [Heap.remove, h2]]
  · rw [concat_eq_append] at h1 hdis hnd1 hn1 hx1 ⊢
    have hr : r = some c := by
      obtain ⟨r', m', -, -, -, h5, -⟩ := seg_append.mp h1
      exact h5.symm
    rw [hr] at h2 h1
    have hc1 : ∀ i ∈ l, i ≠ c := by
      simp only [nodup_append, mem_singleton] at hnd1
      exact fun i hi => hnd1.2.2 i hi c rfl
    have hc2 : ∀ i ∈ l₂, i ≠ c := fun i hi hh => hdis c (by simp) i (.inr hi) hh.symm
    have hcx : c ≠ x := hx1 c (by simp)
    obtain ⟨q', h₃'⟩ := h3.enter (h.remove hd x).1 (some c)
      (fun i hi => by simp [Heap.remove, h2, setNext_next, hx₂' i hi, hc2 i hi])
      (fun i hi => by simp [Heap.remove, h2, setPrev_prev, setPrev?_prev, hx₂' i hi])
      hnd2
    have hhd : (h.remove hd x).2 = hd := by simp [Heap.remove, h2]
    refine ⟨q', seg_append.mpr ⟨some c, (h x).next, ?_, h₃'⟩⟩
    rw [hhd]
    refine h1.leave (fun i hi => ?_) ?_ ?_
    · have := hn1 i (by simp [hi])
      simp [Heap.remove, h2, setPrev_prev, setPrev?_prev, setNext_next, hx1 i (by simp [hi]), hc1 i hi, this]
    · have := hn1 c (by simp)
      simp [Heap.remove, h2, setPrev_prev, setPrev?_prev, hcx, this]
    · simp [Heap.remove, h2, setNext_next, hcx]

/-! ## What stays -/

@[simp] theorem insertAfter_val (c : Option Nat) (i : Nat) : ((h.insertAfter hd c x).1 i).val = (h i).val := by
  cases c <;> simp [insertAfter]

@[simp] theorem remove_val (i : Nat) : ((h.remove hd x).1 i).val = (h i).val := by
  simp only [Heap.remove, setNext_val, setPrev_val, setPrev?_val]
  cases (h x).prev <;> simp

theorem setVal_remove (a : α) : (h.setVal x a).remove hd x = ((h.remove hd x).1.setVal x a, (h.remove hd x).2) := by
  refine Prod.ext (funext fun i => ?_) ?_
  · cases hp : (h x).prev <;> cases hn : (h x).next <;>
      simp only [Heap.remove, setVal_prev, setVal_next, hp, hn, setPrev?] <;>
      grind [setVal_apply, setNext_apply, setPrev_apply]
  · simp only [Heap.remove, setVal_prev, setVal_next]

theorem Linked.mem_of_next (hs : Linked h hd l) (hc : c ∈ l) {n : Nat} (hn : (h c).next = some n) : n ∈ l := by
  obtain ⟨q, hs⟩ := hs
  simpa using hs.mem_next hc hn

theorem Linked.mem_of_prev (hs : Linked h hd l) (hc : c ∈ l) {n : Nat} (hn : (h c).prev = some n) : n ∈ l := by
  obtain ⟨l₁, l₂, rfl⟩ := append_of_mem hc
  obtain ⟨q, hs⟩ := hs
  obtain ⟨r, m, h1, -, h2, -⟩ := seg_append.mp hs
  rcases eq_nil_or_concat l₁ with rfl | ⟨l, d, rfl⟩
  · rw [h2, ← h1.1] at hn
    cases hn
  · rw [concat_eq_append] at h1 ⊢
    obtain ⟨r', m', -, -, -, h5, -⟩ := seg_append.mp h1
    rw [h2, ← h5] at hn
    simp [some.inj hn]

theorem Linked.mem_of_head (hs : Linked h hd l) {n : Nat} (hn : hd = some n) : n ∈ l := by
  obtain ⟨q, hs⟩ := hs
  cases l with
  | nil => rw [hs.2] at hn; cases hn
  | cons i l => rw [hs.1] at hn; simp [some.inj hn]

theorem Linked.insertAfter_other {c : Option Nat} {i : Nat} (hs : Linked h hd l) (hc : ∀ k, c = some k → k ∈ l)
    (hi : i ∉ l) (hix : i ≠ x) : (h.insertAfter hd c x).1 i = h i := by
  cases c with
  | none =>
    have : hd ≠ some i := fun hh => hi (hs.mem_of_head hh)
    cases hd with
    | none => simp [insertAfter, setPrev?, setNext_apply, setPrev_apply, hix]
    | some n =>
      have hin : i ≠ n := fun hh => this (by rw [hh])
      simp [insertAfter, setPrev?, setNext_apply, setPrev_apply, hix, hin]
  | some k =>
    have hk : i ≠ k := fun hh => hi (hh ▸ hc k rfl)
    cases hn : (h k).next with
    | none => simp [insertAfter, hn, setPrev?, setNext_apply, setPrev_apply, hix, hk]
    | some n =>
      have hin : i ≠ n := fun hh => hi (hh ▸ hs.mem_of_next (hc k rfl) hn)
      simp [insertAfter, hn, setPrev?, setNext_apply, setPrev_apply, hix, hk, hin]

theorem Linked.remove_other {i : Nat} (hs : Linked h hd l) (hx : x ∈ l) (hi : i ∉ l) : (h.remove hd x).1 i = h i := by
  have hix : i ≠ x := fun hh => hi (hh ▸ hx)
  have hip : ∀ k, (h x).prev = some k → i ≠ k := fun k hk hh => hi (hh ▸ hs.mem_of_prev hx hk)
  have hin : ∀ k, (h x).next = some k → i ≠ k := fun k hk hh => hi (hh ▸ hs.mem_of_next hx hk)
  cases hp : (h x).prev <;> cases hn : (h x).next <;>
    simp_all [Heap.remove, setPrev?, setNext_apply, setPrev_apply]

end Heap

end Yagura
