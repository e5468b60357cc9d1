import Yagura.Prog

/-!
# Labelled runs and tallies

A run is a sequence of labelled steps; `ok` restricts which steps a run may
take, so that "every step of the run meets the condition" is part of the run.
A tally sums a weight over finitely many places; updating one place changes
the tally by the difference of its weights.
-/

namespace Yagura

open Finset Function

/-! ## Runs -/

section
variable {σ ε : Type} (step : σ → ε → σ → Prop) (ok : σ → ε → Prop) {s u : σ}

/-- `Run step ok s s'`: `s'` is reached from `s` by steps that all meet `ok`
in the state they start from. -/
inductive Run : σ → σ → Prop
  | refl (s : σ) : Run s s
  | tail {s t u : σ} {e : ε} : Run s t → step t e u → ok t e → Run s u

variable {step ok}

theorem Run.head {t : σ} {e : ε} (h : step s e t) (hok : ok s e) (hr : Run step ok t u) : Run step ok s u := by
  induction hr with
  | refl => exact .tail (.refl s) h hok
  | tail _ ht hok' ih => exact .tail ih ht hok'

theorem Run.trans {t : σ} (h : Run step ok s t) (hr : Run step ok t u) : Run step ok s u := by
  induction hr with
  | refl => exact h
  | tail _ hs hok ih => exact .tail ih hs hok

theorem Run.invariant {I : σ → Prop} {s' : σ} (hr : Run step ok s s') (h0 : I s)
    (hst : ∀ s e s', I s → step s e s' → ok s e → I s') : I s' := by
  induction hr with
  | refl => exact h0
  | tail _ ht hok ih => exact hst _ _ _ ih ht hok

theorem Run.imp {step' : σ → ε → σ → Prop} {s' : σ} (hr : Run step ok s s') (h : ∀ s e t, step s e t → step' s e t) :
    Run step' ok s s' := by
  induction hr with
  | refl => exact .refl _
  | tail _ ht hok ih => exact .tail ih (h _ _ _ ht) hok

theorem Run.weaken {ok' : σ → ε → Prop} {s' : σ} (hr : Run step ok s s') (h : ∀ s e, ok s e → ok' s e) :
    Run step ok' s s' := by
  induction hr with
  | refl => exact .refl _
  | tail _ ht hok ih => exact .tail ih ht (h _ _ hok)

/-- The state after the events `es`, if each is possible where it is taken and meets `ok`. -/
def follow (exec : σ → ε → Option σ) (ok : σ → ε → Prop) [∀ s e, Decidable (ok s e)] : List ε → σ → Option σ
  | [], s => some s
  | e :: es, s =>
    if ok s e then
      match exec s e with
      | some t => follow exec ok es t
      | none => none
    else none

theorem follow_run {exec : σ → ε → Option σ} [∀ s e, Decidable (ok s e)] {es : List ε}
    (h : follow exec ok es s = some u) : Run (fun s e t => exec s e = some t) ok s u := by
  induction es generalizing s with
  | nil =>
    cases h
    exact .refl _
  | cons e es ih =>
    rw [follow] at h
    split at h
    · rename_i hok
      split at h
      · rename_i t ht
        exact Run.head ht hok (ih h)
      · cases h
    · cases h

theorem exists_follow (exec : σ → ε → Option σ) (ok : σ → ε → Prop) [∀ s e, Decidable (ok s e)] (es : List ε)
    (s : σ) (P : σ → Prop) [DecidablePred P] (h : (follow exec ok es s).any (fun u => decide (P u)) = true) :
    ∃ u, Run (fun s e t => exec s e = some t) ok s u ∧ P u := by
  cases hf : follow exec ok es s with
  | none =>
    rw [hf] at h
    cases h
  | some u =>
    rw [hf] at h
    exact ⟨u, follow_run hf, of_decide_eq_true h⟩

theorem exists_follow_except {τ : Type} (exec : σ → ε → Except τ σ) (ok : σ → ε → Prop) [∀ s e, Decidable (ok s e)]
    (es : List ε) (s : σ) (P : σ → Prop) [DecidablePred P]
    (h : (follow (fun s e => (exec s e).toOption) ok es s).any (fun u => decide (P u)) = true) :
    ∃ u, Run (fun s e t => exec s e = .ok t) ok s u ∧ P u := by
  obtain ⟨u, hr, hP⟩ := exists_follow _ ok es s P h
  refine ⟨u, hr.imp fun s e t hs => ?_, hP⟩
  cases hex : exec s e with
  | ok v =>
    rw [hex] at hs
    cases hs
    rfl
  | error f =>
    rw [hex] at hs
    cases hs

theorem exists_follow_prog {τ α : Type} (x : ε → Prog σ τ α) (ok : σ → ε → Prop) [∀ s e, Decidable (ok s e)]
    (es : List ε) (s : σ) (P : σ → Prop) [DecidablePred P]
    (h : (follow (fun s e => (x e).after s) ok es s).any (fun u => decide (P u)) = true) :
    ∃ u, Run (fun s e t => ∃ r, x e s = .ok (r, t)) ok s u ∧ P u := by
  obtain ⟨u, hr, hP⟩ := exists_follow _ ok es s P h
  exact ⟨u, hr.imp fun _ _ _ hs => Prog.after_some hs, hP⟩

section
variable {ι : Type} (next : (s : σ) → ι → Option { p : ε × σ // step s p.1 p.2 }) (ok : σ → ε → Prop)
  [∀ s e, Decidable (ok s e)]

/-- The state after the choices `l`, where `next` computes the step a choice stands for. -/
def schedule (s : σ) : List ι → Option { s' : σ // Run step ok s s' }
  | [] => some ⟨s, .refl s⟩
  | i :: l =>
    match next s i with
    | some ⟨(e, t), h⟩ => if hok : ok s e then (schedule t l).map fun r => ⟨r.1, .head h hok r.2⟩ else none
    | none => none

theorem exists_schedule (s : σ) (l : List ι) (P : σ → Prop) [DecidablePred P]
    (h : (schedule next ok s l).any (fun r => decide (P r.1)) = true) : ∃ s', Run step ok s s' ∧ P s' := by
  cases hr : schedule next ok s l with
  | none => simp [hr] at h
  | some r => exact ⟨r.1, r.2, by simpa [hr] using h⟩

end

end

/-! ## Tallies -/

section
variable {α : Type} {n i j : Nat} {g : Nat → α} {f : α → Nat}

def tally (n : Nat) (g : Nat → α) (f : α → Nat) : Nat := ∑ i ∈ Finset.range n, f (g i)

theorem tally_update (f : α → Nat) (hi : i < n) (a : α) : tally n (update g i a) f + f (g i) = tally n g f + f a := by
  have hmem : i ∈ range n := mem_range.mpr hi
  unfold tally
  rw [← add_sum_erase _ (fun j => f (g j)) hmem, ← add_sum_erase _ (fun j => f (update g i a j)) hmem]
  have : ∀ j ∈ (range n).erase i, f (update g i a j) = f (g j) := by
    intro j hj
    rw [update_of_ne (ne_of_mem_erase hj)]
  rw [sum_congr rfl this, update_self]
  omega

theorem tally_update_ge (f : α → Nat) (hi : n ≤ i) (a : α) : tally n (update g i a) f = tally n g f :=
  sum_congr rfl fun j hj => by
    rw [update_of_ne (by have := mem_range.mp hj; omega)]

theorem tally_succ (n : Nat) (g : Nat → α) (f : α → Nat) : tally (n + 1) g f = tally n g f + f (g n) :=
  sum_range_succ _ _

theorem tally_add (n : Nat) (g : Nat → α) (f f' : α → Nat) :
    tally n g (fun a => f a + f' a) = tally n g f + tally n g f' := sum_add_distrib

theorem tally_mono {f' : α → Nat} (h : ∀ a, f a ≤ f' a) : tally n g f ≤ tally n g f' :=
  sum_le_sum fun _ _ => h _

theorem le_tally (f : α → Nat) (hi : i < n) : f (g i) ≤ tally n g f :=
  single_le_sum (f := fun i => f (g i)) (fun _ _ => Nat.zero_le _) (mem_range.mpr hi)

theorem tally_eq_zero (h : ∀ i < n, f (g i) = 0) : tally n g f = 0 :=
  sum_eq_zero fun _ hi => h _ (mem_range.mp hi)

theorem tally_extend {m : Nat} (hmn : m ≤ n) (h : ∀ j, m ≤ j → j < n → f (g j) = 0) : tally n g f = tally m g f := by
  refine (sum_subset (range_subset_range.mpr hmn) fun j hj hm => ?_).symm
  exact h j (by simpa using hm) (mem_range.mp hj)

theorem tally_single (hi : i < n) (h : ∀ j < n, j ≠ i → f (g j) = 0) : tally n g f = f (g i) :=
  sum_eq_single_of_mem _ (mem_range.mpr hi) fun j hj => h j (mem_range.mp hj)

theorem add_le_tally (f : α → Nat) (hi : i < n) (hj : j < n) (hij : i ≠ j) : f (g i) + f (g j) ≤ tally n g f := by
  have hmem : i ∈ range n := mem_range.mpr hi
  unfold tally
  rw [← add_sum_erase _ (fun k => f (g k)) hmem]
  have : f (g j) ≤ ∑ k ∈ (range n).erase i, f (g k) :=
    single_le_sum (f := fun k => f (g k)) (fun _ _ => Nat.zero_le _)
      (mem_erase.mpr ⟨hij.symm, mem_range.mpr hj⟩)
  omega

end

end Yagura
