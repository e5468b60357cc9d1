import Mathlib

/-!
# Waiting on a condition

A call looks at the state and finishes with a result, or it goes to sleep and
looks again each time it is visited. Between the visits the state changes
arbitrarily; a visit that finds the call interrupted ends it. `blockOn` is such
a call with a given decision, `Allowed` says what a specification of a single
look permits for the whole call.
-/

namespace Yagura

open List

section
variable {ν ρ : Type}

/-- The call that starts with the look `v`: its result and the visits it did not need, or `none` if it sleeps. -/
def blockOn (decision interrupted : ν → Option ρ) : ν → List ν → Option (ρ × List ν)
  | v, [] => (decision v).map (·, [])
  | v, w :: visits =>
    match decision v with
    | some r => some (r, w :: visits)
    | none =>
      match interrupted w with
      | some r => some (r, visits)
      | none => blockOn decision interrupted w visits

inductive Allowed (spec : ν → Option ρ → Prop) (interrupted : ν → Option ρ) :
    ν → List ν → Option (ρ × List ν) → Prop
  | finish {v visits r} : spec v (some r) → Allowed spec interrupted v visits (some (r, visits))
  | asleep {v} : spec v none → Allowed spec interrupted v [] none
  | interrupted {v w visits r} : spec v none → interrupted w = some r →
      Allowed spec interrupted v (w :: visits) (some (r, visits))
  | later {v w visits o} : spec v none → interrupted w = none → Allowed spec interrupted w visits o →
      Allowed spec interrupted v (w :: visits) o

def LooksFit (fits waits : ν → Prop) (interrupted : ν → Option ρ) : ν → List ν → Prop
  | v, [] => fits v
  | v, w :: visits => fits v ∧ (waits v → interrupted w = none → LooksFit fits waits interrupted w visits)

variable {spec : ν → Option ρ → Prop} {decision interrupted : ν → Option ρ} {v w : ν} {visits rest : List ν} {r : ρ}

theorem blockOn_some (h : decision v = some r) : blockOn decision interrupted v visits = some (r, visits) := by
  cases visits with
  | nil => rw [blockOn, h]; rfl
  | cons w visits => rw [blockOn, h]

theorem blockOn_none (h : decision v = none) : blockOn decision interrupted v (w :: visits) =
    match interrupted w with
    | some r => some (r, visits)
    | none => blockOn decision interrupted w visits := by
  rw [blockOn, h]

theorem blockOn_visits_le (h : blockOn decision interrupted v visits = some (r, rest)) :
    rest.length ≤ visits.length := by
  induction visits generalizing v with
  | nil =>
    rw [blockOn, Option.map_eq_some_iff] at h
    obtain ⟨_, -, heq⟩ := h
    cases heq
    exact le_rfl
  | cons w visits ih =>
    cases hd : decision v with
    | some r' =>
      rw [blockOn_some hd] at h
      cases h
      exact le_rfl
    | none =>
      rw [blockOn_none hd] at h
      cases hi : interrupted w with
      | some r' =>
        rw [hi] at h
        cases h
        simp
      | none =>
        rw [hi] at h
        exact (ih h).trans (by simp)

theorem Allowed.visits_le {o : Option (ρ × List ν)} (h : Allowed spec interrupted v visits o)
    (ho : o = some (r, rest)) : rest.length ≤ visits.length := by
  induction h with
  | finish _ => cases ho; exact le_rfl
  | asleep _ => cases ho
  | interrupted _ _ => cases ho; simp
  | later _ _ _ ih => exact (ih ho).trans (by simp)

theorem allowed_finish_iff : Allowed spec interrupted v visits (some (r, visits)) ↔ spec v (some r) := by
  constructor
  · intro h
    generalize ho : some (r, visits) = o at h
    cases h with
    | finish h => cases ho; exact h
    | asleep _ => cases ho
    | interrupted _ _ =>
      injection ho with heq
      injection heq with _ hre
      exact absurd hre (cons_ne_self _ _)
    | later _ _ h =>
      have hle := h.visits_le ho.symm
      exact absurd hle (by simp)
  · exact .finish

theorem allowed_interrupted_iff (hi : interrupted w = some r) :
    Allowed spec interrupted v (w :: visits) (some (r, visits)) ↔ spec v none := by
  constructor
  · intro h
    generalize ho : some (r, visits) = o at h
    cases h with
    | finish _ =>
      injection ho with heq
      injection heq with _ hre
      exact absurd hre.symm (cons_ne_self _ _)
    | interrupted h _ => exact h
    | later h _ _ => exact h
  · exact fun h => .interrupted h hi

theorem allowed_later_iff (hi : interrupted w = none) :
    Allowed spec interrupted v (w :: visits) (blockOn decision interrupted w visits) ↔
      spec v none ∧ Allowed spec interrupted w visits (blockOn decision interrupted w visits) := by
  constructor
  · intro h
    generalize ho : blockOn decision interrupted w visits = o at h
    cases h with
    | finish _ => exact absurd (blockOn_visits_le ho) (by simp)
    | interrupted _ hi' => rw [hi] at hi'; cases hi'
    | later h _ h' => exact ⟨h, h'⟩
  · exact fun ⟨h, h'⟩ => .later h hi h'

theorem allowed_blockOn_iff {fits waits : ν → Prop} (hfi : ∀ v, spec v (decision v) ↔ fits v)
    (hwa : ∀ v, decision v = none ↔ waits v) (v : ν) (visits : List ν) :
    Allowed spec interrupted v visits (blockOn decision interrupted v visits) ↔
      LooksFit fits waits interrupted v visits := by
  induction visits generalizing v with
  | nil =>
    rw [LooksFit, ← hfi]
    cases hd : decision v with
    | some r => rw [blockOn_some hd, allowed_finish_iff]
    | none =>
      rw [blockOn, hd]
      constructor
      · intro h
        cases h with
        | asleep h => exact h
      · exact .asleep
  | cons w visits ih =>
    rw [LooksFit, ← hfi, ← hwa]
    cases hd : decision v with
    | some r =>
      rw [blockOn_some hd, allowed_finish_iff]
      simp only [reduceCtorEq, false_imp_iff, and_true]
    | none =>
      rw [blockOn_none hd]
      simp only [true_imp_iff]
      cases hi : interrupted w with
      | some r =>
        simp only [reduceCtorEq, false_imp_iff, and_true]
        exact allowed_interrupted_iff hi
      | none =>
        simp only [true_imp_iff]
        rw [← ih w]
        exact allowed_later_iff hi

end

end Yagura
