import Yagura.Trans

/-!
# Tickets for the slots of a ring

Positions are handed out in order, and position `j` belongs to slot `j % c`.
Whoever has a position fills its slot later, in any order; slots are emptied
in the order of the positions. While at most `c` positions are handed out and
not taken, a slot is empty until its position is filled, and what is taken
next is what has the next position.
-/

namespace Yagura

open Function Nat

theorem eq_of_mod_eq {a b c T : Nat} (h : a % c = b % c) (ha : T ≤ a) (ha' : a < T + c) (hb : T ≤ b) (hb' : b < T + c) :
    a = b := by
  have key : ∀ {a b : Nat}, a ≤ b → b - a < c → a % c = b % c → a = b := by
    intro a b hab hlt hmod
    have hze := sub_mod_eq_zero_of_mod_eq hmod.symm
    rw [mod_eq_of_lt hlt] at hze
    omega
  rcases le_total a b with hab | hba
  · exact key hab (by omega) h
  · exact (key hba (by omega) h.symm).symm

/-- `claimed` have got positions in this order and the first `T` have been taken; `pos t` is the position that `t`
has got and not filled. -/
structure Tickets {α : Type} (c T : Nat) (claimed : List α) (slots : Nat → Option α) (pos : Nat → Option Nat) : Prop where
  le : T ≤ claimed.length
  room : claimed.length ≤ T + c
  pending : ∀ t j, pos t = some j → T ≤ j ∧ j < claimed.length ∧ slots (j % c) = none
  distinct : ∀ t t' j, pos t = some j → pos t' = some j → t = t'
  filled : ∀ j, T ≤ j → j < claimed.length → (∀ t, pos t ≠ some j) → slots (j % c) = claimed[j]?
  sound : ∀ k x, slots k = some x → ∃ j, T ≤ j ∧ j < claimed.length ∧ k = j % c ∧ ∀ t, pos t ≠ some j

namespace Tickets

section
variable {α : Type} {c T : Nat} {claimed : List α} {slots : Nat → Option α} {pos : Nat → Option Nat} {x : α} {t j k : Nat}

theorem empty (c : Nat) : Tickets c 0 ([] : List α) (fun _ => none) fun _ => none :=
  ⟨le_rfl, zero_le _, nofun, nofun, fun _ _ h => absurd h (not_lt_zero _), nofun⟩

section
variable (h : Tickets c T claimed slots pos)
include h

theorem congr {pos' : Nat → Option Nat} (hpos : ∀ t, pos' t = pos t) : Tickets c T claimed slots pos' := by
  obtain rfl : pos' = pos := funext hpos
  exact h

theorem next_empty (hro : claimed.length < T + c) : slots (claimed.length % c) = none := by
  by_contra hne
  obtain ⟨x, hx⟩ := Option.ne_none_iff_exists'.mp hne
  obtain ⟨j, hT, hj, hmod, -⟩ := h.sound _ x hx
  have := eq_of_mod_eq hmod h.le hro hT (by omega)
  omega

theorem claim (hro : claimed.length < T + c) (hpos : pos t = none) (x : α) :
    Tickets c T (claimed ++ [x]) slots (update pos t (some claimed.length)) := by
  have hlen : (claimed ++ [x]).length = claimed.length + 1 := List.length_append
  have hold : ∀ u j, update pos t (some claimed.length) u = some j →
      u = t ∧ j = claimed.length ∨ u ≠ t ∧ pos u = some j := by
    intro u j hu
    by_cases hut : u = t
    · subst hut
      rw [update_self] at hu
      exact .inl ⟨rfl, (Option.some.inj hu).symm⟩
    · rw [update_of_ne hut] at hu
      exact .inr ⟨hut, hu⟩
  have hnn : ∀ j, (∀ u, update pos t (some claimed.length) u ≠ some j) → ∀ u, pos u ≠ some j := by
    intro j hj u hu
    by_cases hut : u = t
    · rw [hut, hpos] at hu
      cases hu
    · exact hj u (by rw [update_of_ne hut]; exact hu)
  refine ⟨?_, ?_, ?_, ?_, ?_, ?_⟩
  · rw [hlen]
    exact le_succ_of_le h.le
  · rw [hlen]
    exact hro
  · intro u j hu
    rw [hlen]
    obtain ⟨-, rfl⟩ | ⟨-, hu⟩ := hold u j hu
    · exact ⟨h.le, lt_succ_self _, h.next_empty hro⟩
    · obtain ⟨hT, hj, hsl⟩ := h.pending u j hu
      exact ⟨hT, lt_succ_of_lt hj, hsl⟩
  · intro u v j hu hv
    obtain ⟨rfl, hj⟩ | ⟨-, hu⟩ := hold u j hu
    · obtain ⟨rfl, -⟩ | ⟨-, hv⟩ := hold v j hv
      · rfl
      · have := (h.pending v j hv).2.1
        omega
    · obtain ⟨-, hj⟩ | ⟨-, hv⟩ := hold v j hv
      · have := (h.pending u j hu).2.1
        omega
      · exact h.distinct u v j hu hv
  · intro j hT hj hfr
    have hlt : j < claimed.length := by
      have hne : j ≠ claimed.length := fun hj => hfr t (by rw [update_self, hj])
      omega
    rw [List.getElem?_append_left hlt]
    exact h.filled j hT hlt (hnn j hfr)
  · intro k y hy
    obtain ⟨j, hT, hj, hk, hfr⟩ := h.sound k y hy
    refine ⟨j, hT, by omega, hk, fun u hu => ?_⟩
    obtain ⟨-, rfl⟩ | ⟨-, hu⟩ := hold u j hu
    · exact absurd hj (lt_irrefl _)
    · exact hfr u hu

theorem publish (hpos : pos t = some j) (hx : claimed[j]? = some x) :
    Tickets c T claimed (update slots (j % c) (some x)) (update pos t none) := by
  obtain ⟨hT, hj, -⟩ := h.pending t j hpos
  have hro := h.room
  have hold : ∀ u i, update pos t none u = some i → u ≠ t ∧ pos u = some i := by
    intro u i hu
    have hut : u ≠ t := by
      rintro rfl
      rw [update_self] at hu
      cases hu
    rw [update_of_ne hut] at hu
    exact ⟨hut, hu⟩
  -- positions that are not taken have different slots
  have hot : ∀ i, T ≤ i → i < claimed.length → i ≠ j → i % c ≠ j % c := fun i hTi hi hne hmod =>
    hne (eq_of_mod_eq hmod hTi (by omega) hT (by omega))
  refine ⟨h.le, h.room, ?_, ?_, ?_, ?_⟩
  · intro u i hu
    obtain ⟨hut, hu⟩ := hold u i hu
    obtain ⟨hTi, hi, hsl⟩ := h.pending u i hu
    have hne : i ≠ j := fun hij => hut (h.distinct u t i hu (hij ▸ hpos))
    exact ⟨hTi, hi, by rw [update_of_ne (hot i hTi hi hne)]; exact hsl⟩
  · intro u v i hu hv
    exact h.distinct u v i (hold u i hu).2 (hold v i hv).2
  · intro i hTi hi hfr
    by_cases hij : i = j
    · rw [hij, update_self, hx]
    · rw [update_of_ne (hot i hTi hi hij)]
      refine h.filled i hTi hi fun u hu => ?_
      have hut : u ≠ t := fun hut => hij (Option.some.inj (hu.symm.trans (hut ▸ hpos)))
      exact hfr u (by rw [update_of_ne hut]; exact hu)
  · intro k y hy
    by_cases hk : k = j % c
    · exact ⟨j, hT, hj, hk, fun u hu => (hold u j hu).1 (h.distinct u t j (hold u j hu).2 hpos)⟩
    · rw [update_of_ne hk] at hy
      obtain ⟨i, hTi, hi, hki, hfr⟩ := h.sound k y hy
      exact ⟨i, hTi, hi, hki, fun u hu => hfr u (hold u i hu).2⟩

theorem next_taken (hx : slots (T % c) = some x) :
    T < claimed.length ∧ claimed[T]? = some x ∧ ∀ t, pos t ≠ some T := by
  have hro := h.room
  obtain ⟨j, hT, hj, hmod, hfr⟩ := h.sound _ x hx
  obtain rfl : T = j := eq_of_mod_eq hmod le_rfl (by omega) hT (by omega)
  exact ⟨hj, (h.filled T le_rfl hj hfr).symm.trans hx, hfr⟩

theorem take (hx : slots (T % c) = some x) : Tickets c (T + 1) claimed (update slots (T % c) none) pos := by
  obtain ⟨hlt, -, hfr⟩ := h.next_taken hx
  have hro := h.room
  have hot : ∀ i, T + 1 ≤ i → i < claimed.length → i % c ≠ T % c := fun i hTi hi hmod => by
    have := eq_of_mod_eq hmod (show T ≤ i by omega) (by omega) le_rfl (by omega)
    omega
  refine ⟨hlt, by omega, ?_, h.distinct, ?_, ?_⟩
  · intro u i hu
    obtain ⟨hTi, hi, hsl⟩ := h.pending u i hu
    have hne : i ≠ T := fun hiT => hfr u (hiT ▸ hu)
    exact ⟨by omega, hi, by rw [update_of_ne (hot i (by omega) hi)]; exact hsl⟩
  · intro i hTi hi hnn
    rw [update_of_ne (hot i hTi hi)]
    exact h.filled i (by omega) hi hnn
  · intro k y hy
    have hk : k ≠ T % c := by
      rintro rfl
      rw [update_self] at hy
      cases hy
    rw [update_of_ne hk] at hy
    obtain ⟨i, hTi, hi, hki, hnn⟩ := h.sound k y hy
    have hne : i ≠ T := fun hiT => hk (hiT ▸ hki)
    exact ⟨i, by omega, hi, hki, hnn⟩

end

end

end Tickets

end Yagura
