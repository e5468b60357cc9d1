import Yagura.Trans

/-!
# Mutexes

`mutex_lock` and `mutex_unlock` of `lock.c`, which count how often the holder
has locked. A task in `mutex_lock` waits for whoever holds the mutex. When all
tasks lock in the order of a rank, no task waits for itself.
-/

namespace Yagura

open Function List Option

structure Mutexes (L : Type) where
  holder : L → Option Nat
  level : L → Nat

namespace Mutexes

section
variable {L : Type}

def free : Mutexes L := ⟨fun _ => none, fun _ => 0⟩

/-- `t` is in `mutex_lock` for a mutex that `u` holds; `wants` are the mutexes that tasks are about to lock. -/
def WaitsFor (m : Mutexes L) (wants : Nat → Option L) (t u : Nat) : Prop :=
  ∃ l, wants t = some l ∧ m.holder l = some u ∧ u ≠ t

def Deadlock (m : Mutexes L) (wants : Nat → Option L) : Prop := ∃ t, Relation.TransGen (m.WaitsFor wants) t t

theorem no_deadlock_of_rank {m : Mutexes L} {wants : Nat → Option L} (rank : L → Nat)
    (h : ∀ t u l k, wants t = some l → m.holder l = some u → u ≠ t → m.holder k = some t → rank k < rank l) :
    ¬ m.Deadlock wants := by
  -- whatever the last task of a chain waits for is above what the first one waits for
  have hup : ∀ t u, Relation.TransGen (m.WaitsFor wants) t u → ∀ l, wants t = some l →
      ∃ k, m.holder k = some u ∧ rank l ≤ rank k := by
    intro t u htu l hl
    induction htu with
    | single hw =>
      obtain ⟨l', hl', hu, -⟩ := hw
      obtain rfl : l = l' := mem_unique hl hl'
      exact ⟨l, hu, le_rfl⟩
    | tail _ hw ih =>
      obtain ⟨k, hk, hle⟩ := ih
      obtain ⟨l', hl', hu, hne⟩ := hw
      exact ⟨l', hu, hle.trans (h _ _ l' k hl' hu hne hk).le⟩
  rintro ⟨t, ht⟩
  obtain ⟨u, ⟨l, hl, hu, hne⟩, -⟩ := Relation.TransGen.head'_iff.mp ht
  obtain ⟨k, hk, hle⟩ := hup t t ht l hl
  exact absurd hle (Nat.not_le.mpr (h t u l k hl hu hne hk))

variable [DecidableEq L]

def lock (m : Mutexes L) (t : Nat) (l : L) : Option (Mutexes L) :=
  if m.holder l = none ∨ m.holder l = some t then
    some ⟨update m.holder l (some t), update m.level l (m.level l + 1)⟩
  else none

def unlock (m : Mutexes L) (t : Nat) (l : L) : Option (Mutexes L) :=
  if m.holder l = some t ∧ 0 < m.level l then
    some ⟨if m.level l - 1 = 0 then update m.holder l none else m.holder,
      update m.level l (m.level l - 1)⟩
  else none

/-- The mutexes that the tasks hold, each as often as it was locked. -/
structure Holds (m : Mutexes L) (held : Nat → List L) : Prop where
  mem : ∀ t l, l ∈ held t ↔ m.holder l = some t
  level : ∀ t l, m.holder l = some t → m.level l = (held t).count l
  unheld : ∀ l, m.holder l = none → m.level l = 0

theorem holds_free : (free : Mutexes L).Holds fun _ => [] :=
  ⟨fun _ _ => ⟨nofun, nofun⟩, nofun, fun _ _ => rfl⟩

section
variable {m m' : Mutexes L} {held : Nat → List L} {t : Nat} {l : L}

theorem Holds.level_eq (h : m.Holds held) (hl : m.holder l = none ∨ m.holder l = some t) :
    m.level l = (held t).count l := by
  rcases hl with hnn | hse
  · have hmem : l ∉ held t := by
      intro hmem
      cases hnn.symm.trans ((h.mem t l).mp hmem)
    rw [h.unheld l hnn, count_eq_zero_of_not_mem hmem]
  · exact h.level t l hse

theorem Holds.lock (h : m.Holds held) (hm : m.lock t l = some m') : m'.Holds (update held t (l :: held t)) := by
  unfold Mutexes.lock at hm
  split at hm
  · rename_i hfr
    cases hm
    have hot : ∀ u, u ≠ t → l ∉ held u := by
      intro u hut hu
      have hh := (h.mem u l).mp hu
      rcases hfr with hnn | hse
      · cases hnn.symm.trans hh
      · exact hut (mem_unique hse hh).symm
    refine ⟨fun u k => ?_, fun u k hk => ?_, fun k hk => ?_⟩
    · by_cases hut : u = t
      · subst hut
        by_cases hkl : k = l
        · subst hkl
          simp
        · simp [hkl, h.mem]
      · by_cases hkl : k = l
        · subst hkl
          simp [hut, hot u hut, Ne.symm hut]
        · simp [hut, hkl, h.mem]
    · by_cases hkl : k = l
      · subst hkl
        obtain rfl : t = u := by simpa using hk
        simp [h.level_eq hfr]
      · have hk' : m.holder k = some u := by simpa [hkl] using hk
        by_cases hut : u = t
        · subst hut
          simp [hkl, Ne.symm hkl, h.level u k hk']
        · simp [hkl, hut, h.level u k hk']
    · by_cases hkl : k = l
      · subst hkl
        simp at hk
      · have hk' : m.holder k = none := by simpa [hkl] using hk
        simp [hkl, h.unheld k hk']
  · cases hm

theorem Holds.unlock (h : m.Holds held) (hm : m.unlock t l = some m') :
    m'.Holds (update held t ((held t).erase l)) := by
  unfold Mutexes.unlock at hm
  split at hm
  · rename_i hhe
    obtain ⟨hse, -⟩ := hhe
    cases hm
    have hle := h.level t l hse
    have hot : ∀ u, u ≠ t → l ∉ held u := by
      intro u hut hu
      exact hut (some.inj (hse.symm.trans ((h.mem u l).mp hu))).symm
    -- the mutex stays with its holder as long as the holder has locked it more often
    have hlf : l ∈ (held t).erase l ↔ m.level l - 1 ≠ 0 := by
      rw [hle, ← count_erase_self, ← count_pos_iff]
      exact Nat.pos_iff_ne_zero
    refine ⟨fun u k => ?_, fun u k hk => ?_, fun k hk => ?_⟩
    · by_cases hkl : k = l
      · subst hkl
        by_cases hut : u = t
        · subst hut
          split <;> simp_all
        · split <;> simp_all [Ne.symm hut]
      · have hmem : k ∈ update held t ((held t).erase l) u ↔ k ∈ held u := by
          by_cases hut : u = t
          · subst hut
            rw [update_self, mem_erase_of_ne hkl]
          · rw [update_of_ne hut]
        rw [hmem, h.mem]
        split <;> simp [hkl]
    · by_cases hkl : k = l
      · subst hkl
        split at hk
        · simp at hk
        · obtain rfl : t = u := mem_unique hse hk
          simp [hle]
      · have hk' : m.holder k = some u := by
          split at hk
          · simpa [hkl] using hk
          · exact hk
        by_cases hut : u = t
        · subst hut
          simp [hkl, h.level u k hk', count_erase_of_ne hkl]
        · simp [hkl, hut, h.level u k hk']
    · by_cases hkl : k = l
      · subst hkl
        split at hk
        · rename_i hz
          simp [hz]
        · cases hse.symm.trans hk
      · have hk' : m.holder k = none := by
          split at hk
          · simpa [hkl] using hk
          · exact hk
        simp [hkl, h.unheld k hk']
  · cases hm

theorem Holds.exists_unlock (h : m.Holds held) (hl : l ∈ held t) : ∃ m', m.unlock t l = some m' := by
  have hse := (h.mem t l).mp hl
  have hpos : 0 < m.level l := by
    rw [h.level t l hse]
    exact count_pos_iff.mpr hl
  exact ⟨_, if_pos ⟨hse, hpos⟩⟩

end

end

end Mutexes

end Yagura
