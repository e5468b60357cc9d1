import Yagura.Mutex

/-!
# The steps of a mutex

`mutex_lock` and `mutex_unlock` of `lock.c`, one access to shared memory at a
time. Any number of calls run them at once on any number of mutexes, several of
them for one task when interrupt handlers run on top of it. The steps refine the
mutexes of `Mutexes`: a call takes or gives up the mutex when it releases the
lock word.
-/

namespace Yagura

open Function

namespace Locks

/-! ## The code -/

structure Mutex where
  lock : Bool
  holder : Option Nat
  level : BitVec 32

inductive MutexPc
  | lockCas | lockTest | lockHold | lockLoad | lockStore (level : BitVec 32) | lockDone | lockRelease
  | unlockCas | unlockTest | unlockLoad | unlockStore (level : BitVec 32) | unlockClear | unlockDone
  deriving DecidableEq

inductive After (P : Type)
  | goto (p : P)
  | locked
  | unlocked
  | freed (p : P)
  | returned

def mutexStep (m : Mutex) (current : Nat) : MutexPc → Option (Mutex × After MutexPc)
  -- `sched_yield` when the word is taken, then the loop again
  | .lockCas => if m.lock then some (m, .goto .lockCas) else some ({ m with lock := true }, .goto .lockTest)
  | .lockTest =>
    if m.holder = none ∨ m.holder = some current then some (m, .goto .lockHold) else some (m, .goto .lockRelease)
  | .lockHold => some ({ m with holder := some current }, .goto .lockLoad)
  | .lockLoad => some (m, .goto (.lockStore m.level))
  | .lockStore level => some ({ m with level := level + 1 }, .goto .lockDone)
  | .lockDone => some ({ m with lock := false }, .locked)
  | .lockRelease => some ({ m with lock := false }, .goto .lockCas)
  | .unlockCas => if m.lock then some (m, .goto .unlockCas) else some ({ m with lock := true }, .goto .unlockTest)
  | .unlockTest => if m.holder = some current then some (m, .goto .unlockLoad) else none
  | .unlockLoad => if m.level = 0 then none else some (m, .goto (.unlockStore m.level))
  | .unlockStore level =>
    some ({ m with level := level - 1 }, .goto (if level - 1 = 0 then .unlockClear else .unlockDone))
  | .unlockClear => some ({ m with holder := none }, .goto .unlockDone)
  | .unlockDone => some ({ m with lock := false }, .unlocked)

/-- Between the atomic exchange that takes the lock word and the store that releases it. -/
def MutexPc.inside : MutexPc → Bool
  | .lockCas | .unlockCas => false
  | _ => true

def MutexPc.unlocks : MutexPc → Bool
  | .unlockCas | .unlockTest | .unlockLoad | .unlockStore _ | .unlockClear | .unlockDone => true
  | _ => false

structure MutexView where
  mutex : Nat → Mutex
  pc : Nat → Nat → Option (Nat × MutexPc)
  held : Nat → List Nat

namespace MutexView

def put (v : MutexView) (t k m : Nat) (mx : Mutex) (pc : Option (Nat × MutexPc)) (held : List Nat) : MutexView where
  mutex := update v.mutex m mx
  pc := update v.pc t (update (v.pc t) k pc)
  held := update v.held t held

/-! ## The invariant -/

section
variable (a : Mutexes Nat)

def Same (mx : Mutex) (m : Nat) : Prop := mx.holder = a.holder m ∧ mx.level.toNat = a.level m

def At (mx : Mutex) (m t : Nat) : MutexPc → Prop
  | .lockCas | .unlockCas => True
  | .lockTest | .lockRelease | .unlockTest => Same a mx m
  | .lockHold => Same a mx m ∧ (a.holder m = none ∨ a.holder m = some t)
  | .lockLoad => mx.holder = some t ∧ mx.level.toNat = a.level m ∧ (a.holder m = none ∨ a.holder m = some t)
  | .lockStore level =>
    mx.holder = some t ∧ level.toNat = a.level m ∧ (a.holder m = none ∨ a.holder m = some t)
  | .lockDone =>
    mx.holder = some t ∧ mx.level.toNat = a.level m + 1 ∧ (a.holder m = none ∨ a.holder m = some t)
  | .unlockLoad => Same a mx m ∧ a.holder m = some t
  | .unlockStore level =>
    mx.holder = some t ∧ level.toNat = a.level m ∧ a.holder m = some t ∧ 0 < a.level m
  | .unlockClear => mx.level = 0 ∧ a.holder m = some t ∧ a.level m = 1
  | .unlockDone =>
    a.holder m = some t ∧ a.level m = mx.level.toNat + 1 ∧ mx.holder = if mx.level = 0 then none else some t

structure Inv (v : MutexView) : Prop where
  holds : a.Holds v.held
  word : ∀ {t k m p}, v.pc t k = some (m, p) → p.inside = true → (v.mutex m).lock = true
  unique : ∀ {t k t' k' m p p'}, v.pc t k = some (m, p) → p.inside = true → v.pc t' k' = some (m, p') →
    p'.inside = true → t = t' ∧ k = k'
  inside : ∀ {t k m p}, v.pc t k = some (m, p) → p.inside = true → At a (v.mutex m) m t p
  same : ∀ m, (∀ t k p, v.pc t k = some (m, p) → p.inside = false) → Same a (v.mutex m) m

end

section
variable {a : Mutexes Nat} {v : MutexView} {t k m : Nat} {p : MutexPc}
  {mx : Mutex} {a' : Mutexes Nat} {held : List Nat} {pc : Option (Nat × MutexPc)} {m' : Nat}

theorem put_mutex_ne (h : m' ≠ m) : (v.put t k m mx pc held).mutex m' = v.mutex m' := update_of_ne h _ _

theorem put_mutex : (v.put t k m mx pc held).mutex m = mx := update_self _ _ _

theorem put_pc : (v.put t k m mx pc held).pc t k = pc := by simp [put]

theorem put_pc_ne {t' k' : Nat} (h : ¬ (t' = t ∧ k' = k)) : (v.put t k m mx pc held).pc t' k' = v.pc t' k' := by
  show update v.pc t (update (v.pc t) k pc) t' k' = v.pc t' k'
  by_cases ht : t' = t
  · subst ht
    rw [update_self, update_of_ne fun hk => h ⟨rfl, hk⟩]
  · rw [update_of_ne ht]

theorem put_self : v.put t k m (v.mutex m) (v.pc t k) (v.held t) = v := by
  simp only [put, update_eq_self]

theorem at_congr (hh : a'.holder m = a.holder m) (hl : a'.level m = a.level m) (h : At a mx m t p) :
    At a' mx m t p := by
  cases p with
  | lockCas | unlockCas => trivial
  | _ => simpa only [At, Same, hh, hl] using h

theorem at_same {u : Nat} (h : At a mx m u p) (hin : p.inside = true) (hho : a.holder m = some t) (hne : t ≠ u) :
    Same a mx m := by
  have hse : a.holder m ≠ some u := fun hu => hne (Option.mem_unique hho hu)
  have hfr : ¬ (a.holder m = none ∨ a.holder m = some u) := by
    rintro (hnn | hu)
    · exact nomatch hho.symm.trans hnn
    · exact hse hu
  cases p with
  | lockCas | unlockCas => cases hin
  | lockTest | lockRelease | unlockTest => exact h
  | lockHold => exact h.1
  | lockLoad | lockStore | lockDone => exact absurd h.2.2 hfr
  | unlockLoad => exact absurd h.2 hse
  | unlockStore => exact absurd h.2.2.1 hse
  | unlockClear => exact absurd h.2.1 hse
  | unlockDone => exact absurd h.1 hse

theorem Inv.same_of_holder (h : Inv a v) (hho : a.holder m = some t)
    (hout : ∀ k p, v.pc t k = some (m, p) → p.inside = false) : Same a (v.mutex m) m := by
  by_cases hin : ∃ u k p, v.pc u k = some (m, p) ∧ p.inside = true
  · obtain ⟨u, k, p, hpc, hin⟩ := hin
    refine at_same (h.inside hpc hin) hin hho ?_
    rintro rfl
    rw [hout k p hpc] at hin
    cases hin
  · refine h.same m fun u k p hpc => ?_
    rw [← Bool.not_eq_true]
    exact fun hp => hin ⟨u, k, p, hpc, hp⟩

theorem Inv.put (h : Inv a v) (hpc : v.pc t k = some (m, p)) (pc : Option MutexPc)
    (hal : ∀ t' k' p', ¬ (t' = t ∧ k' = k) → v.pc t' k' = some (m, p') → p'.inside = false)
    (hot : ∀ m', m' ≠ m → a'.holder m' = a.holder m' ∧ a'.level m' = a.level m')
    (hho : a'.Holds (update v.held t held))
    (his : ∀ p', pc = some p' → p'.inside = true → mx.lock = true ∧ At a' mx m t p')
    (hsa : (∀ p', pc = some p' → p'.inside = false) → Same a' mx m) :
    Inv a' (v.put t k m mx (pc.map (m, ·)) held) := by
  -- A call that is inside another mutex, or this one.
  have hca {t' k' m' p'} (hp : (v.put t k m mx (pc.map (m, ·)) held).pc t' k' = some (m', p'))
      (hin : p'.inside = true) : (t' = t ∧ k' = k ∧ m' = m ∧ pc = some p') ∨
        (¬ (t' = t ∧ k' = k) ∧ m' ≠ m ∧ v.pc t' k' = some (m', p')) := by
    by_cases hse : t' = t ∧ k' = k
    · obtain ⟨rfl, rfl⟩ := hse
      rw [put_pc, Option.map_eq_some_iff] at hp
      obtain ⟨q, hq, heq⟩ := hp
      cases heq
      exact .inl ⟨rfl, rfl, rfl, hq⟩
    · rw [put_pc_ne hse] at hp
      refine .inr ⟨hse, fun hm => ?_, hp⟩
      subst hm
      rw [hal t' k' p' hse hp] at hin
      cases hin
  refine ⟨hho, fun {t' k' m' p'} hp hin => ?_, fun {t₁ k₁ t₂ k₂ m' p₁ p₂} h1 hin1 h2 hin2 => ?_,
    fun {t' k' m' p'} hp hin => ?_, fun m' hout => ?_⟩
  · rcases hca hp hin with ⟨-, -, rfl, hq⟩ | ⟨-, hm, hp⟩
    · rw [put_mutex]
      exact (his _ hq hin).1
    · rw [put_mutex_ne hm]
      exact h.word hp hin
  · rcases hca h1 hin1 with ⟨rfl, rfl, rfl, -⟩ | ⟨-, hm, h1⟩
    · rcases hca h2 hin2 with ⟨rfl, rfl, -, -⟩ | ⟨-, hm, -⟩
      · exact ⟨rfl, rfl⟩
      · exact absurd rfl hm
    · rcases hca h2 hin2 with ⟨-, -, rfl, -⟩ | ⟨-, -, h2⟩
      · exact absurd rfl hm
      · exact h.unique h1 hin1 h2 hin2
  · rcases hca hp hin with ⟨rfl, -, rfl, hq⟩ | ⟨-, hm, hp⟩
    · rw [put_mutex]
      exact (his _ hq hin).2
    · rw [put_mutex_ne hm]
      exact at_congr (hot m' hm).1 (hot m' hm).2 (h.inside hp hin)
  · by_cases hm : m' = m
    · subst hm
      rw [put_mutex]
      refine hsa fun p' hp' => hout t k p' ?_
      rw [put_pc, hp']
      rfl
    · rw [put_mutex_ne hm]
      have hsa' := h.same m' fun t' k' p' hp' => ?_
      · exact ⟨hsa'.1.trans (hot m' hm).1.symm, hsa'.2.trans (hot m' hm).2.symm⟩
      · by_cases hse : t' = t ∧ k' = k
        · obtain ⟨rfl, rfl⟩ := hse
          rw [hpc] at hp'
          cases hp'
          exact absurd rfl hm
        · exact hout t' k' p' (by rw [put_pc_ne hse]; exact hp')

theorem Inv.alone_inside (h : Inv a v) (hpc : v.pc t k = some (m, p)) (hin : p.inside = true) :
    ∀ t' k' p', ¬ (t' = t ∧ k' = k) → v.pc t' k' = some (m, p') → p'.inside = false := by
  intro t' k' p' hne hp'
  rw [← Bool.not_eq_true]
  exact fun hin' => hne (h.unique hp' hin' hpc hin)

theorem Inv.alone_free (h : Inv a v) (hfr : (v.mutex m).lock = false) :
    ∀ t' k' p', v.pc t' k' = some (m, p') → p'.inside = false := by
  intro t' k' p' hp'
  rw [← Bool.not_eq_true]
  intro hin'
  rw [h.word hp' hin'] at hfr
  cases hfr

def Result (a : Mutexes Nat) (v : MutexView) (t k m : Nat) (p : MutexPc) (mx : Mutex) : After MutexPc → Prop
  | .goto p' => p'.unlocks = p.unlocks ∧ Inv a (v.put t k m mx (some (m, p')) (v.held t))
  | .locked => p.unlocks = false ∧ ∃ a', Inv a' (v.put t k m mx none (m :: v.held t))
  | .unlocked => p.unlocks = true ∧ ∃ a', Inv a' (v.put t k m mx none ((v.held t).erase m))
  | .freed _ | .returned => False

section
variable {mx : Mutex} {p' : MutexPc}

theorem Inv.inside_goto (h : Inv a v) (hpc : v.pc t k = some (m, p)) (hin : p.inside = true)
    (hin' : p'.inside = true) (hu : p'.unlocks = p.unlocks) (hlo : mx.lock = (v.mutex m).lock)
    (hat : At a mx m t p') : Result a v t k m p mx (.goto p') := by
  refine ⟨hu, h.put hpc (some p') (h.alone_inside hpc hin) (fun _ _ => ⟨rfl, rfl⟩) ?_ ?_ ?_⟩
  · rw [update_eq_self]
    exact h.holds
  · rintro _ ⟨⟩ _
    exact ⟨hlo.trans (h.word hpc hin), hat⟩
  · intro hout
    rw [hout p' rfl] at hin'
    cases hin'

theorem Inv.enter (h : Inv a v) (hpc : v.pc t k = some (m, p)) (hfr : (v.mutex m).lock = false)
    (hin' : p'.inside = true) (hu : p'.unlocks = p.unlocks)
    (hat : Same a (v.mutex m) m → At a { v.mutex m with lock := true } m t p') :
    Result a v t k m p { v.mutex m with lock := true } (.goto p') := by
  refine ⟨hu, h.put hpc (some p') (fun t' k' q _ => h.alone_free hfr t' k' q) (fun _ _ => ⟨rfl, rfl⟩) ?_ ?_ ?_⟩
  · rw [update_eq_self]
    exact h.holds
  · rintro _ ⟨⟩ _
    exact ⟨rfl, hat (h.same m fun t' k' q => h.alone_free hfr t' k' q)⟩
  · intro hout
    rw [hout p' rfl] at hin'
    cases hin'

theorem Inv.leave {a' : Mutexes Nat} {held : List Nat} (h : Inv a v) (hpc : v.pc t k = some (m, p))
    (hin : p.inside = true) (pc : Option MutexPc) (hout : ∀ p', pc = some p' → p'.inside = false)
    (hot : ∀ m', m' ≠ m → a'.holder m' = a.holder m' ∧ a'.level m' = a.level m')
    (hho : a'.Holds (update v.held t held)) (hsa : Same a' { v.mutex m with lock := false } m) :
    Inv a' (v.put t k m { v.mutex m with lock := false } (pc.map (m, ·)) held) := by
  refine h.put hpc pc (h.alone_inside hpc hin) hot hho (fun p' hp' hin' => ?_) fun _ => hsa
  rw [hout p' hp'] at hin'
  cases hin'

end

theorem lock_other (h : a.lock t m = some a') (hm : m' ≠ m) :
    a'.holder m' = a.holder m' ∧ a'.level m' = a.level m' := by
  unfold Mutexes.lock at h
  split_ifs at h
  cases h
  exact ⟨update_of_ne hm _ _, update_of_ne hm _ _⟩

theorem lock_self (h : a.lock t m = some a') : a'.holder m = some t ∧ a'.level m = a.level m + 1 := by
  unfold Mutexes.lock at h
  split_ifs at h
  cases h
  exact ⟨update_self .., update_self ..⟩

theorem unlock_self (h : a.unlock t m = some a') :
    a'.holder m = (if a.level m - 1 = 0 then none else some t) ∧ a'.level m = a.level m - 1 := by
  unfold Mutexes.unlock at h
  rw [Option.ite_none_right_eq_some] at h
  obtain ⟨hhe, h⟩ := h
  cases h
  refine ⟨?_, update_self ..⟩
  split_ifs
  · exact update_self ..
  · exact hhe.1

theorem unlock_other (h : a.unlock t m = some a') (hm : m' ≠ m) :
    a'.holder m' = a.holder m' ∧ a'.level m' = a.level m' := by
  unfold Mutexes.unlock at h
  split_ifs at h with hz
  all_goals
    cases h
    refine ⟨?_, update_of_ne hm _ _⟩
  · exact update_of_ne hm _ _
  · rfl

theorem Inv.lockDone (h : Inv a v) (hpc : v.pc t k = some (m, .lockDone)) :
    Result a v t k m .lockDone { v.mutex m with lock := false } .locked := by
  obtain ⟨hho, hle, hfr⟩ := h.inside hpc rfl
  have hlo : a.lock t m = some _ := if_pos hfr
  obtain ⟨hho', hle'⟩ := lock_self hlo
  exact ⟨rfl, _, h.leave hpc rfl none nofun (fun _ => lock_other hlo) (h.holds.lock hlo)
    ⟨hho.trans hho'.symm, hle.trans hle'.symm⟩⟩

theorem Inv.unlockDone (h : Inv a v) (hpc : v.pc t k = some (m, .unlockDone)) :
    Result a v t k m .unlockDone { v.mutex m with lock := false } .unlocked := by
  obtain ⟨hho, hle, hmx⟩ := h.inside hpc rfl
  have hun : a.unlock t m = some _ := if_pos ⟨hho, by omega⟩
  have hls : a.level m - 1 = (v.mutex m).level.toNat := by omega
  obtain ⟨hho', hle'⟩ := unlock_self hun
  refine ⟨rfl, _, h.leave hpc rfl none nofun (fun _ => unlock_other hun) (h.holds.unlock hun)
    ⟨?_, (hle'.trans hls).symm⟩⟩
  rw [hho', hls]
  refine hmx.trans (if_congr ⟨fun hz => by rw [hz]; rfl, fun hz => BitVec.eq_of_toNat_eq hz⟩ rfl rfl)

theorem Inv.begin (h : Inv a v) (hpc : v.pc t k = none) (hout : p.inside = false) :
    Inv a (v.put t k m (v.mutex m) (some (m, p)) (v.held t)) := by
  have hmu : (v.put t k m (v.mutex m) (some (m, p)) (v.held t)).mutex = v.mutex := update_eq_self ..
  have hold {t' k' m' p'} (hp : (v.put t k m (v.mutex m) (some (m, p)) (v.held t)).pc t' k' = some (m', p'))
      (hin : p'.inside = true) : v.pc t' k' = some (m', p') := by
    by_cases hse : t' = t ∧ k' = k
    · obtain ⟨rfl, rfl⟩ := hse
      rw [put_pc] at hp
      cases hp
      rw [hout] at hin
      cases hin
    · rwa [put_pc_ne hse] at hp
  refine ⟨?_, fun hp hin => ?_, fun h1 hin1 h2 hin2 => h.unique (hold h1 hin1) hin1 (hold h2 hin2) hin2,
    fun hp hin => ?_, fun m' hno => ?_⟩
  · show a.Holds (update v.held t (v.held t))
    rw [update_eq_self]
    exact h.holds
  · rw [hmu]
    exact h.word (hold hp hin) hin
  · rw [hmu]
    exact h.inside (hold hp hin) hin
  · rw [hmu]
    refine h.same m' fun t' k' p' hp' => ?_
    by_cases hse : t' = t ∧ k' = k
    · obtain ⟨rfl, rfl⟩ := hse
      rw [hpc] at hp'
      cases hp'
    · exact hno t' k' p' (by rw [put_pc_ne hse]; exact hp')

theorem Inv.step (h : Inv a v) (hpc : v.pc t k = some (m, p)) (hun : p.unlocks = true → m ∈ v.held t)
    (hle : (v.held t).count m + 1 < 2 ^ 32) :
    ∃ mx after, mutexStep (v.mutex m) t p = some (mx, after) ∧ Result a v t k m p mx after := by
  have hst (hu : p.inside = false) : Result a v t k m p (v.mutex m) (.goto p) := by
    refine ⟨rfl, ?_⟩
    rw [← hpc, put_self]
    exact h
  cases p with
  | lockCas | unlockCas =>
    cases hlo : (v.mutex m).lock with
    | true => exact ⟨_, _, if_pos hlo, hst rfl⟩
    | false =>
      exact ⟨_, _, if_neg (by rw [hlo]; exact Bool.false_ne_true), h.enter hpc hlo rfl rfl id⟩
  | lockTest =>
    have hsa : Same a (v.mutex m) m := h.inside hpc rfl
    by_cases hfr : (v.mutex m).holder = none ∨ (v.mutex m).holder = some t
    · exact ⟨_, _, if_pos hfr, h.inside_goto hpc rfl rfl rfl rfl ⟨hsa, hsa.1 ▸ hfr⟩⟩
    · exact ⟨_, _, if_neg hfr, h.inside_goto hpc rfl rfl rfl rfl hsa⟩
  | lockHold =>
    obtain ⟨hsa, hfr⟩ := h.inside hpc rfl
    exact ⟨_, _, rfl, h.inside_goto hpc rfl rfl rfl rfl ⟨rfl, hsa.2, hfr⟩⟩
  | lockLoad =>
    obtain ⟨hho, hsa, hfr⟩ := h.inside hpc rfl
    exact ⟨_, _, rfl, h.inside_goto hpc rfl rfl rfl rfl ⟨hho, hsa, hfr⟩⟩
  | lockStore level =>
    obtain ⟨hho, hsa, hfr⟩ := h.inside hpc rfl
    refine ⟨_, _, rfl, h.inside_goto hpc rfl rfl rfl rfl ⟨hho, ?_, hfr⟩⟩
    have hco := h.holds.level_eq hfr
    rw [BitVec.toNat_add, hsa, show (1 : BitVec 32).toNat = 1 from rfl, Nat.mod_eq_of_lt (by omega)]
  | lockDone => exact ⟨_, _, rfl, h.lockDone hpc⟩
  | lockRelease =>
    have hsa : Same a (v.mutex m) m := h.inside hpc rfl
    refine ⟨_, _, rfl, rfl, h.leave hpc rfl (some .lockCas) (by rintro _ ⟨⟩; rfl) (fun _ _ => ⟨rfl, rfl⟩) ?_ hsa⟩
    rw [update_eq_self]
    exact h.holds
  | unlockTest =>
    have hsa : Same a (v.mutex m) m := h.inside hpc rfl
    have hho : a.holder m = some t := (h.holds.mem t m).mp (hun rfl)
    exact ⟨_, _, if_pos (hsa.1.trans hho), h.inside_goto hpc rfl rfl rfl rfl ⟨hsa, hho⟩⟩
  | unlockLoad =>
    obtain ⟨hsa, hho⟩ := h.inside hpc rfl
    have hpos : 0 < a.level m := by
      rw [h.holds.level t m hho]
      exact List.count_pos_iff.mpr (hun rfl)
    have hne : (v.mutex m).level ≠ 0 := by
      intro hz
      rw [← hsa.2, hz] at hpos
      exact absurd hpos (by decide)
    exact ⟨_, _, if_neg hne, h.inside_goto hpc rfl rfl rfl rfl ⟨hsa.1.trans hho, hsa.2, hho, hpos⟩⟩
  | unlockStore level =>
    obtain ⟨hho, hsa, hse, hpos⟩ := h.inside hpc rfl
    have hls : (level - 1).toNat = a.level m - 1 := by
      bv_omega
    by_cases hz : level - 1 = 0
    · refine ⟨_, _, rfl, ?_⟩
      rw [if_pos hz]
      refine h.inside_goto hpc rfl rfl rfl rfl ⟨hz, hse, ?_⟩
      rw [hz] at hls
      have : (0 : BitVec 32).toNat = 0 := rfl
      omega
    · refine ⟨_, _, rfl, ?_⟩
      rw [if_neg hz]
      refine h.inside_goto hpc rfl rfl rfl rfl ⟨hse, ?_, ?_⟩
      · show a.level m = (level - 1).toNat + 1
        omega
      · exact hho.trans (if_neg hz).symm
  | unlockClear =>
    obtain ⟨hz, hse, hone⟩ := h.inside hpc rfl
    refine ⟨_, _, rfl, h.inside_goto hpc rfl rfl rfl rfl ⟨hse, ?_, ?_⟩⟩
    · rw [hz, hone]
      rfl
    · exact (if_pos hz).symm
  | unlockDone => exact ⟨_, _, rfl, h.unlockDone hpc⟩

end

end MutexView

end Locks

end Yagura
