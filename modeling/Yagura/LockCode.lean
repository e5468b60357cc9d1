import Yagura.Mutex

/-!
# Tasks that lock mutexes

The code of a task as the mutexes it locks and unlocks, what it reads and
writes of the state the mutexes protect, and choices that neither decides.
Tasks run interleaved. If the code of each locks in the order of a rank, no
state the tasks reach is a deadlock.
-/

namespace Yagura

open Function

inductive LockCode (L σ α : Type) : Type
  | ret (a : α)
  | lock (l : L) (k : LockCode L σ α)
  | unlock (l : L) (k : LockCode L σ α)
  | act (f : σ → σ) (k : LockCode L σ α)
  | look (k : σ → LockCode L σ α)
  | choose (k : Bool → LockCode L σ α)

namespace LockCode

variable {L σ α β : Type}

protected def bind : LockCode L σ α → (α → LockCode L σ β) → LockCode L σ β
  | .ret a, f => f a
  | .lock l k, f => .lock l (k.bind f)
  | .unlock l k, f => .unlock l (k.bind f)
  | .act g k, f => .act g (k.bind f)
  | .look k, f => .look fun s => (k s).bind f
  | .choose k, f => .choose fun b => (k b).bind f

instance : Monad (LockCode L σ) where
  pure := .ret
  bind := .bind

def mutexLock (l : L) : LockCode L σ Unit := .lock l (.ret ())

def mutexUnlock (l : L) : LockCode L σ Unit := .unlock l (.ret ())

def update (f : σ → σ) : LockCode L σ Unit := .act f (.ret ())

def read : LockCode L σ σ := .look .ret

def either : LockCode L σ Bool := .choose .ret

def isLook : LockCode L σ α → Bool
  | .look _ => true
  | _ => false

def times (n : Nat) (x : LockCode L σ Unit) : LockCode L σ Unit :=
  match n with
  | 0 => pure ()
  | n + 1 => do
    x
    times n x

/-! ## The order of locking -/

section
variable (rank : L → Nat) (ok : (L → Prop) → σ → Prop)

def Below (l : L) (h : List L) : Prop := l ∈ h ∨ ∀ k ∈ h, rank k < rank l

variable [DecidableEq L]

/-- A task that holds `h` and only reads states that are `ok` for what it holds locks in the order of the rank
and ends holding `h'`. -/
def Takes (h' : List L) : List L → LockCode L σ α → Prop
  | h, .ret _ => h = h'
  | h, .lock l k => Below rank l h ∧ Takes h' (l :: h) k
  | h, .unlock l k => l ∈ h ∧ Takes h' (h.erase l) k
  | h, .act _ k => Takes h' h k
  | h, .look k => ∀ s, ok (· ∈ h) s → Takes h' h (k s)
  | h, .choose k => ∀ b, Takes h' h (k b)

end

section
variable {rank : L → Nat} {ok : (L → Prop) → σ → Prop} [DecidableEq L] {h h' h'' : List L} {l : L}
  {x y : LockCode L σ α} {f : Unit → LockCode L σ β}

theorem Takes.bind {f : α → LockCode L σ β} (hx : Takes rank ok h' h x) (hf : ∀ a, Takes rank ok h'' h' (f a)) :
    Takes rank ok h'' h (x >>= f) := by
  induction x generalizing h with
  | ret a =>
    obtain rfl : h = h' := hx
    exact hf a
  | lock l k ih => exact ⟨hx.1, ih hx.2⟩
  | unlock l k ih => exact ⟨hx.1, ih hx.2⟩
  | act g k ih => exact ih hx
  | look k ih => exact fun s hs => ih s (hx s hs)
  | choose k ih => exact fun b => ih b (hx b)

theorem Takes.unlock (hf : Takes rank ok h' h (f ())) : Takes rank ok h' (l :: h) (mutexUnlock l >>= f) := by
  have her : (l :: h).erase l = h := List.erase_cons_head l h
  refine ⟨List.mem_cons_self, ?_⟩
  rw [her]
  exact hf

theorem Takes.read {f : σ → LockCode L σ β} (hf : ∀ s, ok (· ∈ h) s → Takes rank ok h' h (f s)) :
    Takes rank ok h' h (read >>= f) := hf

theorem Takes.pure (a : α) : Takes rank ok h h (pure a : LockCode L σ α) := rfl

theorem Takes.ite {c : Prop} [Decidable c] (hx : c → Takes rank ok h' h x) (hy : ¬ c → Takes rank ok h' h y) :
    Takes rank ok h' h (if c then x else y) := by
  split
  · exact hx ‹_›
  · exact hy ‹_›

theorem Takes.either (hx : Takes rank ok h' h x) (hy : Takes rank ok h' h y) :
    Takes rank ok h' h (do if ← either then x else y) := fun _ => .ite (fun _ => hx) fun _ => hy

theorem Takes.check {x : LockCode L σ Bool} {z : LockCode L σ α} (hx : Takes rank ok h' h x)
    (hy : Takes rank ok h'' h' y) (hz : Takes rank ok h'' h' z) :
    Takes rank ok h'' h (do if ← x then y else z) := hx.bind fun _ => .ite (fun _ => hy) fun _ => hz

theorem Takes.lock (hl : Below rank l h) (hf : Takes rank ok h' (l :: h) (f ())) :
    Takes rank ok h' h (mutexLock l >>= f) := ⟨hl, hf⟩

theorem Takes.times {x : LockCode L σ Unit} (hx : Takes rank ok h h x) (n : Nat) : Takes rank ok h h (times n x) := by
  induction n with
  | zero => exact rfl
  | succ n ih => exact hx.bind fun _ => ih

end

end LockCode

/-! ## Tasks side by side -/

structure Tasks (L σ : Type) where
  mutexes : Mutexes L
  shared : σ
  code : Nat → LockCode L σ Unit

inductive TaskEvent (C : Type)
  | call (t : Nat) (c : C)
  | go (t : Nat) (b : Bool)

namespace Tasks

open LockCode

section
variable {L σ C : Type} [DecidableEq L] (body : C → LockCode L σ Unit)

def put (s : Tasks L σ) (t : Nat) (c : LockCode L σ Unit) : Tasks L σ :=
  { s with code := Function.update s.code t c }

def go (s : Tasks L σ) (t : Nat) (b : Bool) : Option (Tasks L σ) :=
  match s.code t with
  | .ret _ => none
  | .lock l k => (s.mutexes.lock t l).map fun m => { s.put t k with mutexes := m }
  | .unlock l k => (s.mutexes.unlock t l).map fun m => { s.put t k with mutexes := m }
  | .act f k => some { s.put t k with shared := f s.shared }
  | .look k => some (s.put t (k s.shared))
  | .choose k => some (s.put t (k b))

def next (s : Tasks L σ) : TaskEvent C → Option (Tasks L σ)
  | .call t c =>
    match s.code t with
    | .ret _ => some (s.put t (body c))
    | _ => none
  | .go t b => s.go t b

def wants (s : Tasks L σ) (t : Nat) : Option L :=
  match s.code t with
  | .lock l _ => some l
  | _ => none

def Deadlock (s : Tasks L σ) : Prop := s.mutexes.Deadlock s.wants

def idle (shared : σ) : Tasks L σ := ⟨.free, shared, fun _ => pure ()⟩

end

section
variable {L σ C : Type} [DecidableEq L] (rank : L → Nat) (ok : (L → Prop) → σ → Prop)

def Reads (s : Tasks L σ) : TaskEvent C → Prop
  | .call _ _ => True
  | .go t _ => (s.code t).isLook = true → ok (fun l => s.mutexes.holder l = some t) s.shared

def Ordered (s : Tasks L σ) : Prop :=
  ∃ held, s.mutexes.Holds held ∧ ∀ t, Takes rank ok [] (held t) (s.code t)

variable {rank ok} {body : C → LockCode L σ Unit} {s s' : Tasks L σ}

theorem Ordered.no_deadlock (hs : s.Ordered rank ok) : ¬ s.Deadlock := by
  obtain ⟨held, hhe, hco⟩ := hs
  refine Mutexes.no_deadlock_of_rank rank fun t u l k hl hu hut hk => ?_
  have ht := hco t
  cases hc : s.code t with
  | lock l' c =>
    rw [wants, hc] at hl
    cases hl
    rw [hc] at ht
    rcases ht.1 with hmem | hbe
    · -- the task would not wait for a mutex of its own
      exact absurd (Option.some.inj (hu.symm.trans ((hhe.mem t l).mp hmem))) hut
    · exact hbe k ((hhe.mem t k).mpr hk)
  | ret | unlock | act | look | choose =>
    rw [wants, hc] at hl
    cases hl

theorem Ordered.put {held : Nat → List L} {t : Nat} {h : List L} {c : LockCode L σ Unit}
    (hco : ∀ u, Takes rank ok [] (held u) (s.code u)) (hc : Takes rank ok [] h c) (u : Nat) :
    Takes rank ok [] (update held t h u) (update s.code t c u) := by
  by_cases hut : u = t
  · subst hut
    rw [update_self, update_self]
    exact hc
  · rw [update_of_ne hut, update_of_ne hut]
    exact hco u

theorem Ordered.go {t : Nat} {b : Bool} (hs : s.Ordered rank ok) (hok : Reads ok s (.go t b : TaskEvent C))
    (h : s.go t b = some s') : s'.Ordered rank ok := by
  obtain ⟨held, hhe, hco⟩ := hs
  have ht := hco t
  have hse : update held t (held t) = held := update_eq_self t held
  unfold Tasks.go at h
  cases hc : s.code t with
  | ret =>
    rw [hc] at h
    cases h
  | lock l k =>
    rw [hc] at h ht
    obtain ⟨m, hm, rfl⟩ := Option.map_eq_some_iff.mp h
    exact ⟨_, hhe.lock hm, Ordered.put hco ht.2⟩
  | unlock l k =>
    rw [hc] at h ht
    obtain ⟨m, hm, rfl⟩ := Option.map_eq_some_iff.mp h
    exact ⟨_, hhe.unlock hm, Ordered.put hco ht.2⟩
  | act f k =>
    rw [hc] at h ht
    cases h
    have hput := Ordered.put (t := t) hco (h := held t) (c := k) ht
    rw [hse] at hput
    exact ⟨held, hhe, hput⟩
  | look k =>
    rw [hc] at h ht
    cases h
    have hre : ok (· ∈ held t) s.shared := by
      have hmem : (· ∈ held t) = fun l => s.mutexes.holder l = some t := by
        funext l
        exact propext (hhe.mem t l)
      rw [hmem]
      exact hok (congrArg isLook hc)
    have hput := Ordered.put (t := t) hco (h := held t) (ht s.shared hre)
    rw [hse] at hput
    exact ⟨held, hhe, hput⟩
  | choose k =>
    rw [hc] at h ht
    cases h
    have hput := Ordered.put (t := t) hco (h := held t) (ht b)
    rw [hse] at hput
    exact ⟨held, hhe, hput⟩

theorem Ordered.next (hbo : ∀ c, Takes rank ok [] [] (body c)) {e : TaskEvent C} (hs : s.Ordered rank ok)
    (h : s.next body e = some s') (hok : Reads ok s e) : s'.Ordered rank ok := by
  cases e with
  | call t c =>
    obtain ⟨held, hhe, hco⟩ := hs
    have ht := hco t
    cases hc : s.code t with
    | ret u =>
      rw [Tasks.next, hc] at h
      cases h
      rw [hc] at ht
      have hnil : held t = [] := ht
      have hput := Ordered.put (t := t) hco (h := held t) (c := body c) (hnil ▸ hbo c)
      rw [update_eq_self] at hput
      exact ⟨held, hhe, hput⟩
    | lock | unlock | act | look | choose =>
      rw [Tasks.next, hc] at h
      cases h
  | go t b => exact hs.go hok h

theorem idle_ordered (shared : σ) : (idle shared : Tasks L σ).Ordered rank ok :=
  ⟨fun _ => [], Mutexes.holds_free, fun _ => rfl⟩

theorem no_deadlock (hbo : ∀ c, Takes rank ok [] [] (body c)) {shared : σ}
    (hr : Run (fun s e t => Tasks.next body s e = some t) (Reads ok) (idle shared) s) : ¬ s.Deadlock :=
  (hr.invariant (I := Ordered rank ok) (idle_ordered shared) fun _ _ _ hs hn hok =>
    hs.next hbo hn hok).no_deadlock

end

end Tasks

end Yagura
