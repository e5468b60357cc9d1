import Yagura.Trans

/-!
# Stacks of threads

`userland/lib/pthread.c`: a thread runs on a stack that `pthread_create` has
allocated, or on one of the caller's; its `struct pthread` lies on the same
memory. The stack goes back when the thread exits detached or is joined.
-/

namespace Yagura.PthreadStacks

open Function Option

inductive PthreadState
  | joinable | detached | exited
  deriving DecidableEq

inductive Pc
  | running
  /-- In the loop of `pthread_join`. -/
  | joining (u : Nat)
  /-- `pthread_join` has seen that `u` exited. -/
  | freeing (u : Nat)
  | exiting
  /-- `pthread_exit` has exchanged the state. -/
  | exchanged (old : PthreadState)
  /-- Before `SYSCALL1(exit, 0)`. -/
  | leaving
  | gone
  | unborn
  deriving DecidableEq

@[simp, grind] def Pc.target : Pc → Option Nat
  | .joining u | .freeing u => some u
  | _ => none

def Pc.frees : Pc → Option Nat
  | .freeing u => some u
  | _ => none

@[simp, grind] def Pc.past : Pc → Bool
  | .exchanged _ | .leaving | .gone | .unborn => true
  | _ => false

/-- Whether a program has joined or detached the thread, which it does at most once, and whether that is done. -/
inductive Claim
  | open | waited | done
  deriving DecidableEq

structure Thread where
  /-- `alloc_base` is not `NULL`: the stack is the library's. -/
  alloc : Bool
  state : PthreadState
  pc : Pc
  claim : Claim
  frees : Nat

structure State where
  /-- By the address of `struct pthread`; a freed one is not given out again. -/
  thread : Nat → Thread
  /-- A freed stack or `struct pthread` has been used. -/
  misused : Bool

namespace State

def init : State :=
  ⟨fun t => if t = 0 then ⟨false, .joinable, .running, .open, 0⟩ else ⟨false, .exited, .unborn, .done, 0⟩, false⟩

section
variable (s : State) (t u : Nat)

def set (th : Thread) : State := { s with thread := update s.thread t th }

def goto (pc : Pc) : State := s.set t { s.thread t with pc := pc }

def touch (p : Bool) : State := { s with misused := s.misused || p }

def freed : Bool := 0 < (s.thread u).frees

def release : Thread := if (s.thread u).alloc then { s.thread u with frees := (s.thread u).frees + 1 } else s.thread u

end

inductive Event
  /-- `fails`: `__clone` returns an error, and the new stack is freed at once. -/
  | create (t u : Nat) (isDetached ownStack fails : Bool)
  | detach (t u : Nat)
  | join (t u : Nat)
  | exit (t : Nat)
  | resume (t : Nat)
  deriving DecidableEq

def pthreadCreate (s : State) (u : Nat) (isDetached ownStack fails : Bool) : State :=
  s.set u ⟨!ownStack, if isDetached then .detached else .joinable, if fails then .gone else .running,
    if isDetached || fails then .done else .open, if fails && !ownStack then 1 else 0⟩

def pthreadDetach (s : State) (u : Nat) : State :=
  s.set u { s.thread u with
    state := if (s.thread u).state = .joinable then .detached else (s.thread u).state, claim := .done }

def resume (s : State) (t : Nat) : Option State :=
  match (s.thread t).pc with
  | .joining u =>
    match (s.thread u).state with
    | .joinable => some (s.touch (s.freed u))
    | .detached => some ((s.touch (s.freed u)).goto t .running)
    | .exited => some ((s.touch (s.freed u)).goto t (.freeing u))
  | .freeing u => some (((s.touch (s.freed u)).set u { s.release u with claim := .done }).goto t .running)
  | .exiting => some (s.set t { s.thread t with state := .exited, pc := .exchanged (s.thread t).state })
  | .exchanged .joinable => some (s.goto t .leaving)
  | .exchanged .detached => some ((s.set t (s.release t)).goto t .leaving)
  -- `UNREACHABLE()`
  | .exchanged .exited => some (s.touch true)
  | .leaving => some (s.goto t .gone)
  | .running | .gone | .unborn => none

def exec (s : State) : Event → Option State
  | .create t u isDetached ownStack fails =>
    if (s.thread t).pc = .running ∧ (s.thread u).pc = .unborn then
      some ((s.touch (s.freed t)).pthreadCreate u isDetached ownStack fails)
    else none
  | .detach t u =>
    if (s.thread t).pc = .running ∧ (s.thread u).claim = .open then
      some ((s.touch (s.freed t || s.freed u)).pthreadDetach u)
    else none
  | .join t u =>
    if (s.thread t).pc = .running ∧ (s.thread u).claim = .open then
      some (((s.touch (s.freed t)).set u { s.thread u with claim := .waited }).goto t (.joining u))
    else none
  | .exit t => if (s.thread t).pc = .running then some ((s.touch (s.freed t)).goto t .exiting) else none
  | .resume t => (s.touch (s.freed t)).resume t

def Step (s : State) (e : Event) (s' : State) : Prop := s.exec e = some s'

structure Sound (s : State) : Prop where
  unused : s.misused = false
  once : ∀ t, (s.thread t).frees ≤ 1
  ended : ∀ t, 0 < (s.thread t).frees → (s.thread t).pc = .gone
  freed : ∀ t, (s.thread t).alloc = true → (s.thread t).claim = .done → (s.thread t).pc = .gone →
    (s.thread t).frees = 1

/-- A detached thread does not exit from a stack of the library's, a thread is not detached after its exit, and it has
left its stack when `pthread_join` frees it. -/
def Orderly (s : State) : Event → Prop
  | .detach _ u => (s.thread u).state ≠ .exited
  | .resume t =>
    ((s.thread t).pc = .exiting → (s.thread t).state = .detached → (s.thread t).alloc = false) ∧
      ∀ u ∈ (s.thread t).pc.frees, (s.thread u).pc = .gone
  | _ => True

instance (s : State) : (e : Event) → Decidable (s.Orderly e)
  | .create .. | .join .. | .exit _ => .isTrue trivial
  | .detach _ _ => inferInstanceAs (Decidable (_ ≠ _))
  | .resume _ => inferInstanceAs (Decidable (_ ∧ _))

/-! ## The invariant -/

@[grind] structure Good (th : Thread) : Prop where
  once : th.frees ≤ 1
  ended : 0 < th.frees → th.alloc = true ∧ th.pc = .gone ∧ th.claim = .done
  freed : th.alloc = true → th.claim = .done → th.frees = 0 → th.state = .detached ∧ th.pc.past = false
  state : th.pc.past = false → th.state ≠ .exited
  past : th.claim ≠ .done → th.pc.past = true → th.state = .exited
  old : th.pc = .exchanged .detached → th.alloc = false
  fresh : th.pc ≠ .exchanged .exited
  unborn : th.pc = .unborn → th.claim = .done

structure Inv (s : State) : Prop where
  unused : s.misused = false
  good : ∀ t, Good (s.thread t)
  waited : ∀ t u, (s.thread t).pc.target = some u → (s.thread u).claim = .waited
  alone : ∀ t t' u, (s.thread t).pc.target = some u → (s.thread t').pc.target = some u → t = t'

variable {s s' : State} {t u : Nat} {th : Thread} {pc : Pc}

theorem Inv.sound (h : s.Inv) : s.Sound where
  unused := h.unused
  once t := (h.good t).once
  ended t ht := ((h.good t).ended ht).2.1
  freed t ha hc hp := by
    have hfr := (h.good t).freed ha hc
    have hon := (h.good t).once
    rw [hp] at hfr
    by_contra hne
    exact absurd (hfr (by omega)).2 (by decide)

theorem Inv.init : init.Inv := by
  have hth (t : Nat) : Good (State.init.thread t) ∧ (State.init.thread t).pc.target = none := by
    by_cases ht : t = 0 <;> exact ⟨by constructor <;> simp [State.init, ht], by simp [State.init, ht]⟩
  have hnn {t u : Nat} (ht : (State.init.thread t).pc.target = some u) : False := by cases (hth t).2.symm.trans ht
  exact ⟨rfl, fun t => (hth t).1, fun _ _ ht => (hnn ht).elim, fun _ _ _ ht => (hnn ht).elim⟩

theorem Good.frees_eq (h : Good th) (hth : th.claim ≠ .done ∨ th.pc ≠ .gone) : th.frees = 0 := by
  by_contra hne
  obtain ⟨-, hpc, hcl⟩ := h.ended (by omega)
  exact hth.elim (absurd hcl) (absurd hpc)

theorem Inv.touch_eq (h : s.Inv) (hu : (s.thread u).claim ≠ .done ∨ (s.thread u).pc ≠ .gone) :
    s.touch (s.freed u) = s := by
  simp [touch, freed, (h.good u).frees_eq hu]

theorem Inv.idle (h : s.Inv) (hu : (s.thread u).claim ≠ .waited) (v : Nat) : (s.thread v).pc.target ≠ some u :=
  fun hv => hu (h.waited v u hv)

theorem Good.early (h : Good th) (hp : th.pc.past = false) (hp' : pc.past = false) : Good { th with pc := pc } := by
  constructor <;> grind

theorem Good.late (h : Good th) (hp : th.pc.past = true) (hne : th.pc ≠ .gone) (hpc : pc = .leaving ∨ pc = .gone) :
    Good { th with pc := pc } := by
  constructor <;> grind

theorem Inv.set (h : s.Inv) (hg : Good th) (hc : th.claim = (s.thread t).claim ∨ ∀ v, (s.thread v).pc.target ≠ some t)
    (hp : ∀ u, th.pc.target = some u → (s.thread t).pc.target = some u ∨
      ((s.set t th).thread u).claim = .waited ∧ ∀ v, (s.thread v).pc.target ≠ some u) : (s.set t th).Inv := by
  have hsa (v : Nat) (hv : v ≠ t) : (s.set t th).thread v = s.thread v := update_of_ne hv _ _
  have hse : (s.set t th).thread t = th := update_self ..
  have hta (v u : Nat) (hv : ((s.set t th).thread v).pc.target = some u) : (s.thread v).pc.target = some u ∨
      v = t ∧ ((s.set t th).thread u).claim = .waited ∧ ∀ w, (s.thread w).pc.target ≠ some u := by
    by_cases hvt : v = t
    · subst hvt
      rw [hse] at hv
      exact (hp u hv).imp_right fun hnew => ⟨rfl, hnew⟩
    · exact .inl (hsa v hvt ▸ hv)
  refine ⟨h.unused, fun u => ?_, fun v u hv => ?_, fun v v' u hv hv' => ?_⟩
  · by_cases hu : u = t
    · rwa [hu, hse]
    · exact (hsa u hu).symm ▸ h.good u
  · obtain ho | ⟨-, hw, -⟩ := hta v u hv
    · by_cases hu : u = t
      · subst hu
        rw [hse, hc.resolve_right fun hfr => hfr v ho]
        exact h.waited v u ho
      · rw [hsa u hu]
        exact h.waited v u ho
    · exact hw
  · obtain ho | ⟨hvt, -, hfr⟩ := hta v u hv <;> obtain ho' | ⟨hvt', -, hfr'⟩ := hta v' u hv'
    · exact h.alone v v' u ho ho'
    · exact absurd ho (hfr' v)
    · exact absurd ho' (hfr v')
    · exact hvt.trans hvt'.symm

theorem Inv.move (h : s.Inv) (hg : Good { s.thread t with pc := pc })
    (hp : ∀ u, pc.target = some u → (s.thread t).pc.target = some u) : (s.goto t pc).Inv :=
  h.set hg (.inl rfl) fun u hu => .inl (hp u hu)

theorem Inv.freeing (h : s.Inv) (hpc : (s.thread t).pc = .freeing u) (hgo : (s.thread u).pc = .gone) :
    ((s.set u { s.release u with claim := .done }).goto t .running).Inv := by
  have hne : u ≠ t := by
    rintro rfl
    rw [hpc] at hgo
    cases hgo
  have hco : (s.set u { s.release u with claim := .done }).goto t .running =
      (s.goto t .running).set u { s.release u with claim := .done } := by
    simp only [goto, State.set, update_of_ne hne.symm]
    rw [update_comm hne.symm]
  have hwa := h.waited t u (by rw [hpc]; rfl)
  have hmo : (s.goto t .running).Inv := h.move ((h.good t).early (by simp [hpc]) rfl) (by simp)
  have hze := (h.good u).frees_eq (.inl (by simp [hwa]))
  rw [hco]
  refine hmo.set ?_ (.inr fun v hv => ?_) ?_
  · unfold release
    constructor <;> split <;> simp_all
  · by_cases hvt : v = t
    · simp [goto, State.set, hvt] at hv
    · exact hvt (h.alone v t u (by simpa [goto, State.set, hvt] using hv) (by rw [hpc]; rfl))
  · unfold release
    split <;> simp [hgo]

theorem Inv.resume (h : s.Inv) (hok : s.Orderly (.resume t)) (hr : s.resume t = some s') : s'.Inv := by
  have hg := h.good t
  obtain ⟨hex, hfr⟩ := hok
  have hto (u : Nat) (hu : (s.thread t).pc.target = some u) : s.touch (s.freed u) = s :=
    h.touch_eq (.inl (by simp [h.waited t u hu]))
  have hle {pc : Pc} (hp : (s.thread t).pc.past = true) (hne : (s.thread t).pc ≠ .gone)
      (hpc : pc = .leaving ∨ pc = .gone) : (s.goto t pc).Inv :=
    h.move (hg.late hp hne hpc) (by rcases hpc with rfl | rfl <;> simp)
  unfold State.resume at hr
  split at hr
  · next u hpc =>
    rw [hto u (by rw [hpc]; rfl)] at hr
    have hea : (s.thread t).pc.past = false := by rw [hpc]; rfl
    split at hr
    · cases hr
      exact h
    · cases hr
      exact h.move (hg.early hea rfl) (by simp)
    · cases hr
      exact h.move (hg.early hea rfl) (by simp [hpc])
  · next u hpc =>
    rw [hto u (by rw [hpc]; rfl)] at hr
    cases hr
    exact h.freeing hpc (hfr u (by rw [hpc]; rfl))
  · next hpc =>
    cases hr
    refine h.set ?_ (.inl rfl) (by simp)
    constructor <;> grind
  · next hpc =>
    cases hr
    exact hle (by simp [hpc]) (by simp [hpc]) (.inl rfl)
  · next hpc =>
    cases hr
    have hsa : s.set t (s.release t) = s := by
      rw [release, hg.old hpc, if_neg (by decide), State.set, update_eq_self]
    rw [hsa]
    exact hle (by simp [hpc]) (by simp [hpc]) (.inl rfl)
  · next hpc => exact absurd hpc hg.fresh
  · next hpc =>
    cases hr
    exact hle (by simp [hpc]) (by simp [hpc]) (.inr rfl)
  all_goals cases hr

theorem Inv.detach (h : s.Inv) (hop : (s.thread u).claim = .open) (hne : (s.thread u).state ≠ .exited) :
    (s.pthreadDetach u).Inv := by
  have hg := h.good u
  have hst : (if (s.thread u).state = .joinable then .detached else (s.thread u).state) = PthreadState.detached := by
    cases hst : (s.thread u).state with
    | joinable | detached => rfl
    | exited => exact absurd hst hne
  refine h.set ?_ (.inr (h.idle (by simp [hop]))) fun w hw => .inl hw
  constructor <;> grind

theorem Inv.join (h : s.Inv) (hpc : (s.thread t).pc = .running) (hop : (s.thread u).claim = .open) :
    ((s.set u { s.thread u with claim := .waited }).goto t (.joining u)).Inv := by
  have hg := h.good u
  have hfr := h.idle (u := u) (by simp [hop])
  have h₁ : (s.set u { s.thread u with claim := .waited }).Inv := by
    refine h.set ?_ (.inr hfr) fun w hw => .inl hw
    constructor <;> grind
  have hpc1 (v : Nat) : ((s.set u { s.thread u with claim := .waited }).thread v).pc = (s.thread v).pc := by
    by_cases hv : v = u <;> simp [State.set, hv]
  refine h₁.set ((h₁.good t).early (by simp [hpc1, hpc]) rfl) (.inl rfl) fun w hw => .inr ⟨?_, fun v => ?_⟩
  · cases hw
    by_cases hut : u = t <;> simp [State.set, hut]
  · cases hw
    rw [hpc1]
    exact hfr v

theorem Inv.step {e : Event} (h : s.Inv) (hst : s.Step e s') (hok : s.Orderly e) : s'.Inv := by
  have hto (t : Nat) (ht : (s.thread t).pc ≠ .gone) : s.touch (s.freed t) = s := h.touch_eq (.inr ht)
  cases e with
  | create t u isDetached ownStack fails =>
    obtain ⟨⟨hpc, hu⟩, hs⟩ := ite_none_right_eq_some.mp hst
    rw [hto t (by simp [hpc])] at hs
    cases hs
    refine h.set ?_ (.inr (h.idle (by simp [(h.good u).unborn hu]))) (by cases fails <;> simp)
    cases isDetached <;> cases ownStack <;> cases fails <;> constructor <;> simp
  | detach t u =>
    obtain ⟨⟨hpc, hop⟩, hs⟩ := ite_none_right_eq_some.mp hst
    have hfr : (s.freed t || s.freed u) = false := by
      simp [freed, (h.good t).frees_eq (.inr (by simp [hpc])), (h.good u).frees_eq (.inl (by simp [hop]))]
    have hsa : s.touch (s.freed t || s.freed u) = s := by simp [touch, hfr]
    cases hs
    rw [hsa]
    exact h.detach hop hok
  | join t u =>
    obtain ⟨⟨hpc, hop⟩, hs⟩ := ite_none_right_eq_some.mp hst
    rw [hto t (by simp [hpc])] at hs
    cases hs
    exact h.join hpc hop
  | exit t =>
    obtain ⟨hpc, hs⟩ := ite_none_right_eq_some.mp hst
    rw [hto t (by simp [hpc])] at hs
    cases hs
    exact h.move ((h.good t).early (by simp [hpc]) rfl) (by simp)
  | resume t =>
    have hst : (s.touch (s.freed t)).resume t = some s' := hst
    by_cases hpc : (s.thread t).pc = .gone
    · simp only [State.resume, touch, hpc] at hst
      cases hst
    · rw [hto t hpc] at hst
      exact h.resume hok hst

theorem stacks_sound {s : State} (hr : Run Step Orderly init s) : s.Sound :=
  Inv.sound (hr.invariant (I := Inv) .init fun _ _ _ h hs hok => h.step hs hok)

theorem stacks_sound_joined : ∃ s, Run Step Orderly init s ∧ (s.thread 1).frees = 1 ∧ s.Sound := by
  obtain ⟨s, hr, hs⟩ := exists_follow exec Orderly [.create 0 1 false false false, .exit 1, .resume 1, .resume 1,
    .resume 1, .join 0 1, .resume 0, .resume 0] init (fun s => (s.thread 1).frees = 1) (by decide)
  exact ⟨s, hr, hs, stacks_sound hr⟩

/-- A detached thread frees its own stack, `pthread_join` frees one in use, and a late detach frees none. -/
theorem stacks_misused : (∃ s, Run Step (fun _ _ => True) init s ∧ s.misused = true) ∧
    (∃ s, Run Step (fun _ _ => True) init s ∧ (s.thread 1).frees = 1 ∧ (s.thread 1).pc = .leaving) ∧
    ∃ s, Run Step (fun _ _ => True) init s ∧ (s.thread 1).alloc = true ∧ (s.thread 1).claim = .done ∧
      (s.thread 1).pc = .gone ∧ (s.thread 1).frees = 0 :=
  ⟨exists_follow exec _ [.create 0 1 true false false, .exit 1, .resume 1, .resume 1, .resume 1] init _ (by decide),
    exists_follow exec _ [.create 0 1 false false false, .exit 1, .resume 1, .resume 1, .join 0 1, .resume 0,
      .resume 0] init (fun s => (s.thread 1).frees = 1 ∧ (s.thread 1).pc = .leaving) (by decide),
    exists_follow exec _ [.create 0 1 false false false, .exit 1, .resume 1, .resume 1, .resume 1, .detach 0 1] init
      (fun s => (s.thread 1).alloc = true ∧ (s.thread 1).claim = .done ∧ (s.thread 1).pc = .gone ∧
        (s.thread 1).frees = 0) (by decide)⟩

end State

end Yagura.PthreadStacks
