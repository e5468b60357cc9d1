import Yagura.SchedExec

/-!
# A task runs on one CPU

A task that blocks or dies publishes its state in `sched_block` or `exit`, and
only then goes through `sched_yield(false)` to save its registers. In between,
`unblock_tasks` on another CPU may find it. As long as no task is woken in that
window, a task has one token: on a CPU, in the ready queue, or with the task
that creates it.
-/

namespace Yagura

open Function List Nat Pc Sys

/-! ## Places -/

namespace Pc

@[simp, grind] def current (t : Nat) : Pc → Nat
  | .run u | .exit u | .bury u | .save u true | .load _ _ u | .requeue _ u | .enter u => if u = t then 1 else 0
  | _ => 0

/-- Tokens of `t`: as current task, as the `prev_task` that goes back to the
ready queue, or as the task `unblock_tasks` has set running. -/
@[simp, grind] def active (t : Nat) : Pc → Nat
  | .run u | .exit u | .bury u | .save u true | .enter u => if u = t then 1 else 0
  | .switch _ p | .unblock _ p _ | .wake _ p _ _ | .dequeue _ p => if p = some t then 1 else 0
  | .enqueue _ p w _ => (if p = some t then 1 else 0) + if w = t then 1 else 0
  | .load _ p u => (if p = some t then 1 else 0) + if u = t then 1 else 0
  | .requeue p u => (if p = t then 1 else 0) + if u = t then 1 else 0
  | .leave _ | .save _ false => 0

/-- `t` has published a state other than running and its registers are not
saved yet. -/
@[simp, grind] def leaving (t : Nat) : Pc → Nat
  | .leave u | .save u false => if u = t then 1 else 0
  | _ => 0

@[simp, grind] def live (t : Nat) : Pc → Nat
  | .run u | .exit u | .bury u | .leave u | .save u _ => if u = t then 1 else 0
  | _ => 0

@[simp, grind] def waking (t : Nat) : Pc → Nat
  | .wake _ _ w _ => if w = t then 1 else 0
  | _ => 0

@[simp, grind] def exits (t : Nat) : Pc → Nat
  | .exit u | .bury u => if u = t then 1 else 0
  | _ => 0

@[simp, grind] def locking : Pc → Nat
  | .unblock .. | .wake .. | .enqueue .. => 1
  | _ => 0

theorem waking_le_locking (t : Nat) (p : Pc) : p.waking t ≤ p.locking := by
  cases p <;> simp only [waking, locking] <;> grind

end Pc

@[simp, grind] def Phase.builds (t : Nat) : Phase → Nat
  | .clone k | .register k | .enqueue k => if k = t then 1 else 0
  | _ => 0

def Sys.active (n : Nat) (s : Sys) (t : Nat) : Nat :=
  tally n s.pc (Pc.active t) + s.readyQueue.count t + tally s.nextTask s.phase (Phase.builds t)

structure TaskOk (n : Nat) (s : Sys) (t : Nat) : Prop where
  once : s.active n t + tally n s.pc (Pc.leaving t) ≤ 1
  parked : (s.task t).state ≠ .running → s.active n t = 0
  saved : (s.task t).saved = false → tally n s.pc (Pc.live t) ≠ 0
  waking : tally n s.pc (Pc.waking t) ≠ 0 → (s.task t).state ≠ .running ∧ tally n s.pc (Pc.leaving t) = 0
  fresh : s.nextTask ≤ t → s.active n t + tally n s.pc (Pc.leaving t) = 0 ∧ s.phase t = .user ∧
    (s.task t).state = .running
  idle : t < n → (s.task t).state = .running ∧ s.phase t = .user ∧ tally n s.pc (Pc.exits t) = 0 ∧
    tally n s.pc (Pc.leaving t) = 0 ∧
    s.active n t ≤ (s.pc t).current t

structure SchedInv (n : Nat) (s : Sys) : Prop where
  task : ∀ t, TaskOk n s t
  locked : tally n s.pc Pc.locking ≤ 1
  bound : n ≤ s.nextTask

variable {n c t : Nat} {s : Sys}

theorem locking_eq_zero (h : s.AllTasksUnlocked n) : tally n s.pc locking = 0 := by
  refine tally_eq_zero fun c hc => ?_
  have := h c hc
  cases hp : s.pc c <;> simp_all [holdsAllTasksLock, locking]

/-! ## Steps -/

theorem tallies_update (g : Nat → Pc) (hc : c < n) (p : Pc) (t : Nat) :
    (tally n (update g c p) (active t) + (g c).active t = tally n g (active t) + p.active t) ∧
    (tally n (update g c p) (leaving t) + (g c).leaving t = tally n g (leaving t) + p.leaving t) ∧
    (tally n (update g c p) (live t) + (g c).live t = tally n g (live t) + p.live t) ∧
    (tally n (update g c p) (waking t) + (g c).waking t = tally n g (waking t) + p.waking t) ∧
    (tally n (update g c p) (exits t) + (g c).exits t = tally n g (exits t) + p.exits t) :=
  ⟨tally_update _ hc p, tally_update _ hc p, tally_update _ hc p, tally_update _ hc p, tally_update _ hc p⟩

theorem locked_setPc {q : Pc} (hc : c < n) (hq : q.locking ≤ (s.pc c).locking) (h : tally n s.pc locking ≤ 1) :
    tally n (s.setPc c q).pc locking ≤ 1 := by
  have := tally_update (g := s.pc) locking hc q
  simp only [setPc]
  omega

/-- How a step of CPU `c` to `q` deals with the tokens of `u`. -/
structure Moves (n : Nat) (s s₁ : Sys) (c : Nat) (q : Pc) (u : Nat) : Prop where
  token : q.active u + s₁.readyQueue.count u + q.leaving u ≤
    (s.pc c).active u + s.readyQueue.count u + (s.pc c).leaving u
  state : (s₁.task u).state = (s.task u).state ∧
      q.active u + s₁.readyQueue.count u ≤ (s.pc c).active u + s.readyQueue.count u ∨
    0 < (s.pc c).active u ∧ q.active u = 0 ∧ s₁.readyQueue = s.readyQueue
  saved : (s₁.task u).saved = false → 0 < q.live u ∨ (s.task u).saved = false ∧ (s.pc c).live u ≤ q.live u
  waking : q.waking u ≤ (s.pc c).waking u ∨ (s.task u).state ≠ .running ∧ tally n s.pc (leaving u) = 0
  idle : u < n → s.phase u = .user → 0 < (s.pc c).exits u ∨ (s₁.task u).state = (s.task u).state ∧
    q.exits u ≤ (s.pc c).exits u ∧ q.leaving u ≤ (s.pc c).leaving u
  current : u = c → q.active u + s₁.readyQueue.count u + (s.pc c).current u ≤
    (s.pc c).active u + s.readyQueue.count u + q.current u

section
variable {s₁ : Sys} {q : Pc} {u : Nat}

theorem TaskOk.move (hok : TaskOk n s u) (hc : c < n) (hpc : s₁.pc = s.pc) (hN : s₁.nextTask = s.nextTask)
    (hph : s₁.phase = s.phase) (hm : Moves n s s₁ c q u) : TaskOk n (s₁.setPc c q) u := by
  have hpcs : (s₁.setPc c q).pc = update s.pc c q := by rw [setPc, hpc]
  obtain ⟨ha, hle, hli, hwa, hex⟩ := tallies_update s.pc hc q u
  rw [← hpcs] at ha hle hli hwa hex
  have hac : (s₁.setPc c q).active n u + (s.pc c).active u + s.readyQueue.count u =
      s.active n u + q.active u + s₁.readyQueue.count u := by
    simp only [Sys.active, setPc, hN, hph] at ha ⊢
    omega
  have hale := le_tally (g := s.pc) (active u) hc
  have hlle := le_tally (g := s.pc) (leaving u) hc
  have hvle := le_tally (g := s.pc) (live u) hc
  have hxle := le_tally (g := s.pc) (exits u) hc
  have hin : (s.pc c).active u + s.readyQueue.count u ≤ s.active n u := by
    simp only [Sys.active]
    omega
  have htok := hm.token
  refine ⟨?_, fun hst => ?_, fun hsv => ?_, fun hw => ?_, fun hge => ?_, fun hlt => ?_⟩
  · have := hok.once
    omega
  · obtain ⟨hsa, hle'⟩ | ⟨hpos, hz, hq⟩ := hm.state
    · have := hok.parked fun h => hst (hsa.trans h)
      omega
    · have := hok.once
      rw [hq] at hac
      omega
  · obtain hpos | ⟨hold, hle'⟩ := hm.saved hsv
    · omega
    · have := hok.saved hold
      omega
  · -- a task that is being woken is not running, so it has no token to give or take
    have hwok : (s.task u).state ≠ .running ∧ tally n s.pc (leaving u) = 0 := by
      obtain hle' | hwok := hm.waking
      · exact hok.waking (by omega)
      · exact hwok
    have hz := hok.parked hwok.1
    obtain ⟨hsa, -⟩ | ⟨hpos, -⟩ := hm.state
    · exact ⟨fun h => hwok.1 (hsa.symm.trans h), by omega⟩
    · omega
  · obtain ⟨hz, hus, hru⟩ := hok.fresh (hN ▸ hge)
    obtain ⟨hsa, -⟩ | ⟨hpos, -⟩ := hm.state
    · exact ⟨by omega, (congrFun hph u).trans hus, hsa.trans hru⟩
    · omega
  · obtain ⟨hru, hus, hxz, hlz, hcu⟩ := hok.idle hlt
    obtain hpos | ⟨hsa, hxe, hlv⟩ := hm.idle hlt hus
    · omega
    · refine ⟨hsa.trans hru, (congrFun hph u).trans hus, by omega, by omega, ?_⟩
      rw [hpcs]
      by_cases huc : u = c
      · have := hm.current huc
        subst huc
        rw [update_self]
        omega
      · rw [update_of_ne huc]
        omega

theorem SchedInv.cpu (hs : SchedInv n s) (hc : c < n)
    (hlk : q.locking ≤ (s.pc c).locking ∨ s.AllTasksUnlocked n) (hpc : s₁.pc = s.pc)
    (hN : s₁.nextTask = s.nextTask) (hph : s₁.phase = s.phase) (h : ∀ u, Moves n s s₁ c q u) :
    SchedInv n (s₁.setPc c q) := by
  refine ⟨fun u => (hs.task u).move hc hpc hN hph (h u), ?_, hN ▸ hs.bound⟩
  have hlo := tally_update (g := s.pc) locking hc q
  have := hs.locked
  have hq : q.locking ≤ 1 := by cases q <;> simp
  have := hlk.imp_right locking_eq_zero
  simp only [setPc, hpc]
  omega

/-- Nothing but the place of the tokens of `u` on the CPU changes. -/
theorem Moves.of_eq (hq : s₁.readyQueue = s.readyQueue) (hst : (s₁.task u).state = (s.task u).state)
    (hsv : (s₁.task u).saved = (s.task u).saved)
    (h : q.current u = (s.pc c).current u ∧ q.active u = (s.pc c).active u ∧ q.leaving u = (s.pc c).leaving u ∧
      q.live u = (s.pc c).live u ∧ q.waking u = (s.pc c).waking u ∧ q.exits u = (s.pc c).exits u) :
    Moves n s s₁ c q u := by
  obtain ⟨hcu, hac, hle, hli, hwa, hex⟩ := h
  exact {
    token := by rw [hq, hac, hle]
    state := .inl ⟨hst, by rw [hq, hac]⟩
    saved := fun h => .inr ⟨hsv.symm.trans h, hli.ge⟩
    waking := .inl hwa.le
    idle := fun _ _ => .inr ⟨hst, hex.le, hle.le⟩
    current := fun _ => by rw [hq, hac, hcu] }

end

theorem SchedInv.quiet {q : Pc} (hs : SchedInv n s) (hc : c < n) (hq : q.locking ≤ (s.pc c).locking)
    (h : ∀ t, q.current t = (s.pc c).current t ∧ q.active t = (s.pc c).active t ∧ q.leaving t = (s.pc c).leaving t ∧
      q.live t = (s.pc c).live t ∧ q.waking t = (s.pc c).waking t ∧ q.exits t = (s.pc c).exits t) :
    SchedInv n (s.setPc c q) :=
  hs.cpu hc (.inl hq) rfl rfl rfl fun u => .of_eq rfl rfl rfl (h u)

theorem SchedInv.of_eq {s' : Sys} (hs : SchedInv n s) (hpc : s'.pc = s.pc) (hq : s'.readyQueue = s.readyQueue)
    (hn : s'.nextTask = s.nextTask) (hph : s'.phase = s.phase) (hst : ∀ u, (s'.task u).state = (s.task u).state)
    (hsv : ∀ u, (s'.task u).saved = (s.task u).saved) : SchedInv n s' := by
  refine ⟨fun t => ?_, by rw [hpc]; exact hs.locked, by rw [hn]; exact hs.bound⟩
  have ha : s'.active n t = s.active n t := by simp only [Sys.active, hpc, hq, hn, hph]
  obtain ⟨honce, hparked, hsaved, hwaking, hfresh, hidle⟩ := hs.task t
  rw [← ha, ← hpc] at honce
  rw [← ha, ← hst] at hparked
  rw [← hsv, ← hpc] at hsaved
  rw [← hst, ← hpc] at hwaking
  rw [← ha, ← hpc, ← hn, ← hph, ← hst] at hfresh
  rw [← ha, ← hpc, ← hph, ← hst] at hidle
  exact ⟨honce, hparked, hsaved, hwaking, hfresh, hidle⟩

section
variable {stk prev : Option Nat} {w : Nat} {rest : List Nat}

theorem SchedInv.visit (hs : SchedInv n s) (hc : c < n) (hp : s.pc c = .unblock stk prev (w :: rest))
    (hb : (s.task w).state ≠ .running) (hl : tally n s.pc (leaving w) = 0) (rest' : List Nat) :
    SchedInv n (s.setPc c (.wake stk prev w rest')) := by
  refine hs.cpu hc (.inl (by simp [hp])) rfl rfl rfl fun u => ?_
  by_cases hu : w = u
  · exact {
      token := by simp [hp]
      state := .inl (by simp [hp])
      saved := fun h => .inr ⟨h, by simp [hp]⟩
      waking := .inr (hu ▸ ⟨hb, hl⟩)
      idle := fun _ _ => .inr (by simp [hp])
      current := fun _ => by simp [hp] }
  · exact .of_eq rfl rfl rfl (by simp [hp, hu])

/-- `w` gets its token back; its state, which is not running, says that it has none. -/
theorem SchedInv.wake (hs : SchedInv n s) (hc : c < n) (hp : s.pc c = .wake stk prev w rest) :
    SchedInv n ((s.setTask w { s.task w with
      unblock := none, state := .running, refCount := (s.task w).refCount + 1 }).setPc c
        (.enqueue stk prev w rest)) := by
  refine ⟨fun u => ?_, locked_setPc hc (by simp [hp, locking, setTask]) hs.locked, hs.bound⟩
  by_cases hu : u = w
  · subst hu
    have hok := hs.task u
    obtain ⟨ha, hle, hli, hwa, hex⟩ := tallies_update s.pc hc (.enqueue stk prev u rest) u
    have hwle := le_tally (g := s.pc) (waking u) hc
    have hwal := (tally_mono (waking_le_locking u)).trans hs.locked
    simp only [hp, Pc.active, Pc.leaving, Pc.live, Pc.waking, Pc.exits, if_true] at ha hle hli hwa hex hwle
    obtain ⟨hst, hlz⟩ := hok.waking (by omega)
    have hz := hok.parked hst
    have hact : ((s.setTask u { s.task u with
        unblock := none, state := .running, refCount := (s.task u).refCount + 1 }).setPc c
          (.enqueue stk prev u rest)).active n u = 1 := by
      simp only [Sys.active, setPc, setTask] at hz ⊢
      omega
    have hrun : (((s.setTask u { s.task u with
        unblock := none, state := .running, refCount := (s.task u).refCount + 1 }).setPc c
          (.enqueue stk prev u rest)).task u).state = .running := by simp [setPc, setTask]
    refine ⟨?_, fun h => absurd hrun h, fun hsv => ?_, fun h => ?_, fun h => ?_, fun h => ?_⟩
    · rw [hact]
      simp only [setPc, setTask]
      omega
    · have := hok.saved (by simpa [setPc, setTask] using hsv)
      simp only [setPc, setTask]
      omega
    · simp only [setPc, setTask] at h
      omega
    · exact absurd (hok.fresh h).2.2 hst
    · exact absurd (hok.idle h).1 hst
  · refine (hs.task u).move hc rfl rfl rfl (.of_eq rfl ?_ ?_ ?_)
    · simp [setTask, hu]
    · simp [setTask, hu]
    · simp [hp, Ne.symm hu]

/-- The idle task of the CPU gets a token; it had none, as it was not current. -/
theorem SchedInv.dequeueIdle (hs : SchedInv n s) (hc : c < n) (hp : s.pc c = .dequeue stk prev) :
    SchedInv n (s.setPc c (.load stk prev c)) := by
  refine ⟨fun u => ?_, locked_setPc hc (zero_le _) hs.locked, hs.bound⟩
  by_cases hu : u = c
  · subst hu
    have hok := hs.task u
    obtain ⟨ha, hle, hli, hwa, hex⟩ := tallies_update s.pc hc (.load stk prev u) u
    obtain ⟨hru, hus, hxz, hlz, hcu⟩ := hok.idle hc
    simp only [hp, Pc.active, Pc.leaving, Pc.live, Pc.waking, Pc.exits, Pc.current, if_true] at ha hle hli hwa hex hcu
    have hact : (s.setPc u (.load stk prev u)).active n u = 1 := by
      simp only [Sys.active, setPc] at hcu ⊢
      omega
    refine ⟨?_, fun h => absurd hru h, fun hsv => ?_, fun h => ?_, fun h => ?_, fun _ => ?_⟩
    · rw [hact]
      simp only [setPc]
      omega
    · have := hok.saved hsv
      simp only [setPc]
      omega
    · simp only [setPc] at h
      exact absurd hru (hok.waking (by omega)).1
    · have := hs.bound
      have : s.nextTask ≤ u := h
      omega
    · refine ⟨hru, hus, ?_, ?_, ?_⟩
      · simp only [setPc]
        omega
      · simp only [setPc]
        omega
      · rw [hact]
        simp [setPc]
  · exact (hs.task u).move hc rfl rfl rfl (.of_eq rfl rfl rfl (by simp [hp, Ne.symm hu]))

/-- A task that blocks or dies gives up its token and is on its way off the CPU. -/
theorem SchedInv.stop {a : Task} (hs : SchedInv n s) (hc : c < n)
    (hp : s.pc c = .run t ∧ n ≤ t ∨ s.pc c = .bury t) : SchedInv n ((s.setTask t a).setPc c (.leave t)) := by
  refine hs.cpu hc (.inl (zero_le _)) rfl rfl rfl fun u => ?_
  by_cases hu : t = u
  · subst hu
    have hpc : (s.pc c).active t = 1 ∧ (s.pc c).live t = 1 ∧ (s.pc c).current t = 1 := by
      rcases hp with ⟨hp, -⟩ | hp <;> simp [hp]
    have hlv : (leave t).active t = 0 ∧ (leave t).leaving t = 1 := by simp
    exact {
      token := by
        simp only [setTask]
        omega
      state := .inr ⟨by omega, rfl, rfl⟩
      saved := fun _ => .inl (by simp)
      waking := .inl (zero_le _)
      idle := fun hlt _ => .inl (by
        rcases hp with ⟨-, hge⟩ | hp
        · omega
        · simp [hp])
      current := fun _ => by
        simp only [setTask]
        omega }
  · have hta : (s.setTask t a).task u = s.task u := by simp [setTask, Ne.symm hu]
    refine .of_eq rfl (by rw [hta]) (by rw [hta]) ?_
    rcases hp with ⟨hp, -⟩ | hp <;> simp [hp, hu]

theorem SchedInv.save {rq : Bool} (hs : SchedInv n s) (hc : c < n) (hp : s.pc c = .save t rq) :
    SchedInv n ((s.setTask t { s.task t with saved := true }).setPc c
      (.switch (some t) (if rq = true ∧ t ≠ c then some t else none))) := by
  refine hs.cpu hc (.inl (zero_le _)) rfl rfl rfl fun u => ?_
  have hst : ((s.setTask t { s.task t with saved := true }).task u).state = (s.task u).state := by
    by_cases hu : u = t <;> simp [setTask, hu]
  have hle : (switch (some t) (if rq = true ∧ t ≠ c then some t else none)).active u ≤ (s.pc c).active u := by
    rw [hp]
    cases rq <;> by_cases htc : t = c <;> simp [htc]
  exact {
    token := by
      simp only [setTask, Pc.leaving]
      omega
    state := .inl ⟨hst, by simp only [setTask]; omega⟩
    saved := fun hsv => .inr (by
      by_cases hu : u = t
      · simp [setTask, hu] at hsv
      · simp only [setTask, update_of_ne hu] at hsv
        exact ⟨hsv, by simp [hp, Ne.symm hu]⟩)
    waking := .inl (zero_le _)
    idle := fun _ _ => .inr ⟨hst, zero_le _, zero_le _⟩
    current := fun huc => by
      subst huc
      rw [hp]
      cases rq <;> by_cases htc : t = u <;> simp [htc, setTask] }

/-- Tokens go to the ready queue and come from it. -/
theorem SchedInv.queue {q : Pc} {l : List Nat} (hs : SchedInv n s) (hc : c < n) (hlk : q.locking ≤ (s.pc c).locking)
    (htok : ∀ u, q.active u + l.count u = (s.pc c).active u + s.readyQueue.count u)
    (hcu : ∀ u, (s.pc c).current u ≤ q.current u)
    (hno : ∀ u, q.leaving u = 0 ∧ (s.pc c).live u = 0 ∧ q.waking u = 0 ∧ q.exits u = 0) :
    SchedInv n ({ s with readyQueue := l }.setPc c q) :=
  hs.cpu hc (.inl hlk) rfl rfl rfl fun u => {
    token := by
      have := htok u
      have := (hno u).1
      simp only
      omega
    state := .inl ⟨rfl, (htok u).le⟩
    saved := fun h => .inr ⟨h, by rw [(hno u).2.1]; exact zero_le _⟩
    waking := .inl (by rw [(hno u).2.2.1]; exact zero_le _)
    idle := fun _ _ => .inr ⟨rfl, by rw [(hno u).2.2.2]; exact zero_le _, by rw [(hno u).1]; exact zero_le _⟩
    current := fun _ => by
      have := htok u
      have := hcu u
      simp only
      omega }

theorem SchedInv.enter (hs : SchedInv n s) (hc : c < n) (hp : s.pc c = .enter t) :
    SchedInv n ((s.setTask t { s.task t with saved := false }).setPc c (.run t)) := by
  refine hs.cpu hc (.inl (zero_le _)) rfl rfl rfl fun u => ?_
  have hst : ((s.setTask t { s.task t with saved := false }).task u).state = (s.task u).state := by
    by_cases hu : u = t <;> simp [setTask, hu]
  exact {
    token := by simp [hp, setTask]
    state := .inl ⟨hst, by simp [hp, setTask]⟩
    saved := fun hsv => by
      by_cases hu : u = t
      · exact .inl (by simp [hu])
      · simp only [setTask, update_of_ne hu] at hsv
        exact .inr ⟨hsv, by simp [hp]⟩
    waking := .inl (zero_le _)
    idle := fun _ _ => .inr ⟨hst, zero_le _, zero_le _⟩
    current := fun _ => by simp [hp, setTask] }

/-- `exit` leaves the part in which it can be interrupted; the idle tasks never get there. -/
theorem SchedInv.exitCli (hs : SchedInv n s) (hc : c < n) (hp : s.pc c = .run t) (hph : s.phase t = .exiting) :
    SchedInv n (s.setPc c (.exit t)) := by
  refine hs.cpu hc (.inl (zero_le _)) rfl rfl rfl fun u => ?_
  by_cases hu : t = u
  · exact {
      token := by simp [hp]
      state := .inl (by simp [hp])
      saved := fun h => .inr ⟨h, by simp [hp]⟩
      waking := .inl (zero_le _)
      idle := fun _ hus => by
        rw [← hu, hph] at hus
        cases hus
      current := fun _ => by simp [hp] }
  · exact .of_eq rfl rfl rfl (by simp [hp, hu])

end

/-! ## Steps of a system call -/

theorem builds_update {p : Phase} (ht : t < s.nextTask) (u : Nat) :
    tally s.nextTask (update s.phase t p) (Phase.builds u) + (s.phase t).builds u =
      tally s.nextTask s.phase (Phase.builds u) + p.builds u := tally_update _ ht p

theorem SchedInv.run_lt (hs : SchedInv n s) (hc : c < n) (hp : s.pc c = .run t) : t < s.nextTask := by
  have ha := le_tally (g := s.pc) (Pc.active t) hc
  have := (hs.task t).fresh
  simp only [hp, Pc.active, if_true, Sys.active] at ha this
  omega

/-- A call of `t` that hands no token out: new tasks and idle tasks stay in user mode. -/
theorem TaskOk.call {u : Nat} {p : Phase} {l : List Nat} (hok : TaskOk n s u) (hlt : t < s.nextTask)
    (ht : n ≤ t ∨ s.phase t ≠ .user) (hle : l.count u + p.builds u ≤ s.readyQueue.count u + (s.phase t).builds u) :
    TaskOk n ({ s with readyQueue := l }.setPhase t p) u := by
  have hb := builds_update (p := p) hlt u
  have ha : ({ s with readyQueue := l }.setPhase t p).active n u ≤ s.active n u := by
    simp only [Sys.setPhase, Sys.active]
    omega
  have hus : s.phase u = .user → s.nextTask ≤ u ∨ u < n → ({ s with readyQueue := l }.setPhase t p).phase u = .user := by
    intro hus hu
    have hne : u ≠ t := by
      rintro rfl
      rcases ht with ht | ht
      · omega
      · exact ht hus
    simpa [Sys.setPhase, hne] using hus
  refine ⟨?_, fun hst => ?_, hok.saved, hok.waking, fun hge => ?_, fun hun => ?_⟩
  · exact (Nat.add_le_add_right ha _).trans hok.once
  · have := hok.parked hst
    omega
  · obtain ⟨hz, hph, hru⟩ := hok.fresh hge
    have : tally n s.pc (leaving u) = 0 := by omega
    exact ⟨by simp only [Sys.setPhase] at *; omega, hus hph (.inl hge), hru⟩
  · obtain ⟨hru, hph, hxz, hlz, hcu⟩ := hok.idle hun
    exact ⟨hru, hus hph (.inr hun), hxz, hlz, ha.trans hcu⟩

section
variable {p : Phase} {k : Nat} (hs : SchedInv n s) (hc : c < n) (hp : s.pc c = .run t)
include hs hc hp

theorem SchedInv.setPhase (ht : n ≤ t ∨ s.phase t ≠ .user)
    (hb : ∀ u, p.builds u ≤ (s.phase t).builds u) : SchedInv n (s.setPhase t p) :=
  ⟨fun u => (hs.task u).call (hs.run_lt hc hp) ht (Nat.add_le_add_left (hb u) _), hs.locked, hs.bound⟩

theorem SchedInv.registerEnqueue (hph : s.phase t = .enqueue k) :
    SchedInv n ((s.enqueueReady k).setPhase t .user) := by
  refine ⟨fun u => (hs.task u).call (hs.run_lt hc hp) (.inr (by simp [hph])) ?_, hs.locked, hs.bound⟩
  simp [hph, count_append, count_singleton]

theorem SchedInv.clone {a : Task} (ht : n ≤ t) (hph : s.phase t = .user) (ha : a.state = .running) (hsv : a.saved = true)
    (tid : Int) :
    SchedInv n ({ s with
      task := update s.task s.nextTask a
      nextTask := s.nextTask + 1, nextTid := tid }.setPhase t (.clone s.nextTask)) := by
  have hlt := hs.run_lt hc hp
  have hb := hs.bound
  have hne : s.nextTask ≠ t := by omega
  obtain ⟨hz, hus, hru⟩ := (hs.task s.nextTask).fresh le_rfl
  refine ⟨fun u => ?_, hs.locked, by simp only [Sys.setPhase]; omega⟩
  have hbu := builds_update (p := .clone s.nextTask) hlt u
  have hok := hs.task u
  -- the new task has one token, with the task that creates it
  have hac : ({ s with
      task := update s.task s.nextTask a
      nextTask := s.nextTask + 1, nextTid := tid }.setPhase t (.clone s.nextTask)).active n u =
      s.active n u + if s.nextTask = u then 1 else 0 := by
    simp only [Sys.setPhase, Sys.active, tally_succ, update_of_ne hne, hus, hph, Phase.builds] at hbu ⊢
    omega
  by_cases hu : u = s.nextTask
  · subst hu
    have hrun : (update s.task s.nextTask a s.nextTask).state = .running := by rw [update_self, ha]
    rw [if_pos rfl] at hac
    refine ⟨?_, fun h => absurd hrun h, fun h => ?_, fun h => ?_, fun h => ?_, fun h => ?_⟩
    · rw [hac]
      simp only [Sys.setPhase]
      omega
    · simp only [Sys.setPhase, update_self, hsv] at h
      cases h
    · exact absurd hru (hok.waking h).1
    · exact absurd h (by simp only [Sys.setPhase]; omega)
    · omega
  · rw [if_neg (Ne.symm hu), Nat.add_zero] at hac
    have hta : update s.task s.nextTask a u = s.task u := update_of_ne hu ..
    have hfu : s.nextTask ≤ u ∨ u < n → s.phase u = .user →
        update s.phase t (.clone s.nextTask) u = .user := by
      intro hor hus
      rw [update_of_ne (by omega), hus]
    refine ⟨?_, fun h => ?_, fun h => ?_, fun h => ?_, fun h => ?_, fun h => ?_⟩
    · rw [hac]
      exact hok.once
    · rw [hac]
      exact hok.parked (hta ▸ h)
    · exact hok.saved (hta ▸ h)
    · have := hok.waking h
      rwa [← hta] at this
    · have hge : s.nextTask ≤ u := by
        simp only [Sys.setPhase] at h
        omega
      obtain ⟨hz, hph, hru⟩ := hok.fresh hge
      exact ⟨by rw [hac]; exact hz, hfu (.inl hge) hph, by rw [← hru, ← hta]; rfl⟩
    · obtain ⟨hru, hph, hxz, hlz, hcu⟩ := hok.idle h
      exact ⟨by rw [← hru, ← hta]; rfl, hfu (.inr h) hph, hxz, hlz, by rw [hac]; exact hcu⟩

end

/-! ## Runs -/

/-- `unblock_tasks` wakes no task that is still on its way off a CPU. -/
def wakesSaved (n : Nat) (s : Sys) : Ev → Prop
  | .wake w | .wakeReap w _ => ∀ c < n, (s.pc c).leaving w = 0
  | _ => True

instance (n : Nat) (s : Sys) : ∀ e, Decidable (wakesSaved n s e)
  | .wake _ | .wakeReap .. => inferInstanceAs (Decidable (∀ c < n, _))
  | .tau | .reap _ | .clone .. | .link _ | .exit _ | .reparent _ => .isTrue trivial

theorem blocked_ne_running {a : TaskState} (h : a.blocked = true) : a ≠ .running := by
  rintro rfl
  cases h

theorem SchedInv.setRef {r : Nat} (hs : SchedInv n s) (x : Nat) : SchedInv n (s.setRef x r) := by
  refine hs.of_eq rfl rfl rfl rfl (fun u => ?_) (fun u => ?_) <;>
    by_cases e : u = x <;> simp [Sys.setRef, setTask, e]

theorem SchedInv.unlink (hs : SchedInv n s) (w x : Nat) : SchedInv n (s.unlink w x) :=
  hs.of_eq rfl rfl rfl rfl (fun _ => rfl) fun _ => rfl

theorem SchedInv.step {e : Ev} {s' : Sys} (hs : SchedInv n s) (h : Step n s e s') (hok : wakesSaved n s e) :
    SchedInv n s' := by
  cases h with
  | tick hc hp | unlockAllTasks hc hp | loadRequeue hc hp | load hc hp =>
    exact hs.quiet hc (zero_le _) (by simp [hp])
  | block _ _ hc hp ht => exact hs.stop hc (.inl ⟨hp, ht⟩)
  | exitDead hc hp => exact hs.stop hc (.inr hp)
  | enter hc hp => exact hs.enter hc hp
  | leave hc hp _ _ => exact (hs.setRef _).quiet hc (zero_le _) (by simp [Sys.setRef, setTask, hp])
  | save hc hp => exact hs.save hc hp
  | lockAllTasks hc hp hu => exact hs.cpu hc (.inr hu) rfl rfl rfl fun u => .of_eq rfl rfl rfl (by simp [hp])
  | visitOther hc hp | visitStay hc hp | visitStayWaitpid hc hp =>
    exact hs.quiet hc (by simp [hp]) (by simp [hp])
  | visitInterrupted hc hp hb _ => exact hs.visit hc hp (by simp [hb]) (tally_eq_zero hok) _
  | visitUnblock hc hp hb | visitNoTarget hc hp hb =>
    exact hs.visit hc hp (blocked_ne_running hb) (tally_eq_zero hok) _
  | visitReap hc hp hb _ _ => exact (hs.unlink _ _).visit hc hp (blocked_ne_running hb) (tally_eq_zero hok) _
  | wake hc hp => exact hs.wake hc hp
  | enqueue hc hp _ _ =>
    refine hs.queue hc (by simp [hp]) (fun u => ?_) (by simp [hp]) (by simp [hp])
    simp only [hp, Pc.active, count_append, count_singleton, beq_iff_eq]
    omega
  | dequeueIdle hc hp _ _ => exact hs.dequeueIdle hc hp
  | dequeue hc hp hq _ =>
    refine hs.queue hc (zero_le _) (fun u => ?_) (by simp [hp]) (by simp [hp])
    simp only [hp, hq, Pc.active, count_cons, beq_iff_eq]
    omega
  | requeue hc hp _ _ =>
    refine hs.queue hc (zero_le _) (fun u => ?_) (by simp [hp]) (by simp [hp])
    simp only [hp, Pc.active, count_append, count_singleton, beq_iff_eq]
    omega
  | clone flags hc hp ht hph _ => exact hs.clone hc hp ht hph rfl rfl _
  | cloneFail hc hp hph =>
    refine SchedInv.setPhase ?_ hc hp (.inr ?_) fun _ => zero_le _
    · exact (hs.setRef _).of_eq rfl rfl rfl rfl (fun _ => rfl) fun _ => rfl
    · simp [Sys.setRef, setTask, hph]
  | registerRef hc hp hph =>
    refine SchedInv.setPhase ?_ hc hp (.inr ?_) ?_
    · exact (hs.setRef _).of_eq rfl rfl rfl rfl (fun _ => rfl) fun _ => rfl
    · simp [Sys.setRef, setTask, hph]
    · simp [Sys.setRef, setTask, hph]
  | registerLink hc hp hph _ =>
    refine SchedInv.setPhase ?_ hc hp (.inr ?_) ?_
    · exact hs.of_eq rfl rfl rfl rfl (fun _ => rfl) fun _ => rfl
    · simp [hph]
    · simp [hph]
  | registerEnqueue hc hp hph _ _ => exact hs.registerEnqueue hc hp hph
  | find | unref | unrefFree => exact (hs.setRef _).of_eq rfl rfl rfl rfl (fun _ => rfl) fun _ => rfl
  | setpgid pgid hc hp _ =>
    refine hs.of_eq rfl rfl rfl rfl (fun u => ?_) (fun u => ?_)
    all_goals simp only [setTask, update_apply]; split_ifs with e <;> simp [e]
  | reap b hc hp _ _ _ _ => exact hs.unlink _ _
  | exit hc hp ht hph _ _ =>
    refine SchedInv.setPhase ?_ hc hp (.inl ht) fun u => ?_
    · exact hs.of_eq rfl rfl rfl rfl (fun _ => rfl) fun _ => rfl
    · split <;> simp [hph]
  | exitNotify hc hp hph _ _ => exact hs.setPhase hc hp (.inr (by simp [hph])) (by simp [hph])
  | exitCli hc hp hph => exact hs.exitCli hc hp hph
  | exitReparent hc hp _ =>
    refine SchedInv.quiet (hs.of_eq rfl rfl rfl rfl (fun u => ?_) (fun u => ?_)) hc (zero_le _) ?_
    · simp only [Sys.reparent]; split_ifs <;> rfl
    · simp only [Sys.reparent]; split_ifs <;> rfl
    · simp [Sys.reparent, hp]

theorem boot_pcs (n : Nat) (f : Pc → Nat) (hf : f (.switch none none) = 0) : tally n (boot n).pc f = 0 :=
  tally_eq_zero fun _ _ => hf

theorem boot_phases (n : Nat) (f : Phase → Nat) (hf : f .user = 0) : tally (boot n).nextTask (boot n).phase f = 0 :=
  tally_eq_zero fun _ _ => hf

theorem SchedInv.boot (n : Nat) : SchedInv n (boot n) := by
  have h0 := boot_pcs n
  refine ⟨fun t => ?_, by rw [h0 _ rfl]; exact zero_le _, le_succ n⟩
  have ha : (Yagura.boot n).active n t = if n = t then 1 else 0 := by
    rw [Sys.active, h0 (active t) rfl, boot_phases n _ rfl, Yagura.boot, count_singleton]
    simp
  have hst : ((Yagura.boot n).task t).state = .running ∧ ((Yagura.boot n).task t).saved = true := by
    simp only [Yagura.boot]
    split_ifs <;> simp [initTask, idleTask]
  have hN : (Yagura.boot n).nextTask = n + 1 := rfl
  constructor
  · rw [ha, h0 _ rfl]
    split_ifs <;> simp
  · exact fun h => absurd hst.1 h
  · simp [hst.2]
  · exact fun h => absurd (h0 _ rfl) h
  · intro h
    rw [ha, h0 _ rfl, if_neg (by omega)]
    exact ⟨rfl, rfl, hst.1⟩
  · intro h
    rw [ha, h0 _ rfl, h0 _ rfl, if_neg (by omega)]
    exact ⟨hst.1, rfl, rfl, rfl, zero_le _⟩

/-! ## One place at a time -/

namespace Pc

def holds (t : Nat) : Pc → Bool
  | .run u | .exit u | .bury u | .leave u | .save u _ | .load _ _ u | .requeue _ u | .enter u => u == t
  | _ => false

def resumes (t : Nat) : Pc → Bool
  | .load _ _ u | .requeue _ u | .enter u => u == t
  | _ => false

theorem holds_le {p : Pc} {t : Nat} (h : p.holds t = true) : 1 ≤ p.active t + p.leaving t := by
  cases p <;> simp_all [holds]
  case save u rq => cases rq <;> simp

theorem resumes_le (t : Nat) (p : Pc) : p.live t + (p.resumes t).toNat ≤ p.active t + p.leaving t := by
  cases p <;> simp only [live, resumes, active, leaving, Bool.toNat] <;> grind

theorem holds_leaving {p : Pc} {t : Nat} (h : p.holds t = true) (ha : p.active t = 0) :
    p = .leave t ∨ p = .save t false := by
  cases p <;> simp_all [holds]
  case save u rq => cases rq <;> simp_all

end Pc

structure OnePlace (n : Nat) (s : Sys) (t : Nat) : Prop where
  cpu : ∀ c < n, ∀ d < n, (s.pc c).holds t = true → (s.pc d).holds t = true → c = d
  queue : s.readyQueue.count t ≤ 1
  apart : ∀ c < n, (s.pc c).holds t = true → t ∉ s.readyQueue
  parked : (s.task t).state ≠ .running → t ∉ s.readyQueue ∧
    ∀ c < n, (s.pc c).holds t = true → s.pc c = .leave t ∨ s.pc c = .save t false
  resumed : ∀ c < n, (s.pc c).resumes t = true → (s.task t).saved = true

theorem SchedInv.onePlace (hs : SchedInv n s) (t : Nat) : OnePlace n s t := by
  have h1 := (hs.task t).once
  have h2 := (hs.task t).parked
  have hsum := tally_add n s.pc (active t) (leaving t)
  simp only [Sys.active] at h1 h2
  have hone : ∀ c < n, (s.pc c).holds t = true → 1 ≤ tally n s.pc fun p => p.active t + p.leaving t :=
    fun c hc h => (holds_le h).trans (le_tally (g := s.pc) (fun p => p.active t + p.leaving t) hc)
  constructor
  · intro c hc d hd hcu hdu
    by_contra hne
    have := add_le_tally (g := s.pc) (fun p => p.active t + p.leaving t) hc hd hne
    have := holds_le hcu
    have := holds_le hdu
    omega
  · omega
  · intro c hc h hmem
    have := hone c hc h
    have := count_pos_iff.mpr hmem
    omega
  · intro hst
    have hz := h2 hst
    refine ⟨fun hmem => ?_, fun c hc h => holds_leaving h ?_⟩
    · have := count_pos_iff.mpr hmem
      omega
    · have := le_tally (g := s.pc) (active t) hc
      omega
  · intro c hc hr
    by_contra hsv
    have hl := (hs.task t).saved (by simpa using hsv)
    have hle := tally_mono (n := n) (g := s.pc) (resumes_le t)
    have := le_tally (g := s.pc) (fun p => (p.resumes t).toNat) hc
    rw [tally_add] at hle
    simp only [hr, Bool.toNat_true] at this
    omega

theorem one_place_of_wakesSaved (h : Run (Step n) (wakesSaved n) (boot n) s) (t : Nat) : OnePlace n s t :=
  (h.invariant (SchedInv.boot n) fun _ _ _ hs hst hok => hs.step hst hok).onePlace t

def initBlocks : List (Nat × Move) :=
  [(0, .go), (0, .go), (0, .go), (0, .go), (0, .go), (0, .go), (0, .block .other .interruptible)]

def initWoken : List (Nat × Move) :=
  [(1, .go), (1, .unblock), (1, .go), (1, .go), (1, .go), (1, .go), (1, .go), (1, .go)]

theorem woken_once_saved : ∃ s, Run (Step 2) (wakesSaved 2) (boot 2) s ∧ s.pc 1 = .run 2 ∧ OnePlace 2 s 2 := by
  obtain ⟨s, hr, h1⟩ := schedule_reaches 2 (wakesSaved 2) (boot 2)
    (initBlocks ++ [(0, .go), (0, .go)] ++ initWoken) (fun s => s.pc 1 = .run 2) (by decide +kernel)
  exact ⟨s, hr, h1, one_place_of_wakesSaved hr 2⟩

/-- CPU 1 may get there before CPU 0 has saved the registers of init. -/
theorem woken_before_saved : ∃ s, Run (Step 2) anyStep (boot 2) s ∧
    s.pc 0 = .leave 2 ∧ s.pc 1 = .enter 2 ∧ (s.task 2).saved = false ∧ ¬ OnePlace 2 s 2 := by
  obtain ⟨s, hr, h0, h1, hsv⟩ := schedule_reaches 2 anyStep (boot 2) (initBlocks ++ initWoken.dropLast)
    (fun s => s.pc 0 = .leave 2 ∧ s.pc 1 = .enter 2 ∧ (s.task 2).saved = false) (by decide +kernel)
  refine ⟨s, hr, h0, h1, hsv, fun hp => ?_⟩
  have := hp.cpu 0 (by decide) 1 (by decide) (by rw [h0]; rfl) (by rw [h1]; rfl)
  cases this

theorem wakesSaved_one {e : Ev} {s' : Sys} (h : Step 1 s e s') : wakesSaved 1 s e := by
  have key : ∀ {c stk prev w rest}, c < 1 → s.pc c = .unblock stk prev (w :: rest) →
      ∀ d < 1, (s.pc d).leaving w = 0 := by
    intro c stk prev w rest hc hp d hd
    obtain rfl : d = c := by omega
    simp [hp]
  cases h with
  | visitInterrupted hc hp | visitUnblock hc hp | visitReap hc hp | visitNoTarget hc hp => exact key hc hp
  | _ => trivial

theorem one_place_one_cpu (h : Run (Step 1) anyStep (boot 1) s) (t : Nat) : OnePlace 1 s t := by
  refine SchedInv.onePlace (h.invariant (SchedInv.boot 1) ?_) t
  exact fun _ _ _ hs hst _ => hs.step hst (wakesSaved_one hst)

end Yagura
