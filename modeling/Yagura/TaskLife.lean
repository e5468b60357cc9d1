import Yagura.SchedSound

/-!
# The life of a task

Each reference to a `struct task` has an owner: `all_tasks`, the ready queue, a
CPU, a local variable or a `waitpid_blocker` of another task, or the
`sys_clone` that is creating it. `exit` publishes `TASK_DEAD` before
`sched_yield(false)` drops the reference of the CPU, so a parent on another CPU
may reap the task first. As long as a dead task is reaped only after its CPU
has left its kernel stack, `ref_count` counts the owners.
-/

namespace Yagura

open List Pc Phase Sys
open Function (update update_apply update_eq_self update_of_ne update_self)

/-! ## References -/

namespace Pc

def currentTask : Pc → Option Nat
  | .run t | .exit t | .bury t | .leave t | .save t true | .load _ _ t | .requeue _ t | .enter t => some t
  | .save _ false => none
  | .switch _ p | .unblock _ p _ | .wake _ p _ _ | .enqueue _ p _ _ | .dequeue _ p => p

def inFlight (t : Nat) : Pc → Nat
  | .enqueue _ _ w _ => if w = t then 1 else 0
  | .load _ p _ => if p = some t then 1 else 0
  | .requeue p _ => if p = t then 1 else 0
  | _ => 0

@[simp, grind] def refs (t : Nat) : Pc → Nat
  | .run u | .exit u | .bury u | .leave u | .save u true | .enter u => if u = t then 1 else 0
  | .switch _ p | .unblock _ p _ | .wake _ p _ _ | .dequeue _ p => if p = some t then 1 else 0
  | .enqueue _ p w _ => (if p = some t then 1 else 0) + if w = t then 1 else 0
  | .load _ p u => (if p = some t then 1 else 0) + if u = t then 1 else 0
  | .requeue p u => (if p = t then 1 else 0) + if u = t then 1 else 0
  | .save _ false => 0

@[simp, grind] def on (t : Nat) : Pc → Nat
  | .run u | .exit u | .bury u | .leave u | .save u _ | .requeue _ u | .enter u => if u = t then 1 else 0
  | .switch stk _ | .unblock stk _ _ | .wake stk _ _ _ | .enqueue stk _ _ _ | .dequeue stk _ | .load stk _ _ =>
    if stk = some t then 1 else 0

@[simp, grind] def pending (t : Nat) : Pc → Nat
  | .unblock _ _ l => l.count t
  | .wake _ _ w l => (w :: l).count t
  | .enqueue _ _ _ l => l.count t
  | _ => 0

theorem refs_eq (t : Nat) (p : Pc) : p.refs t = (if p.currentTask = some t then 1 else 0) + p.inFlight t := by
  cases p <;> simp only [refs, currentTask, inFlight, Option.some.injEq]
  case save u rq => cases rq <;> simp
  all_goals grind

theorem refs_le (t : Nat) (p : Pc) : p.refs t ≤ p.active t + p.leaving t := by
  cases p <;> simp
  case save u rq => cases rq <;> simp

end Pc

namespace Phase

@[simp, grind] def refs (t : Nat) : Phase → Nat
  | .clone k | .enqueue k => if k = t then 1 else 0
  | .register k => if k = t then 2 else 0
  | _ => 0

@[simp, grind] def hides (t : Nat) : Phase → Nat
  | .clone k | .register k => if k = t then 1 else 0
  | _ => 0

theorem refs_le (t : Nat) (p : Phase) : p.refs t ≤ p.builds t + p.hides t := by
  cases p <;> simp
  split <;> simp

theorem hides_le_refs (t : Nat) (p : Phase) : p.hides t ≤ p.refs t := by
  cases p <;> simp
  split <;> simp

theorem hides_le (t : Nat) (p : Phase) : p.hides t ≤ p.builds t := by
  cases p <;> simp

end Phase

def Sys.refs (n : Nat) (s : Sys) (t : Nat) : Nat :=
  s.allTasks.count t + s.readyQueue.count t + tally n s.pc (Pc.refs t) + tally s.nextTask s.held (List.count t) +
    tally s.nextTask s.phase (Phase.refs t)

structure LifeOk (n : Nat) (s : Sys) (t : Nat) : Prop where
  listed : s.allTasks.count t ≤ 1
  pending : tally n s.pc (Pc.pending t) ≤ s.allTasks.count t
  count : n ≤ t → t < s.nextTask → (s.task t).refCount = s.refs n t
  freed : n ≤ t → t < s.nextTask → s.freed t = if (s.task t).refCount = 0 then 1 else 0
  linked : n ≤ t → s.active n t + tally n s.pc (Pc.on t) ≠ 0 → tally s.nextTask s.phase (Phase.hides t) = 0 →
    s.allTasks.count t = 1
  hidden : tally s.nextTask s.phase (Phase.hides t) ≠ 0 →
    s.allTasks.count t = 0 ∧ tally s.nextTask s.held (List.count t) = 0 ∧ tally n s.pc (Pc.on t) = 0
  tid : n ≤ t → t < s.nextTask → (s.task t).tid ≠ 0
  fresh : s.nextTask ≤ t → s.allTasks.count t = 0 ∧ tally s.nextTask s.held (List.count t) = 0 ∧
    tally n s.pc (Pc.on t) = 0 ∧ s.freed t = 0 ∧ s.held t = []
  idle : t < n → (s.task t).refCount = 1 ∧ (s.task t).tid = 0 ∧ s.allTasks.count t = 0 ∧
    tally s.nextTask s.held (List.count t) = 0 ∧ s.freed t = 0

structure LifeInv (n : Nat) (s : Sys) : Prop where
  sched : SchedInv n s
  task : ∀ t, LifeOk n s t

variable {n c t : Nat} {s : Sys}
  {s' : Sys} {q : Pc} {x k w : Nat} {stk prev : Option Nat} {rest : List Nat} {b : WaitpidBlocker}

theorem Pc.current_le (t : Nat) (p : Pc) : p.current t ≤ p.active t := by
  cases p <;> simp
  case save u rq => cases rq <;> simp

theorem SchedInv.idle_builds (hs : SchedInv n s) (ht : t < n) : tally s.nextTask s.phase (builds t) = 0 := by
  have h := ((hs.task t).idle ht).2.2.2.2
  have := le_tally (g := s.pc) (active t) ht
  have := current_le t (s.pc t)
  simp only [Sys.active] at h
  omega

theorem stacks_update (g : Nat → Pc) (hc : c < n) (p : Pc) (t : Nat) :
    (tally n (update g c p) (active t) + (g c).active t = tally n g (active t) + p.active t) ∧
    (tally n (update g c p) (refs t) + (g c).refs t = tally n g (refs t) + p.refs t) ∧
    (tally n (update g c p) (on t) + (g c).on t = tally n g (on t) + p.on t) :=
  ⟨tally_update _ hc p, tally_update _ hc p, tally_update _ hc p⟩

structure SameTasks (s s' : Sys) : Prop where
  allTasks : s'.allTasks = s.allTasks
  phase : s'.phase = s.phase
  held : s'.held = s.held
  nextTask : s'.nextTask = s.nextTask
  freed : s'.freed = s.freed
  refCount : ∀ u, (s'.task u).refCount = (s.task u).refCount
  tid : ∀ u, (s'.task u).tid = (s.task u).tid

theorem LifeInv.move (hl : LifeInv n s) (hc : c < n) (hpc : s'.pc = update s.pc c q) (he : SameTasks s s')
    (hp : ∀ u, tally n s'.pc (pending u) ≤ s.allTasks.count u)
    (h : ∀ u, n ≤ u → q.refs u + s'.readyQueue.count u = (s.pc c).refs u + s.readyQueue.count u ∧
      (q.active u + s'.readyQueue.count u + q.on u ≠ 0 → (s.pc c).active u + s.readyQueue.count u + (s.pc c).on u ≠ 0))
    (u : Nat) : LifeOk n s' u := by
  have hk := hl.task u
  have honce := (hl.sched.task u).once
  obtain ⟨hqa, hqr, hqo⟩ := stacks_update s.pc hc q u
  rw [← hpc] at hqa hqr hqo
  have hal := le_tally (g := s.pc) (active u) hc
  have hol := le_tally (g := s.pc) (on u) hc
  obtain ⟨hall, hph, hhe, hN, hfr, hrc, htid⟩ := he
  have hrf (hu : n ≤ u) : s'.refs n u = s.refs n u := by
    have := (h u hu).1
    simp only [Sys.refs, hall, hph, hhe, hN]
    omega
  -- a task that is nowhere does not get onto a CPU
  have hno (hu : n ≤ u) (h0 : tally n s.pc (active u) + s.readyQueue.count u + tally n s.pc (on u) = 0) :
      tally n s'.pc (active u) + s'.readyQueue.count u + tally n s'.pc (on u) = 0 := by
    have := (h u hu).2
    omega
  simp only [Sys.active] at honce
  exact {
    listed := hall ▸ hk.listed
    pending := hall ▸ hp u
    count := fun hu ht => by rw [hrc, hrf hu, hk.count hu (hN ▸ ht)]
    freed := fun hu ht => by rw [hfr, hrc, hk.freed hu (hN ▸ ht)]
    linked := fun hu hon hhi => by
      rw [hph, hN] at hhi
      rw [hall]
      refine hk.linked hu (fun h0 => hon ?_) hhi
      simp only [Sys.active, hN, hph] at h0 ⊢
      have := hno hu
      omega
    hidden := fun hhi => by
      rw [hph, hN] at hhi
      obtain ⟨hl0, hh0, ho0⟩ := hk.hidden hhi
      have hd := tally_mono (n := s.nextTask) (g := s.phase) (hides_le u)
      have hu : n ≤ u := by
        by_contra hlt
        have := hl.sched.idle_builds (t := u) (by omega)
        omega
      have := hno hu (by omega)
      exact ⟨hall ▸ hl0, by rw [hhe, hN]; exact hh0, by omega⟩
    tid := fun hu ht => htid u ▸ hk.tid hu (hN ▸ ht)
    fresh := fun hu => by
      rw [hN] at hu
      obtain ⟨hl0, hh0, ho0, hf0, he0⟩ := hk.fresh hu
      have ha0 := ((hl.sched.task u).fresh hu).1
      have hb := hl.sched.bound
      simp only [Sys.active] at ha0
      have := hno (by omega) (by omega)
      exact ⟨hall ▸ hl0, by rw [hhe, hN]; exact hh0, by omega, hfr ▸ hf0, hhe ▸ he0⟩
    idle := fun hu => by
      rw [hrc, htid, hall, hhe, hN, hfr]
      exact hk.idle hu }

theorem pending_setPc {g : Nat → Pc} {l : List Nat} {u : Nat} (hc : c < n) (hq : q.pending u ≤ (g c).pending u)
    (h : tally n g (pending u) ≤ l.count u) : tally n (update g c q) (pending u) ≤ l.count u := by
  have := tally_update (g := g) (pending u) hc q
  omega

theorem Pc.pending_eq_zero {p : Pc} (h : p.locking = 0) (t : Nat) : p.pending t = 0 := by
  cases p <;> simp_all

theorem SchedInv.pending_eq (hs : SchedInv n s) (hc : c < n) (hp : (s.pc c).locking = 1) (u : Nat) :
    tally n s.pc (pending u) = (s.pc c).pending u := by
  refine tally_single hc fun d hd hne => pending_eq_zero ?_ u
  have := add_le_tally (g := s.pc) locking hc hd hne.symm
  have := hs.locked
  omega

theorem pending_unlocked (hu : s.AllTasksUnlocked n) (u : Nat) : tally n s.pc (pending u) = 0 := by
  refine tally_eq_zero fun c hc => pending_eq_zero ?_ u
  have := le_tally (g := s.pc) locking hc
  have := locking_eq_zero hu
  omega

theorem LifeInv.leave_linked (hl : LifeInv n s) (ht : n ≤ t) (hc : c < n) (hp : s.pc c = .leave t) :
    s.allTasks.count t = 1 := by
  have hv := le_tally (g := s.pc) (leaving t) hc
  have ho := le_tally (g := s.pc) (on t) hc
  have h1 := (hl.sched.task t).once
  have hd := tally_mono (n := s.nextTask) (g := s.phase) (hides_le t)
  simp only [hp, leaving, on, if_true, Sys.active] at hv ho h1
  exact (hl.task t).linked ht (by omega) (by omega)

theorem setTask_tid {a : Task} {u : Nat} (hu : (s.task u).tid ≠ 0) (ha : a.tid = (s.task x).tid) :
    ((s.setTask x a).task u).tid ≠ 0 := by
  by_cases h : u = x <;> simp_all [setTask]

/-- A task on its way off the CPU is still in `all_tasks`, so it does not drop the last reference. -/
theorem LifeInv.leave (hl : LifeInv n s) (hc : c < n) (hp : s.pc c = .leave t) (u : Nat) :
    LifeOk n ((s.setRef t ((s.task t).refCount - 1)).setPc c (.save t false)) u := by
  have hk := hl.task u
  have hq := stacks_update s.pc hc (.save t false) u
  have hr := le_tally (g := s.pc) (Pc.refs u) hc
  have hv := le_tally (g := s.pc) (leaving u) hc
  simp only [hp, Pc.active, Pc.refs, on, leaving] at hq hr hv
  have hon : tally n (update s.pc c (.save t false)) (on u) = tally n s.pc (on u) := by omega
  exact {
    listed := hk.listed
    pending := pending_setPc hc (by simp) hk.pending
    count := fun hu ht => by
      have hcn := hk.count hu ht
      simp only [Sys.refs, setPc, Sys.setRef, setTask, update_apply] at hcn ⊢
      grind
    freed := fun hu ht => by
      have hcn := hk.count hu ht
      have hln := hl.leave_linked (t := t) (c := c)
      refine (hk.freed hu ht).trans ?_
      simp only [Sys.refs, setPc, Sys.setRef, setTask, update_apply] at hcn ⊢
      grind
    linked := fun hu h0 => hk.linked hu fun h => h0 (by
      simp only [Sys.active, setPc, Sys.setRef, setTask] at h ⊢
      omega)
    hidden := fun h => (hk.hidden h).imp_right (.imp_right hon.trans)
    tid := fun hu ht => setTask_tid (hk.tid hu ht) rfl
    fresh := fun h => (hk.fresh h).imp_right (.imp_right (.imp_left hon.trans))
    idle := fun hu => by
      have hz := ((hl.sched.task u).idle hu).2.2.2.1
      have hid := hk.idle hu
      simp only [setPc, Sys.setRef, setTask, update_apply]
      grind }

/-- The task that is woken is in `all_tasks`, which the CPU is going through. -/
theorem LifeInv.wake (hl : LifeInv n s) (hc : c < n) (hp : s.pc c = .wake stk prev w rest) (u : Nat) :
    LifeOk n ((s.setTask w { s.task w with
      unblock := none, state := .running, refCount := (s.task w).refCount + 1 }).setPc c
      (.enqueue stk prev w rest)) u := by
  have hk := hl.task u
  have hle : (Pc.enqueue stk prev w rest).pending u ≤ (s.pc c).pending u := by simp [hp, count_cons]
  have hq := stacks_update s.pc hc (.enqueue stk prev w rest) u
  have hpl := le_tally (g := s.pc) (pending u) hc
  have hli := hk.listed
  have hpe := hk.pending
  simp only [hp, Pc.active, Pc.refs, on, pending, count_cons, beq_iff_eq] at hq hpl
  have hon : tally n (update s.pc c (.enqueue stk prev w rest)) (on u) = tally n s.pc (on u) := by omega
  have hw : w = u → s.allTasks.count u = 1 := by grind
  exact {
    listed := hli
    pending := pending_setPc hc hle hpe
    count := fun hu ht => by
      have hcn := hk.count hu ht
      simp only [Sys.refs, setPc, setTask, update_apply] at hcn ⊢
      grind
    freed := fun hu ht => by
      have hcn := hk.count hu ht
      refine (hk.freed hu ht).trans ?_
      simp only [Sys.refs, setPc, setTask, update_apply] at hcn ⊢
      grind
    linked := fun hu h0 hhi => by
      by_cases e : w = u
      · exact hw e
      · refine hk.linked hu (fun h => h0 ?_) hhi
        simp only [Sys.active, setPc, setTask, if_neg e] at h hq ⊢
        omega
    hidden := fun h => (hk.hidden h).imp_right (.imp_right hon.trans)
    tid := fun hu ht => setTask_tid (hk.tid hu ht) rfl
    fresh := fun h => (hk.fresh h).imp_right (.imp_right (.imp_left hon.trans))
    idle := fun hu => by
      have hid := hk.idle hu
      simp only [setPc, setTask, update_apply]
      grind }

/-- The reference of `all_tasks` goes to `w`. -/
theorem LifeInv.unlink (hl : LifeInv n s) (hw : w < s.nextTask) (hx : x ∈ s.allTasks) (hd : (s.task x).state = .dead)
    (hoff : ∀ c < n, (s.pc c).on x = 0) (hp : ∀ u, tally n s.pc (pending u) ≤ (s.allTasks.erase x).count u)
    (u : Nat) : LifeOk n (s.unlink w x) u := by
  have hk := hl.task u
  have hh := tally_update (g := s.held) (count u) hw (x :: s.held w)
  have he : (s.allTasks.erase x).count u = s.allTasks.count u - if x = u then 1 else 0 := by
    rw [count_erase]; simp
  have hpos : x = u → 0 < s.allTasks.count u := fun h => h ▸ count_pos_iff.mpr hx
  have hnot (h0 : s.allTasks.count u = 0) (h1 : tally s.nextTask s.held (count u) = 0) :
      (s.allTasks.erase x).count u = 0 ∧ tally s.nextTask (update s.held w (x :: s.held w)) (count u) = 0 := by
    grind
  exact {
    listed := he.trans_le ((Nat.sub_le ..).trans hk.listed)
    pending := hp u
    count := fun hu ht => (hk.count hu ht).trans (by
      simp only [Sys.refs, Sys.unlink, hold, setHeld, he]
      grind)
    freed := hk.freed
    linked := fun hu h0 hhi => by
      -- a dead task that is on no stack is nowhere
      have hne : x ≠ u := by
        rintro rfl
        refine h0 ?_
        rw [show tally n (s.unlink w x).pc (on x) = 0 from tally_eq_zero hoff]
        exact (hl.sched.task x).parked (by simp [hd])
      exact he.trans (by rw [if_neg hne]; exact hk.linked hu h0 hhi)
    hidden := fun hhi => by
      obtain ⟨hl0, hh0, ho0⟩ := hk.hidden hhi
      exact ⟨(hnot hl0 hh0).1, (hnot hl0 hh0).2, ho0⟩
    tid := hk.tid
    fresh := fun hu => by
      obtain ⟨hl0, hh0, ho0, hf0, he0⟩ := hk.fresh hu
      have : s.nextTask ≤ u := hu
      exact ⟨(hnot hl0 hh0).1, (hnot hl0 hh0).2, ho0, hf0, by
        simpa [Sys.unlink, hold, setHeld, show u ≠ w by omega] using he0⟩
    idle := fun hu => by
      obtain ⟨hr1, ht0, hl0, hh0, hf0⟩ := hk.idle hu
      exact ⟨hr1, ht0, (hnot hl0 hh0).1, (hnot hl0 hh0).2, hf0⟩ }

/-! ## System calls -/

theorem phases_update {p : Phase} (ht : t < s.nextTask) (u : Nat) :
    (tally s.nextTask (update s.phase t p) (builds u) + (s.phase t).builds u =
      tally s.nextTask s.phase (builds u) + p.builds u) ∧
    (tally s.nextTask (update s.phase t p) (refs u) + (s.phase t).refs u =
      tally s.nextTask s.phase (refs u) + p.refs u) ∧
    (tally s.nextTask (update s.phase t p) (hides u) + (s.phase t).hides u =
      tally s.nextTask s.phase (hides u) + p.hides u) :=
  ⟨tally_update _ ht p, tally_update _ ht p, tally_update _ ht p⟩

theorem count_insertByTid (task : Nat → Task) (k u : Nat) (l : List Nat) :
    (insertByTid task k l).count u = l.count u + if k = u then 1 else 0 := by
  induction l with
  | nil => simp [insertByTid, count_singleton]
  | cons it rest ih =>
    unfold insertByTid
    split_ifs with h hk hk <;> simp_all [count_cons]
    omega

section
variable (hl : LifeInv n s) (hc : c < n) (hp : s.pc c = .run t)
include hl hc hp

theorem LifeInv.clone {a : Task} (hph : s.phase t = .user)
    (ha : a.refCount = 1) (htid : a.tid ≠ 0) (tid : Int) (u : Nat) :
    LifeOk n ({ s with
      task := update s.task s.nextTask a
      nextTask := s.nextTask + 1, nextTid := tid }.setPhase t (.clone s.nextTask)) u := by
  have hk := hl.task u
  have hlt := hl.sched.run_lt hc hp
  have hb := hl.sched.bound
  have hne : s.nextTask ≠ t := by omega
  obtain ⟨hz, hus, -⟩ := (hl.sched.task s.nextTask).fresh le_rfl
  obtain ⟨hl0, hh0, ho0, hf0, hnil⟩ := (hl.task s.nextTask).fresh le_rfl
  have hq := phases_update (p := .clone s.nextTask) hlt u
  simp only [hph, Phase.builds, Phase.refs, Phase.hides, Nat.add_zero] at hq
  -- the new task is in user mode and holds nothing
  have hheld : tally (s.nextTask + 1) s.held (count u) = tally s.nextTask s.held (count u) := by
    rw [tally_succ, hnil, count_nil, Nat.add_zero]
  have hphase (f : Phase → Nat) (hf : f .user = 0) : tally (s.nextTask + 1) (update s.phase t (.clone s.nextTask)) f =
      tally s.nextTask (update s.phase t (.clone s.nextTask)) f := by
    rw [tally_succ, update_of_ne hne, hus, hf, Nat.add_zero]
  have hre := tally_mono (n := n) (g := s.pc) (refs_le u)
  have hre' := tally_mono (n := s.nextTask) (g := s.phase) (Phase.refs_le u)
  have hhi := tally_mono (n := s.nextTask) (g := s.phase) (hides_le u)
  rw [tally_add] at hre hre'
  simp only [Sys.active] at hz
  exact {
    listed := hk.listed
    pending := hk.pending
    count := fun hu ht => by
      have hcn := hk.count hu
      simp only [Sys.setPhase, Sys.refs, update_apply, hheld, hphase (Phase.refs u) rfl] at ht hcn ⊢
      grind
    freed := fun hu ht => by
      have hfr := hk.freed hu
      simp only [Sys.setPhase, update_apply] at ht ⊢
      grind
    linked := fun hu h0 h => by
      have hln := hk.linked hu
      simp only [Sys.setPhase, Sys.active, hphase (Phase.builds u) rfl, hphase (Phase.hides u) rfl] at h0 h hln ⊢
      grind
    hidden := fun h => by
      have hid := hk.hidden
      simp only [Sys.setPhase, hphase (Phase.hides u) rfl, hheld] at h ⊢
      grind
    tid := fun hu ht => by
      have htu := hk.tid hu
      simp only [Sys.setPhase, update_apply] at ht ⊢
      grind
    fresh := fun h => by
      obtain ⟨hl0, hh0, hf⟩ := hk.fresh ((Nat.le_succ _).trans h)
      exact ⟨hl0, hheld.trans hh0, hf⟩
    idle := fun hu => by
      obtain ⟨hr1, ht0, hl0, hh0, hf0⟩ := hk.idle hu
      simp only [Sys.setPhase, update_of_ne (show u ≠ s.nextTask by omega)]
      exact ⟨hr1, ht0, hl0, hheld.trans hh0, hf0⟩ }

/-- `t` is still building `k`, which nothing else knows of. -/
theorem LifeInv.building (h : (s.phase t).hides k = 1) : n ≤ k ∧ k < s.nextTask ∧ s.allTasks.count k = 0 ∧
    tally s.nextTask s.held (count k) = 0 ∧ tally n s.pc (on k) = 0 ∧ s.readyQueue.count k = 0 ∧
      tally n s.pc (active k) = 0 ∧ tally n s.pc (Pc.refs k) = 0 ∧ tally s.nextTask s.phase (builds k) = 1 ∧
        tally s.nextTask s.phase (hides k) = 1 := by
  have honce := (hl.sched.task k).once
  have hhi := le_tally (g := s.phase) (hides k) (hl.sched.run_lt hc hp)
  have hbu := tally_mono (n := s.nextTask) (g := s.phase) (hides_le k)
  have hre := tally_mono (n := n) (g := s.pc) (refs_le k)
  obtain ⟨hl0, hh0, ho0⟩ := (hl.task k).hidden (by omega)
  have hfr := (hl.sched.task k).fresh
  have hid := hl.sched.idle_builds (t := k)
  rw [tally_add] at hre
  simp only [Sys.active] at honce hfr
  refine ⟨?_, ?_, hl0, hh0, ho0, ?_, ?_, ?_, ?_, ?_⟩ <;> omega

theorem LifeInv.cloneFail (hph : s.phase t = .clone k)
    (u : Nat) : LifeOk n ({ s.setRef k 0 with freed := update s.freed k (s.freed k + 1) }.setPhase t .user) u := by
  have hk := hl.task u
  have hq := phases_update (p := .user) (hl.sched.run_lt hc hp) u
  have hre := tally_mono (n := s.nextTask) (g := update s.phase t .user) (Phase.refs_le u)
  rw [tally_add] at hre
  simp only [hph, Phase.builds, Phase.refs, Phase.hides] at hq
  have hbk (e : k = u) := hl.building hc hp (k := u) (by simp [hph, e])
  exact {
    listed := hk.listed
    pending := hk.pending
    count := fun hu ht => by
      have hcn := hk.count hu ht
      simp only [Sys.setPhase, Sys.setRef, setTask, Sys.refs, update_apply] at hcn ⊢
      grind
    -- the reference of `sys_clone` was the only one
    freed := fun hu ht => by
      have hcn := hk.count hu ht
      have hfr := hk.freed hu ht
      simp only [Sys.setPhase, Sys.setRef, setTask, Sys.refs, update_apply] at hcn ⊢
      grind
    linked := fun hu h0 hhi => by
      have hln := hk.linked hu
      simp only [Sys.setPhase, Sys.active, Sys.setRef, setTask] at h0 hhi hln ⊢
      grind
    hidden := fun h => hk.hidden (by
      simp only [Sys.setPhase, Sys.setRef, setTask] at h
      grind)
    tid := fun hu ht => setTask_tid (hk.tid hu ht) rfl
    fresh := fun (h : s.nextTask ≤ u) => by
      have hne : u ≠ k := by grind
      simpa [Sys.setPhase, Sys.setRef, setTask, hne] using hk.fresh h
    idle := fun hu => by
      have hne : u ≠ k := by grind
      simpa [Sys.setPhase, Sys.setRef, setTask, hne] using hk.idle hu }

theorem LifeInv.registerRef {m : Nat → Nat} (hph : s.phase t = .clone k) (u : Nat) :
    LifeOk n ({ s.setRef k ((s.task k).refCount + 1) with numRunning := m }.setPhase t (.register k)) u := by
  have hk := hl.task u
  have hlt := hl.sched.run_lt hc hp
  have hq := phases_update (p := .register k) hlt u
  have hle := le_tally (g := s.phase) (Phase.refs u) hlt
  simp only [hph, Phase.builds, Phase.refs, Phase.hides] at hq hle
  have hbk (e : k = u) := hl.building hc hp (k := u) (by simp [hph, e])
  exact {
    listed := hk.listed
    pending := hk.pending
    count := fun hu ht => by
      have hcn := hk.count hu ht
      simp only [Sys.setPhase, Sys.setRef, setTask, Sys.refs, update_apply] at hcn ⊢
      grind
    freed := fun hu ht => by
      have hcn := hk.count hu ht
      refine (hk.freed hu ht).trans ?_
      simp only [Sys.setPhase, Sys.setRef, setTask, Sys.refs, update_apply] at hcn ⊢
      grind
    linked := fun hu h0 hhi => by
      have hln := hk.linked hu
      simp only [Sys.setPhase, Sys.active, Sys.setRef, setTask] at h0 hhi hln ⊢
      omega
    hidden := fun h => hk.hidden (by
      simp only [Sys.setPhase, Sys.setRef, setTask] at h
      omega)
    tid := fun hu ht => setTask_tid (hk.tid hu ht) rfl
    fresh := hk.fresh
    idle := fun hu => by
      have hne : u ≠ k := by grind
      simpa [Sys.setPhase, Sys.setRef, setTask, hne] using hk.idle hu }

theorem LifeInv.registerLink (hph : s.phase t = .register k)
    (u : Nat) : LifeOk n ({ s with allTasks := insertByTid s.task k s.allTasks }.setPhase t (.enqueue k)) u := by
  have hk := hl.task u
  have hli := count_insertByTid s.task k u s.allTasks
  have hq := phases_update (p := .enqueue k) (hl.sched.run_lt hc hp) u
  simp only [hph, Phase.builds, Phase.refs, Phase.hides] at hq
  have hbk (e : k = u) := hl.building hc hp (k := u) (by simp [hph, e])
  have hnot (hne : k ≠ u) : (insertByTid s.task k s.allTasks).count u = s.allTasks.count u := by simp [hli, hne]
  exact {
    listed := by
      have := hk.listed
      simp only [Sys.setPhase]
      grind
    pending := hk.pending.trans (by simp [Sys.setPhase, hli])
    count := fun hu ht => (hk.count hu ht).trans (by
      simp only [Sys.setPhase, Sys.refs]
      grind)
    freed := hk.freed
    -- `k` is no longer hidden, and it is in `all_tasks` now
    linked := fun hu h0 hhi => by
      have hln := hk.linked hu
      simp only [Sys.setPhase, Sys.active] at h0 hhi hln ⊢
      grind
    hidden := fun h => by
      simp only [Sys.setPhase] at h ⊢
      rw [hnot (by grind)]
      exact hk.hidden (by omega)
    tid := hk.tid
    fresh := fun (h : s.nextTask ≤ u) => by
      simp only [Sys.setPhase, hnot (show k ≠ u by grind)]
      exact hk.fresh h
    idle := fun hu => by
      simp only [Sys.setPhase, hnot (show k ≠ u by grind)]
      exact hk.idle hu }

/-- A call that passes at most a reference on to the ready queue. -/
theorem LifeInv.call {p : Phase} {m : Nat → Nat} {l : List Nat} {u : Nat}
    (hb : p.builds u + l.count u = (s.phase t).builds u + s.readyQueue.count u)
    (hr : p.refs u + l.count u = (s.phase t).refs u + s.readyQueue.count u) (hh : p.hides u = (s.phase t).hides u) :
    LifeOk n ({ s with numRunning := m, readyQueue := l }.setPhase t p) u := by
  have hk := hl.task u
  obtain ⟨hqb, hqr, hqh⟩ := phases_update (p := p) (hl.sched.run_lt hc hp) u
  exact {
    listed := hk.listed
    pending := hk.pending
    count := fun hu ht => (hk.count hu ht).trans (by
      simp only [Sys.setPhase, Sys.refs]
      omega)
    freed := hk.freed
    linked := fun hu h0 hhi => by
      have hln := hk.linked hu
      simp only [Sys.setPhase, Sys.active] at h0 hhi hln ⊢
      omega
    hidden := fun h => hk.hidden (by
      simp only [Sys.setPhase] at h
      omega)
    tid := hk.tid
    fresh := hk.fresh
    idle := hk.idle }

end

theorem LifeInv.setHeld {r : Nat} {l : List Nat} (hl : LifeInv n s) (ht : t < s.nextTask)
    (hx : x ∈ s.allTasks ∨ x ∈ s.held t) (hpc : s'.pc = s.pc) (hall : s'.allTasks = s.allTasks)
    (hrq : s'.readyQueue = s.readyQueue) (hph : s'.phase = s.phase) (hN : s'.nextTask = s.nextTask)
    (hta : s'.task = (s.setRef x r).task) (hhe : s'.held = update s.held t l)
    (hr : r + (s.held t).count x = (s.task x).refCount + l.count x)
    (hne : ∀ u, u ≠ x → l.count u = (s.held t).count u)
    (hf : s'.freed = update s.freed x (s.freed x + if r = 0 then 1 else 0)) (u : Nat) : LifeOk n s' u := by
  have hk := hl.task u
  have hh := tally_update (g := s.held) (count u) ht l
  have hle := le_tally (g := s.held) (count u) ht
  have hsome (e : u = x) : s.allTasks.count u + tally s.nextTask s.held (count u) ≠ 0 := by
    subst e
    rcases hx with hx | hx <;> have := count_pos_iff.mpr hx <;> omega
  have hnot (h0 : s.allTasks.count u = 0) (h1 : tally s.nextTask s.held (count u) = 0) :
      u ≠ x ∧ tally s.nextTask (update s.held t l) (count u) = 0 := by
    have := hne u
    grind
  exact {
    listed := hall ▸ hk.listed
    pending := by rw [hpc, hall]; exact hk.pending
    count := fun hu hlt => by
      have hcn := hk.count hu (hN ▸ hlt)
      simp only [Sys.refs, hta, Sys.setRef, setTask, update_apply, hpc, hall, hrq, hph, hN, hhe] at hcn ⊢
      grind
    freed := fun hu hlt => by
      have hcn := hk.count hu (hN ▸ hlt)
      have hfr := hk.freed hu (hN ▸ hlt)
      simp only [Sys.refs, hta, Sys.setRef, setTask, update_apply, hf] at hcn ⊢
      grind
    linked := fun hu h0 hhi => by
      simp only [Sys.active, hpc, hall, hrq, hph, hN] at h0 hhi ⊢
      exact hk.linked hu h0 hhi
    hidden := fun hhi => by
      rw [hph, hN] at hhi
      obtain ⟨hl0, hh0, ho0⟩ := hk.hidden hhi
      simp only [hpc, hall, hN, hhe]
      exact ⟨hl0, (hnot hl0 hh0).2, ho0⟩
    tid := fun hu hlt => by
      rw [hta]
      exact setTask_tid (hk.tid hu (hN ▸ hlt)) rfl
    fresh := fun hu => by
      rw [hN] at hu
      obtain ⟨hl0, hh0, ho0, hf0, he0⟩ := hk.fresh hu
      have hnt := hnot hl0 hh0
      simp only [hpc, hall, hN, hhe, hf, update_of_ne hnt.1, update_of_ne (show u ≠ t by omega)]
      exact ⟨hl0, hnt.2, ho0, hf0, he0⟩
    idle := fun hu => by
      obtain ⟨hr1, ht0, hl0, hh0, hf0⟩ := hk.idle hu
      have hnt := hnot hl0 hh0
      simp only [hta, Sys.setRef, setTask, hall, hN, hhe, hf, update_of_ne hnt.1]
      exact ⟨hr1, ht0, hl0, hnt.2, hf0⟩ }

/-! ## Runs -/

/-- A dead task is reaped once no CPU is on its kernel stack, and no new task
draws the tid of the idle tasks, which `task_unref` never frees. -/
def reapsLeft (n : Nat) (s : Sys) : Ev → Prop
  | .reap x | .wakeReap _ x => ∀ c < n, (s.pc c).on x = 0
  | .clone .. => s.nextTid ≠ 0
  | _ => True

instance (n : Nat) (s : Sys) : ∀ e, Decidable (reapsLeft n s e)
  | .reap _ | .wakeReap .. => inferInstanceAs (Decidable (∀ c < n, _))
  | .clone .. => inferInstanceAs (Decidable (_ ≠ _))
  | .tau | .wake _ | .link _ | .exit _ | .reparent _ => .isTrue trivial

theorem SameTasks.refl (s : Sys) : SameTasks s s := ⟨rfl, rfl, rfl, rfl, rfl, fun _ => rfl, fun _ => rfl⟩

theorem SameTasks.setTask (t : Nat) (a : Task) (hr : a.refCount = (s.task t).refCount)
    (ht : a.tid = (s.task t).tid) : SameTasks s (s.setTask t a) := by
  refine ⟨rfl, rfl, rfl, rfl, rfl, fun u => ?_, fun u => ?_⟩ <;>
    by_cases e : u = t <;> simp [Sys.setTask, e, hr, ht]

theorem SameTasks.reparent (t : Nat) : SameTasks s (s.reparent t) := by
  refine ⟨rfl, rfl, rfl, rfl, rfl, fun u => ?_, fun u => ?_⟩ <;> simp only [Sys.reparent] <;> split_ifs <;> rfl

theorem SameTasks.enqueueReady (t : Nat) : SameTasks s (s.enqueueReady t) :=
  ⟨rfl, rfl, rfl, rfl, rfl, fun _ => rfl, fun _ => rfl⟩

theorem findDead_spec (h : s.findDead b = some x) : x ∈ s.allTasks ∧ (s.task x).state = .dead := by
  have h1 := find?_some h
  simp only [Bool.and_eq_true, beq_iff_eq] at h1
  exact ⟨mem_of_find?_eq_some h, h1.2⟩

theorem LifeInv.pass {s₁ : Sys} (hl : LifeInv n s) (hc : c < n) (he : SameTasks s s₁) (hpc : s₁.pc = s.pc)
    (h : ∀ u, n ≤ u → q.refs u + s₁.readyQueue.count u = (s.pc c).refs u + s.readyQueue.count u ∧
      (q.active u + s₁.readyQueue.count u + q.on u ≠ 0 → (s.pc c).active u + s.readyQueue.count u + (s.pc c).on u ≠ 0))
    (hq : ∀ u, q.pending u ≤ (s.pc c).pending u) (u : Nat) : LifeOk n (s₁.setPc c q) u := by
  have hpc' : (s₁.setPc c q).pc = update s.pc c q := by rw [setPc, hpc]
  refine hl.move hc hpc' ⟨he.1, he.2, he.3, he.4, he.5, he.6, he.7⟩ (fun u => ?_) h u
  rw [hpc']
  exact pending_setPc hc (hq u) (hl.task u).pending

theorem LifeInv.quiet {s₁ : Sys} (hl : LifeInv n s) (hc : c < n) (he : SameTasks s s₁) (hpc : s₁.pc = s.pc)
    (hr : s₁.readyQueue = s.readyQueue)
    (h : ∀ u, q.refs u = (s.pc c).refs u ∧ (q.active u + q.on u ≠ 0 → (s.pc c).active u + (s.pc c).on u ≠ 0) ∧
      q.pending u ≤ (s.pc c).pending u) :
    ∀ u, LifeOk n (s₁.setPc c q) u := by
  refine hl.pass hc he hpc (fun u _ => ?_) fun u => (h u).2.2
  obtain ⟨h1, h2, -⟩ := h u
  rw [hr]
  omega

theorem LifeInv.visitReap (hl : LifeInv n s) (hc : c < n) (hp : s.pc c = .unblock stk prev (w :: rest))
    (hb : (s.task w).state.blocked = true) (hd : s.findDead b = some x) (hok : wakesSaved n s (.wakeReap w x))
    (hok' : reapsLeft n s (.wakeReap w x)) :
    ∀ u, LifeOk n ((s.unlink w x).setPc c (.wake stk prev w (rest.erase x))) u := by
  obtain ⟨hx, hde⟩ := findDead_spec hd
  have hw : w < s.nextTask := by
    by_contra hge
    rw [((hl.sched.task w).fresh (by omega)).2.2] at hb
    cases hb
  have hne : x ≠ w := by rintro rfl; rw [hde] at hb; cases hb
  have hs1 := hl.sched.visit hc hp (blocked_ne_running hb) (tally_eq_zero hok) (rest.erase x)
  have hcnt : ∀ u, (w :: rest.erase x).count u = (w :: rest).count u - if x = u ∧ x ∈ rest then 1 else 0 := by
    intro u
    by_cases hm : x ∈ rest
    · simp only [count_cons, count_erase, beq_iff_eq, hm, and_true]
      split_ifs <;> omega
    · simp [erase_of_not_mem hm, hm]
  have hl1 : LifeInv n (s.setPc c (.wake stk prev w (rest.erase x))) := by
    refine ⟨hs1, hl.quiet hc (.refl s) rfl rfl fun u => ⟨by simp [hp], by simp [hp], ?_⟩⟩
    simp only [hp, pending, hcnt]
    omega
  refine hl1.unlink (s := s.setPc c (.wake stk prev w (rest.erase x))) hw hx hde (fun d hd => ?_) fun u => ?_
  · by_cases e : d = c
    · have := hok' c hc
      rw [hp] at this
      simpa [setPc, e] using this
    · simpa [setPc, e] using hok' d hd
  · rw [hs1.pending_eq hc (by simp [setPc])]
    have h1 := (hl.task u).pending
    rw [hl.sched.pending_eq hc (by simp [hp])] at h1
    simp only [setPc, update_self, pending, hcnt, count_erase, beq_iff_eq]
    split_ifs at * <;> grind

theorem LifeInv.held_tid (hl : LifeInv n s) (ht : t < s.nextTask) (hx : x ∈ s.held t) : (s.task x).tid ≠ 0 := by
  have hpos := count_pos_iff.mpr hx
  have hle := le_tally (g := s.held) (count x) ht
  refine (hl.task x).tid ?_ ?_ <;> by_contra hlt
  · have := ((hl.task x).idle (by omega)).2.2.2.1
    omega
  · have := ((hl.task x).fresh (by omega)).2.1
    omega

theorem LifeInv.step {e : Ev} (hl : LifeInv n s) (h : Step n s e s') (hok : wakesSaved n s e)
    (hok' : reapsLeft n s e) : LifeInv n s' := by
  refine ⟨hl.sched.step h hok, ?_⟩
  cases h with
  | tick hc hp | visitInterrupted hc hp | visitUnblock hc hp | visitNoTarget hc hp
  | unlockAllTasks hc hp | load hc hp | exitCli hc hp => exact hl.quiet hc (.refl s) rfl rfl (by simp [hp])
  | block _ _ hc hp | enter hc hp | exitDead hc hp =>
    exact hl.quiet hc (.setTask _ _ rfl rfl) rfl rfl (by simp [hp])
  | leave hc hp _ _ => exact hl.leave hc hp
  | save hc hp =>
    rename_i rq
    refine hl.pass hc (.setTask _ _ rfl rfl) rfl (fun u hu => ?_) (by simp)
    cases rq
    · simp [Sys.setTask, hp]
    · simp [Sys.setTask, hp]
      grind
  | @lockAllTasks _ stk prev hc hp hu =>
    refine hl.move hc rfl ⟨rfl, rfl, rfl, rfl, rfl, fun _ => rfl, fun _ => rfl⟩ (fun u => ?_)
      (by simp [setPc, hp])
    have h0 := pending_unlocked hu u
    have := tally_update (g := s.pc) (pending u) hc (.unblock stk prev s.allTasks)
    simp only [hp, pending] at this
    simp only [setPc]
    omega
  | visitOther hc hp | visitStay hc hp | visitStayWaitpid hc hp =>
    exact hl.quiet hc (.refl s) rfl rfl (by simp [hp, count_cons])
  | visitReap hc hp hb _ hd => exact hl.visitReap hc hp hb hd hok hok'
  | wake hc hp => exact hl.wake hc hp
  | enqueue hc hp _ _ =>
    refine hl.pass hc (.enqueueReady _) rfl ?_ (by simp [hp])
    simp [Sys.enqueueReady, hp, count_append, count_singleton]
    grind
  | dequeueIdle hc hp _ _ =>
    refine hl.pass hc (.refl s) rfl ?_ (by simp)
    grind
  | dequeue hc hp hq _ =>
    refine hl.pass hc ⟨rfl, rfl, rfl, rfl, rfl, fun _ => rfl, fun _ => rfl⟩ rfl ?_ (by simp)
    grind
  | loadRequeue hc hp => exact hl.quiet hc (.refl s) rfl rfl (by simp [hp]; grind)
  | requeue hc hp _ _ =>
    refine hl.pass hc (.enqueueReady _) rfl ?_ (by simp)
    simp [Sys.enqueueReady, hp, count_append, count_singleton]
    grind
  | clone flags hc hp ht hph _ => exact hl.clone (a := s.cloneTask _ _ _) hc hp hph rfl hok' _
  | cloneFail hc hp hph => exact hl.cloneFail hc hp hph
  | registerRef hc hp hph => exact hl.registerRef hc hp hph
  | registerLink hc hp hph _ => exact hl.registerLink hc hp hph
  | registerEnqueue hc hp hph _ _ =>
    exact fun u => hl.call hc hp (by simp [hph, count_append, count_singleton, Nat.add_comm])
      (by simp [hph, count_append, count_singleton, Nat.add_comm]) (by simp [hph])
  | @find _ t x _ hc hp _ _ hx =>
    have hmem := mem_of_find?_eq_some hx
    refine hl.setHeld (l := x :: s.held t) (hl.sched.run_lt hc hp) (.inl hmem) rfl rfl rfl rfl rfl rfl rfl
      ?_ ?_ ?_
    · simp only [count_cons_self]; omega
    · intro u hu; rw [count_cons_of_ne hu.symm]
    · simp [hold, Sys.setHeld, Sys.setRef, Sys.setTask]
  | setpgid pgid hc hp _ =>
    refine hl.move hc (update_eq_self _ _).symm (.setTask _ _ rfl rfl) (fun u => (hl.task u).pending) ?_
    simp [Sys.setTask]
  | @unref _ t x hc hp hx hr htid =>
    have hlt := hl.sched.run_lt hc hp
    have hpos := count_pos_iff.mpr hx
    have hne : (s.task x).refCount ≠ 1 := fun h1 => hl.held_tid hlt hx (htid h1)
    refine hl.setHeld (l := (s.held t).erase x) hlt (.inr hx) rfl rfl rfl rfl rfl rfl rfl
      ?_ ?_ ?_
    · rw [count_erase_self]; omega
    · intro u hu; rw [count_erase_of_ne hu]
    · rw [if_neg (by omega)]; simp [Sys.drop, Sys.setHeld, Sys.setRef, Sys.setTask]
  | @unrefFree _ t x hc hp hx hr _ _ =>
    have hpos := count_pos_iff.mpr hx
    refine hl.setHeld (l := (s.held t).erase x) (hl.sched.run_lt hc hp) (.inr hx) rfl rfl rfl rfl rfl rfl rfl
      ?_ ?_ rfl
    · rw [count_erase_self]; omega
    · intro u hu; rw [count_erase_of_ne hu]
  | reap b hc hp _ hu _ hd =>
    obtain ⟨hx, hde⟩ := findDead_spec hd
    refine hl.unlink (hl.sched.run_lt hc hp) hx hde hok' (fun u => ?_)
    rw [pending_unlocked hu]
    exact Nat.zero_le _
  | exit hc hp ht hph _ _ =>
    refine fun u => hl.call hc hp ?_ ?_ ?_ <;> split <;> simp [hph]
  | exitNotify hc hp hph _ _ => exact fun u => hl.call hc hp (by simp [hph]) (by simp [hph]) (by simp [hph])
  | exitReparent hc hp _ => exact hl.quiet hc (.reparent _) rfl rfl (by simp [hp])

theorem LifeInv.boot (n : Nat) : LifeInv n (boot n) := by
  have h0 := boot_pcs n
  have hb := boot_phases n
  have hh : ∀ t, tally (Yagura.boot n).nextTask (Yagura.boot n).held (count t) = 0 :=
    fun t => tally_eq_zero fun _ _ => rfl
  refine ⟨.boot n, fun t => ?_⟩
  have hN : (Yagura.boot n).nextTask = n + 1 := rfl
  have hall : (Yagura.boot n).allTasks.count t = if n = t then 1 else 0 := by simp [Yagura.boot, count_singleton]
  have hq : (Yagura.boot n).readyQueue.count t = if n = t then 1 else 0 := by simp [Yagura.boot, count_singleton]
  have hlt : n ≤ t → t < n + 1 → t = n := by omega
  constructor
  · rw [hall]; split_ifs <;> simp
  · rw [h0 _ rfl]; exact Nat.zero_le _
  · intro h1 h2
    obtain rfl := hlt h1 h2
    rw [Sys.refs, hall, hq, h0 _ rfl, hb _ rfl, hh]
    simp [Yagura.boot, initTask]
  · intro h1 h2
    obtain rfl := hlt h1 h2
    simp [Yagura.boot, initTask]
  · intro h1 h2 _
    rw [Sys.active, h0 _ rfl, h0 _ rfl, hb _ rfl, hq] at h2
    rw [hall]
    split_ifs at h2 ⊢
    · rfl
    · exact absurd rfl h2
  · exact fun h => absurd (hb _ rfl) h
  · intro h1 h2
    obtain rfl := hlt h1 h2
    simp [Yagura.boot, initTask]
  · intro h
    rw [hall, hh, h0 _ rfl, if_neg (by omega)]
    exact ⟨rfl, rfl, rfl, rfl, rfl⟩
  · intro h
    rw [hall, hh, if_neg (by omega)]
    simp [Yagura.boot, idleTask, show t ≠ n by omega]

/-! ## The life of a task -/

/-- References in local variables: of `task_find_by_tid`, of a `waitpid_blocker`,
of `sys_clone`, and of a task on its way into the ready queue. -/
def Sys.temporary (n : Nat) (s : Sys) (t : Nat) : Nat :=
  tally s.nextTask s.held (List.count t) + tally s.nextTask s.phase (Phase.refs t) + tally n s.pc (Pc.inFlight t)

structure Lifetime (n : Nat) (s : Sys) (t : Nat) : Prop where
  refCount : (s.task t).refCount = (if t ∈ s.allTasks then 1 else 0) +
    (if t ∈ s.readyQueue ∨ ∃ c < n, (s.pc c).currentTask = some t then 1 else 0) + s.temporary n t
  freedOnce : s.freed t = if (s.task t).refCount = 0 then 1 else 0
  freedLast : s.freed t ≠ 0 → t ∉ s.allTasks ∧ t ∉ s.readyQueue ∧ ∀ c < n, (s.pc c).on t = 0
  notCurrent : ∀ c < n, s.pc c = .leave t ∨ s.pc c = .run t ∧ t ∈ s.held t → 1 < (s.task t).refCount

theorem SchedInv.current_or_queued (hs : SchedInv n s) (t : Nat) :
    s.readyQueue.count t + tally n s.pc (fun p => if p.currentTask = some t then 1 else 0) =
      if t ∈ s.readyQueue ∨ ∃ c < n, (s.pc c).currentTask = some t then 1 else 0 := by
  have h1 := (hs.task t).once
  have hle := tally_mono (n := n) (g := s.pc) (refs_le t)
  rw [tally_add] at hle
  have hsum := tally_add n s.pc (fun p => if p.currentTask = some t then 1 else 0) (inFlight t)
  have heq : tally n s.pc (refs t) =
      tally n s.pc fun p => (if p.currentTask = some t then 1 else 0) + p.inFlight t :=
    congrArg _ (funext fun p => refs_eq t p)
  simp only [Sys.active] at h1
  split_ifs with h
  · have : s.readyQueue.count t + tally n s.pc (fun p => if p.currentTask = some t then 1 else 0) ≠ 0 := by
      obtain hq | ⟨c, hc, hcur⟩ := h
      · have := count_pos_iff.mpr hq
        omega
      · have := le_tally (g := s.pc) (fun p => if p.currentTask = some t then 1 else 0) hc
        simp only [hcur, if_true] at this
        omega
    omega
  · rw [count_eq_zero.mpr fun hq => h (.inl hq),
      tally_eq_zero fun c hc => if_neg fun hcur => h (.inr ⟨c, hc, hcur⟩)]

theorem LifeInv.lifetime (hl : LifeInv n s) (ht : n ≤ t) (ht' : t < s.nextTask) : Lifetime n s t := by
  have hr := (hl.task t).count ht ht'
  have hli : s.allTasks.count t = if t ∈ s.allTasks then 1 else 0 := by
    have := (hl.task t).listed
    split_ifs with h
    · have := count_pos_iff.mpr h
      omega
    · exact count_eq_zero.mpr h
  have heq : tally n s.pc (Pc.refs t) =
      tally n s.pc (fun p => if p.currentTask = some t then 1 else 0) + tally n s.pc (Pc.inFlight t) := by
    rw [← tally_add]
    exact congrArg _ (funext fun p => Pc.refs_eq t p)
  have hfr := (hl.task t).freed ht ht'
  constructor
  · have := hl.sched.current_or_queued t
    simp only [Sys.refs, Sys.temporary] at hr ⊢
    omega
  · exact hfr
  · intro hf
    have h0 : (s.task t).refCount = 0 := by
      by_contra h
      rw [if_neg h] at hfr
      exact hf hfr
    have hd := tally_mono (n := s.nextTask) (g := s.phase) (hides_le_refs t)
    simp only [Sys.refs] at hr
    refine ⟨count_eq_zero.mp (by omega), count_eq_zero.mp (by omega), fun c hc => ?_⟩
    have hln := (hl.task t).linked ht
    have := le_tally (g := s.pc) (Pc.on t) hc
    omega
  · intro c hc hcur
    simp only [Sys.refs] at hr
    obtain hp | ⟨hp, hhe⟩ := hcur
    · have hln := hl.leave_linked ht hc hp
      have := le_tally (g := s.pc) (Pc.refs t) hc
      simp only [hp, Pc.refs, if_true] at this
      omega
    · have := le_tally (g := s.pc) (Pc.refs t) hc
      have := le_tally (g := s.held) (count t) ht'
      have := count_pos_iff.mpr hhe
      simp only [hp, Pc.refs, if_true] at *
      omega

theorem lifetime_of_reapsLeft (h : Run (Step n) (fun s e => wakesSaved n s e ∧ reapsLeft n s e) (boot n) s) :
    (∀ t < n, (s.task t).refCount = 1 ∧ s.freed t = 0) ∧ ∀ t, n ≤ t → t < s.nextTask → Lifetime n s t := by
  have hl := h.invariant (LifeInv.boot n) fun _ _ _ hl hst hok => hl.step hst hok.1 hok.2
  refine ⟨fun t ht => ?_, fun t => hl.lifetime⟩
  obtain ⟨h1, -, -, -, h5⟩ := (hl.task t).idle ht
  exact ⟨h1, h5⟩

def childDies : List (Nat × Move) :=
  [(0, .go), (0, .go), (0, .go), (0, .go), (0, .go), (0, .go),
   (0, .clone 17), (0, .register), (0, .register), (0, .register),
   (1, .go), (1, .go), (1, .go), (1, .go), (1, .go), (1, .go), (1, .go),
   (1, .exit), (1, .exit), (1, .go), (1, .go), (1, .go)]

def initReaps : List (Nat × Move) := [(0, .reap ⟨-1, 1, 1⟩), (0, .unref 3)]

theorem reaped_once_left : ∃ s, Run (Step 2) (fun s e => wakesSaved 2 s e ∧ reapsLeft 2 s e) (boot 2) s ∧
    s.freed 3 = 1 ∧ Lifetime 2 s 3 := by
  obtain ⟨s, hr, hf, hN⟩ := schedule_reaches 2 (fun s e => wakesSaved 2 s e ∧ reapsLeft 2 s e) (boot 2)
    (childDies ++ [(1, .go), (1, .go), (1, .go), (1, .go), (1, .go), (1, .go), (1, .go), (1, .go)] ++ initReaps)
    (fun s => s.freed 3 = 1 ∧ 3 < s.nextTask) (by decide +kernel)
  exact ⟨s, hr, hf, (lifetime_of_reapsLeft hr).2 3 (by decide) hN⟩

/-- Init may reap the child while CPU 1 still has that reference to drop: it
is the last one, and the `ASSERT(task != current)` fails. -/
theorem reaped_before_left : ∃ s, Run (Step 2) anyStep (boot 2) s ∧
    s.pc 1 = .leave 3 ∧ (s.task 3).refCount = 1 ∧ (s.task 3).tid ≠ 0 ∧ ¬ Lifetime 2 s 3 := by
  obtain ⟨s, hr, hp, h1, ht⟩ := schedule_reaches 2 anyStep (boot 2) (childDies ++ initReaps)
    (fun s => s.pc 1 = .leave 3 ∧ (s.task 3).refCount = 1 ∧ (s.task 3).tid ≠ 0) (by decide +kernel)
  refine ⟨s, hr, hp, h1, ht, fun hl => ?_⟩
  have := hl.notCurrent 1 (by decide) (.inl hp)
  omega

end Yagura
