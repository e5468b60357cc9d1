import Yagura.Errno
import Yagura.Trans

/-!
# The scheduler and the life of a task

`sched.c`, the task list of `task.c` and the clone, exit and wait paths of
`syscall/task.c`, as steps of any number of CPUs. A step is one access to
shared memory or one section under a spinlock; between steps any other CPU
may move. What a CPU does inside `sched_yield` and `switch_context` is its
`Pc`; what a task has begun in a system call and may be preempted in is its
`Phase`. Tasks are named by the order in which their `struct task` was
allocated: task `c` is the idle task of CPU `c`, and with `n` CPUs task `n` is
init.
-/

namespace Yagura

open Function

/-! ## Tasks -/

inductive TaskState
  | running
  | uninterruptible
  | interruptible
  | dead
  deriving DecidableEq, Repr

def TaskState.blocked : TaskState → Bool
  | .uninterruptible | .interruptible => true
  | _ => false

structure WaitpidBlocker where
  paramPid : Int
  currentTgid : Int
  currentPgid : Int
  deriving DecidableEq, Repr

/-- What `task->unblock` and `task->block_data` hold. Of the unblock functions
only `unblock_waitpid` touches the task list. -/
inductive Blocker
  | other
  | waitpid (b : WaitpidBlocker)
  deriving DecidableEq, Repr

structure Task where
  tid : Int
  tgid : Int
  pgid : Int
  ppid : Int
  state : TaskState
  exitSignal : Nat
  threadGroup : Nat
  refCount : Nat
  unblock : Option Blocker
  /-- The registers in `struct task` are those of the last suspension. -/
  saved : Bool
  deriving DecidableEq, Repr

inductive Phase
  | user
  /-- `sys_clone` has filled in `k`, nothing else knows it. -/
  | clone (k : Nat)
  /-- `sched_register(k)` has taken its reference. -/
  | register (k : Nat)
  /-- `k` is linked in `all_tasks` and not yet in the ready queue. -/
  | enqueue (k : Nat)
  /-- `exit` in the last running thread of its group has read `pid` from
  `current->ppid` for `task_send_signal`. -/
  | notify (pid : Int)
  | exiting
  deriving DecidableEq, Repr

/-- Where a CPU stands. `stk` is the task whose kernel stack the CPU is on,
`prev` the `prev_task` of `switch_context`. -/
inductive Pc
  | run (t : Nat)
  /-- `exit` after its `cli()`, children not yet given to init. -/
  | exit (t : Nat)
  /-- `exit` before it publishes `TASK_DEAD`. -/
  | bury (t : Nat)
  /-- `sched_yield(false)` before its `task_unref`. -/
  | leave (t : Nat)
  /-- `sched_yield` before it stores the registers into `task`. -/
  | save (t : Nat) (requeue : Bool)
  /-- `switch_context` before `unblock_tasks`. -/
  | switch (stk prev : Option Nat)
  /-- The loop of `unblock_tasks`, which holds `all_tasks_lock`. -/
  | unblock (stk prev : Option Nat) (rest : List Nat)
  | wake (stk prev : Option Nat) (w : Nat) (rest : List Nat)
  | enqueue (stk prev : Option Nat) (w : Nat) (rest : List Nat)
  | dequeue (stk prev : Option Nat)
  /-- `next` is `cpu->current_task`, the stack is still the old one. -/
  | load (stk prev : Option Nat) (next : Nat)
  | requeue (prev next : Nat)
  | enter (next : Nat)
  deriving DecidableEq, Repr

def Pc.holdsAllTasksLock : Pc → Bool
  | .unblock .. | .wake .. | .enqueue .. => true
  | _ => false

structure Sys where
  task : Nat → Task
  allTasks : List Nat
  readyQueue : List Nat
  pc : Nat → Pc
  phase : Nat → Phase
  /-- References a task holds in local variables or in its `waitpid_blocker`;
  those to a task it is creating are in its `phase`. -/
  held : Nat → List Nat
  numRunning : Nat → Nat
  nextTask : Nat
  nextTid : Int
  freed : Nat → Nat

namespace Sys

def setPc (s : Sys) (c : Nat) (p : Pc) : Sys := { s with pc := update s.pc c p }

def setTask (s : Sys) (t : Nat) (a : Task) : Sys := { s with task := update s.task t a }

def setPhase (s : Sys) (t : Nat) (p : Phase) : Sys := { s with phase := update s.phase t p }

def setHeld (s : Sys) (t : Nat) (l : List Nat) : Sys := { s with held := update s.held t l }

def setRef (s : Sys) (t r : Nat) : Sys := s.setTask t { s.task t with refCount := r }

def hold (s : Sys) (t x : Nat) : Sys := s.setHeld t (x :: s.held t)

def drop (s : Sys) (t x : Nat) : Sys := s.setHeld t ((s.held t).erase x)

def AllTasksUnlocked (n : Nat) (s : Sys) : Prop := ∀ c < n, (s.pc c).holdsAllTasksLock = false

def insertByTid (task : Nat → Task) (k : Nat) : List Nat → List Nat
  | [] => [k]
  | it :: rest => if (task it).tid < (task k).tid then it :: insertByTid task k rest else k :: it :: rest

def isTarget (b : WaitpidBlocker) (it : Task) : Bool :=
  waitTarget b.paramPid b.currentTgid b.currentPgid it.tgid it.pgid it.ppid

/-- `b` can be the blocker of a system call of `t`; `sys_wait4` fills in the
group ids of its caller. -/
def blockerOf (s : Sys) (t : Nat) : Blocker → Prop
  | .other => True
  | .waitpid b => b.currentTgid = (s.task t).tgid

def findDead (s : Sys) (b : WaitpidBlocker) : Option Nat :=
  s.allTasks.find? fun it => isTarget b (s.task it) && (s.task it).state == .dead

def anyTargetExists (s : Sys) (b : WaitpidBlocker) : Bool :=
  s.allTasks.any fun it => isTarget b (s.task it)

/-- `unblock_waitpid` on behalf of `w` takes `x` out of `all_tasks`; the list's
reference becomes one of `w`. -/
def unlink (s : Sys) (w x : Nat) : Sys := { s.hold w x with allTasks := s.allTasks.erase x }

def enqueueReady (s : Sys) (t : Nat) : Sys := { s with readyQueue := s.readyQueue ++ [t] }

def cloneTask (s : Sys) (t : Nat) (thread : Bool) (exitSignal : Nat) : Task :=
  let cur := s.task t
  { tid := s.nextTid
    tgid := if thread then cur.tgid else s.nextTid
    pgid := cur.pgid
    ppid := if thread then cur.ppid else cur.tgid
    state := .running
    exitSignal := if thread then 0 else exitSignal
    threadGroup := if thread then cur.threadGroup else s.nextTask
    refCount := 1
    unblock := none
    saved := true }

/-- `exit` sends `exit_signal`: `t` is the last running thread of its group. -/
def notifiesParent (s : Sys) (t : Nat) : Bool :=
  s.numRunning (s.task t).threadGroup == 1 && (s.task t).ppid != 0 && (s.task t).exitSignal != 0

/-- `task_send_signal` passes its `ASSERT(pid >= 0)` and returns 0. -/
def sendSignalOk (s : Sys) (pid : Int) (signum : Nat) : Prop :=
  0 ≤ pid ∧ signum < NSIG ∧ ∃ u ∈ s.allTasks, (s.task u).tid = pid
  deriving Decidable

def reparent (s : Sys) (t : Nat) : Sys :=
  { s with task := fun u =>
      if u ∈ s.allTasks ∧ (s.task u).ppid = (s.task t).tgid then { s.task u with ppid := 1 } else s.task u }

end Sys

/-! ## Steps -/

def cloneVm (flags : Nat) : Bool := flags.testBit 8

def cloneSighand (flags : Nat) : Bool := flags.testBit 11

def cloneThread (flags : Nat) : Bool := flags.testBit 16

def cloneAccepts (flags : Nat) : Bool :=
  !(cloneSighand flags && !cloneVm flags) && !(cloneThread flags && !cloneSighand flags)

/-- What a step does to tasks other than through the scheduler's own fields. -/
inductive Ev
  | tau
  /-- `unblock_tasks` finds `w` blocked and goes on to wake it. -/
  | wake (w : Nat)
  /-- The same, with `unblock_waitpid` called for `w` and taking `x`. -/
  | wakeReap (w x : Nat)
  | reap (x : Nat)
  | clone (t flags : Nat)
  | link (k : Nat)
  | exit (t : Nat)
  | reparent (t : Nat)
  deriving DecidableEq, Repr

open Sys

/-- One step of CPU `c` of an `n`-CPU machine. An `ASSERT` is a premise: a run
that reaches a state where it fails stops there. -/
inductive Step (n : Nat) : Sys → Ev → Sys → Prop
  /-- `sched_yield(true)`: a timer tick, a contended mutex or the system call. -/
  | tick {s c t} (hc : c < n) : s.pc c = .run t → Step n s .tau (s.setPc c (.save t true))
  /-- `sched_block` up to and including the store to `current->state`. -/
  | block {s c t} (b : Blocker) (st : TaskState) (hc : c < n) : s.pc c = .run t → n ≤ t →
      (s.task t).unblock = none → st.blocked = true → s.blockerOf t b →
      Step n s .tau ((s.setTask t { s.task t with state := st, unblock := some b }).setPc c (.leave t))
  | leave {s c t} (hc : c < n) : s.pc c = .leave t → 0 < (s.task t).refCount →
      ((s.task t).refCount = 1 → (s.task t).tid = 0) →
      Step n s .tau ((s.setRef t ((s.task t).refCount - 1)).setPc c (.save t false))
  | save {s c t rq} (hc : c < n) : s.pc c = .save t rq →
      Step n s .tau ((s.setTask t { s.task t with saved := true }).setPc c
        (.switch (some t) (if rq = true ∧ t ≠ c then some t else none)))
  | lockAllTasks {s c stk prev} (hc : c < n) : s.pc c = .switch stk prev → s.AllTasksUnlocked n →
      Step n s .tau (s.setPc c (.unblock stk prev s.allTasks))
  | visitOther {s c stk prev w rest} (hc : c < n) : s.pc c = .unblock stk prev (w :: rest) →
      (s.task w).state.blocked = false → Step n s .tau (s.setPc c (.unblock stk prev rest))
  | visitStay {s c stk prev w rest} (hc : c < n) : s.pc c = .unblock stk prev (w :: rest) →
      (s.task w).state.blocked = true → (s.task w).unblock = some .other →
      Step n s .tau (s.setPc c (.unblock stk prev rest))
  | visitStayWaitpid {s c stk prev w rest b} (hc : c < n) : s.pc c = .unblock stk prev (w :: rest) →
      (s.task w).state.blocked = true → (s.task w).unblock = some (.waitpid b) →
      s.findDead b = none → s.anyTargetExists b = true → Step n s .tau (s.setPc c (.unblock stk prev rest))
  /-- An unmasked signal is pending. -/
  | visitInterrupted {s c stk prev w rest b} (hc : c < n) : s.pc c = .unblock stk prev (w :: rest) →
      (s.task w).state = .interruptible → (s.task w).unblock = some b →
      Step n s (.wake w) (s.setPc c (.wake stk prev w rest))
  | visitUnblock {s c stk prev w rest} (hc : c < n) : s.pc c = .unblock stk prev (w :: rest) →
      (s.task w).state.blocked = true → (s.task w).unblock = some .other →
      Step n s (.wake w) (s.setPc c (.wake stk prev w rest))
  | visitReap {s c stk prev w rest b x} (hc : c < n) : s.pc c = .unblock stk prev (w :: rest) →
      (s.task w).state.blocked = true → (s.task w).unblock = some (.waitpid b) → s.findDead b = some x →
      Step n s (.wakeReap w x) ((s.unlink w x).setPc c (.wake stk prev w (rest.erase x)))
  | visitNoTarget {s c stk prev w rest b} (hc : c < n) : s.pc c = .unblock stk prev (w :: rest) →
      (s.task w).state.blocked = true → (s.task w).unblock = some (.waitpid b) →
      s.anyTargetExists b = false → Step n s (.wake w) (s.setPc c (.wake stk prev w rest))
  | wake {s c stk prev w rest} (hc : c < n) : s.pc c = .wake stk prev w rest →
      Step n s .tau ((s.setTask w { s.task w with
        unblock := none, state := .running, refCount := (s.task w).refCount + 1 }).setPc c
        (.enqueue stk prev w rest))
  | enqueue {s c stk prev w rest} (hc : c < n) : s.pc c = .enqueue stk prev w rest →
      (s.task w).state = .running → w ∉ s.readyQueue →
      Step n s .tau ((s.enqueueReady w).setPc c (.unblock stk prev rest))
  | unlockAllTasks {s c stk prev} (hc : c < n) : s.pc c = .unblock stk prev [] →
      Step n s .tau (s.setPc c (.dequeue stk prev))
  | dequeueIdle {s c stk prev} (hc : c < n) : s.pc c = .dequeue stk prev → s.readyQueue = [] →
      (s.task c).state = .running → Step n s .tau (s.setPc c (.load stk prev c))
  | dequeue {s c stk prev t q} (hc : c < n) : s.pc c = .dequeue stk prev → s.readyQueue = t :: q →
      (s.task t).state = .running → Step n s .tau ({ s with readyQueue := q }.setPc c (.load stk prev t))
  | loadRequeue {s c stk p t} (hc : c < n) : s.pc c = .load stk (some p) t →
      Step n s .tau (s.setPc c (.requeue p t))
  | load {s c stk t} (hc : c < n) : s.pc c = .load stk none t → Step n s .tau (s.setPc c (.enter t))
  | requeue {s c p t} (hc : c < n) : s.pc c = .requeue p t → (s.task p).state = .running →
      p ∉ s.readyQueue → Step n s .tau ((s.enqueueReady p).setPc c (.enter t))
  | enter {s c t} (hc : c < n) : s.pc c = .enter t →
      Step n s .tau ((s.setTask t { s.task t with saved := false }).setPc c (.run t))
  | clone {s c t} (flags : Nat) (hc : c < n) : s.pc c = .run t → n ≤ t → s.phase t = .user →
      cloneAccepts flags = true →
      Step n s (.clone t flags) ({ s with
        task := update s.task s.nextTask (s.cloneTask t (cloneThread flags) (flags % 256))
        nextTask := s.nextTask + 1, nextTid := afterDraw s.nextTid }.setPhase t (.clone s.nextTask))
  /-- The `fail` path of `sys_clone` frees the `struct task` directly. -/
  | cloneFail {s c t k} (hc : c < n) : s.pc c = .run t → s.phase t = .clone k →
      Step n s .tau ({ s.setRef k 0 with
        freed := update s.freed k (s.freed k + 1) }.setPhase t .user)
  | registerRef {s c t k} (hc : c < n) : s.pc c = .run t → s.phase t = .clone k →
      Step n s .tau ({ s.setRef k ((s.task k).refCount + 1) with
        numRunning := update s.numRunning (s.task k).threadGroup
          (s.numRunning (s.task k).threadGroup + 1) }.setPhase t (.register k))
  | registerLink {s c t k} (hc : c < n) : s.pc c = .run t → s.phase t = .register k → s.AllTasksUnlocked n →
      Step n s (.link k) ({ s with
        allTasks := insertByTid s.task k s.allTasks }.setPhase t (.enqueue k))
  | registerEnqueue {s c t k} (hc : c < n) : s.pc c = .run t → s.phase t = .enqueue k →
      (s.task k).state = .running → k ∉ s.readyQueue →
      Step n s .tau ((s.enqueueReady k).setPhase t .user)
  | find {s c t x} (tid : Int) (hc : c < n) : s.pc c = .run t → n ≤ t → s.AllTasksUnlocked n →
      (s.allTasks.find? fun it => (s.task it).tid == tid) = some x →
      Step n s .tau ((s.setRef x ((s.task x).refCount + 1)).hold t x)
  /-- `target->pgid = pgid` of `sys_setpgid`. -/
  | setpgid {s c t x} (pgid : Int) (hc : c < n) : s.pc c = .run t → x ∈ s.held t →
      Step n s .tau (s.setTask x { s.task x with pgid := pgid })
  /-- `task_unref`; the last one leaks a task whose tid is 0. -/
  | unref {s c t x} (hc : c < n) : s.pc c = .run t → x ∈ s.held t → 0 < (s.task x).refCount →
      ((s.task x).refCount = 1 → (s.task x).tid = 0) →
      Step n s .tau ((s.setRef x ((s.task x).refCount - 1)).drop t x)
  /-- The last `task_unref`, behind its `ASSERT(task != current)`. -/
  | unrefFree {s c t x} (hc : c < n) : s.pc c = .run t → x ∈ s.held t → (s.task x).refCount = 1 →
      (s.task x).tid ≠ 0 → x ≠ t →
      Step n s .tau { (s.setRef x 0).drop t x with freed := update s.freed x (s.freed x + 1) }
  /-- `unblock_waitpid` called by `sys_wait4` or first thing in `sched_block`. -/
  | reap {s c t x} (b : WaitpidBlocker) (hc : c < n) : s.pc c = .run t → n ≤ t → s.AllTasksUnlocked n →
      s.blockerOf t (.waitpid b) → s.findDead b = some x → Step n s (.reap x) (s.unlink t x)
  /-- `exit` up to the notification of the parent. -/
  | exit {s c t} (hc : c < n) : s.pc c = .run t → n ≤ t → s.phase t = .user → (s.task t).tid ≠ 1 →
      0 < s.numRunning (s.task t).threadGroup →
      Step n s (.exit t) ({ s with
        numRunning := update s.numRunning (s.task t).threadGroup
          (s.numRunning (s.task t).threadGroup - 1) }.setPhase t
            (if s.notifiesParent t then .notify (s.task t).ppid else .exiting))
  /-- `ASSERT_OK(task_send_signal(current->ppid, current->exit_signal, 0))`. -/
  | exitNotify {s c t pid} (hc : c < n) : s.pc c = .run t → s.phase t = .notify pid → s.AllTasksUnlocked n →
      s.sendSignalOk pid (s.task t).exitSignal → Step n s .tau (s.setPhase t .exiting)
  | exitCli {s c t} (hc : c < n) : s.pc c = .run t → s.phase t = .exiting →
      Step n s .tau (s.setPc c (.exit t))
  | exitReparent {s c t} (hc : c < n) : s.pc c = .exit t → s.AllTasksUnlocked n →
      Step n s (.reparent t) ((s.reparent t).setPc c (.bury t))
  | exitDead {s c t} (hc : c < n) : s.pc c = .bury t →
      Step n s .tau ((s.setTask t { s.task t with state := .dead }).setPc c (.leave t))

/-! ## Boot -/

def idleTask : Task where
  tid := 0
  tgid := 0
  pgid := 0
  ppid := 0
  state := .running
  exitSignal := 0
  threadGroup := 0
  refCount := 1
  unblock := none
  saved := true

def initTask (n : Nat) : Task :=
  { idleTask with tid := 1, tgid := 1, pgid := 1, threadGroup := n, refCount := 2 }

def boot (n : Nat) : Sys where
  task t := if t = n then initTask n else idleTask
  allTasks := [n]
  readyQueue := [n]
  pc _ := .switch none none
  phase _ := .user
  held _ := []
  numRunning g := if g = n then 1 else 0
  nextTask := n + 1
  nextTid := 2
  freed _ := 0

end Yagura
