import Yagura.SignalPending

/-!
# Signals that stop the kernel

`sys_kill`, the control characters of a terminal and the delivery of signals,
with the statements at which the kernel stops: `task_send_signal` asserts that
its 32-bit id is not negative, `task_pop_signal` has no default action for stop
signals, `task_handle_signal` asserts what the action holds. One step is a
system call, a typed character, or the delivery at the end of a system call or
a timer tick.
-/

namespace Yagura

namespace SignalCrash

open Function List Signals

/-! ## State -/

inductive Panic
  | assertPid | unimplementedStop | assertSignum | assertRestorer
  | initExited | assertNumRunning | assertExitSignal | assertKillGroup
  deriving DecidableEq

/-- The statement is one of `task_send_signal`, `task_pop_signal` or `task_handle_signal`; the others are in `exit`
and `do_exit_thread_group`. -/
def Panic.inSignalCode : Panic → Bool
  | .assertPid | .unimplementedStop | .assertSignum | .assertRestorer => true
  | .initExited | .assertNumRunning | .assertExitSignal | .assertKillGroup => false

structure Task where
  tid : Int32
  tgid : Int32
  pgid : Int32
  ppid : Int32
  exitSignal : Int32
  threadGroup : Nat
  blocked : SigSet
  pending : SigSet
  sighand : Option Nat

/-- The task as the masks and pending signals see it. -/
def Task.sig (k : Task) : SigTask :=
  ⟨k.tgid.toInt.toNat, k.pgid.toInt.toNat, k.blocked, k.pending, k.sighand, none, none⟩

def ISIG : BitVec 32 := 0o1
def ISTRIP : BitVec 32 := 0o40
def VINTR : Nat := 0
def VQUIT : Nat := 1
def VSUSP : Nat := 10

structure Termios where
  cLflag : BitVec 32
  cCc : Nat → BitVec 8

structure Tty where
  pgid : Int32
  termios : Termios

/-- `current` is given by its place in `all_tasks`. -/
structure State where
  allTasks : List Task
  numRunning : Nat → Nat
  numGroups : Nat
  actions : Nat → Nat → SigAction
  numSighands : Nat
  ttys : Nat → Tty

namespace State

def setTask (s : State) (i : Nat) (k : Task) : State := { s with allTasks := s.allTasks.set i k }

def signals (s : State) : Signals := ⟨fun _ => none, s.actions, s.numSighands⟩

/-! ## Sending -/

def doSendSignal (s : State) (task : Task) (signum : Nat) : Task :=
  { task with pending := (s.signals.doSendSignal task.sig signum).pending }

/-- The `continue`s of the loop of `task_send_signal`. -/
def isDest (pid : Int32) (it : Task) : Dest → Bool
  | .task => it.tid == pid
  | .allUserTasks => !decide (it.tid ≤ 1)
  | .threadGroup => it.tgid == pid
  | .processGroup => it.pgid == pid

def taskSendSignal (s : State) (current : Nat) (pid signum : Int32) (dest : Dest) (excludeCurrent : Bool) :
    Except Panic (Except Errno Unit × State) :=
  if pid < 0 then .error .assertPid
  else if signum < 0 ∨ 32 ≤ signum then .ok (.error .EINVAL, s)
  else
    let found := s.allTasks.mapIdx fun i it => isDest pid it dest && !(excludeCurrent && i == current)
    let allTasks := s.allTasks.mapIdx fun i it =>
      if isDest pid it dest && !(excludeCurrent && i == current) && signum != 0 then
        s.doSendSignal it signum.toInt.toNat
      else it
    .ok (if found.any id then .ok () else .error .ESRCH, { s with allTasks := allTasks })

def sysKill (s : State) (current : Nat) (pid sig : Int32) : Except Panic (Except Errno Unit × State) :=
  match s.allTasks[current]? with
  | none => .ok (.ok (), s)
  | some cur =>
    if 0 < pid then s.taskSendSignal current pid sig .task false
    else if pid = 0 then s.taskSendSignal current cur.pgid sig .processGroup false
    else if pid = -1 then s.taskSendSignal current 0 sig .allUserTasks true
    else s.taskSendSignal current (-pid) sig .processGroup false

def onChar (s : State) (current : Nat) (tty : Tty) (ch : BitVec 8) : Except Panic (Except Errno Unit × State) :=
  let termios := tty.termios
  let ch := if termios.cLflag &&& ISTRIP ≠ 0 then ch &&& 0x7f else ch
  if termios.cLflag &&& ISIG ≠ 0 then
    if ch = termios.cCc VINTR then s.taskSendSignal current tty.pgid 2 .processGroup false
    else if ch = termios.cCc VQUIT then s.taskSendSignal current tty.pgid 3 .processGroup false
    else if ch = termios.cCc VSUSP then s.taskSendSignal current tty.pgid 20 .processGroup false
    else .ok (.ok (), s)
  else .ok (.ok (), s)

/-! ## Receiving -/

def exit (s : State) (current : Nat) (cur : Task) : Except Panic State :=
  if cur.tid = 1 then .error .initExited
  else if s.numRunning cur.threadGroup = 0 then .error .assertNumRunning
  else
    let numRunning := s.numRunning cur.threadGroup - 1
    let s := { s with numRunning := update s.numRunning cur.threadGroup numRunning }
    let bury := fun s : State => { s with allTasks := s.allTasks.mapIdx fun i it =>
      { it with
        sighand := if i = current then none else it.sighand
        ppid := if it.ppid = cur.tgid then 1 else it.ppid } }
    if numRunning = 0 ∧ cur.ppid ≠ 0 ∧ cur.exitSignal ≠ 0 then
      match s.taskSendSignal current cur.ppid cur.exitSignal .task false with
      | .error p => .error p
      | .ok (.error _, _) => .error .assertExitSignal
      | .ok (.ok (), s) => .ok (bury s)
    else .ok (bury s)

def doExitThreadGroup (s : State) (current : Nat) (cur : Task) : Except Panic State :=
  match s.taskSendSignal current cur.tgid 9 .threadGroup true with
  | .error p => .error p
  | .ok (.ok (), s) | .ok (.error .ESRCH, s) => s.exit current cur
  | .ok (.error _, _) => .error .assertKillGroup

/-- How the loop of `task_pop_signal` ends, with the signals left pending. -/
inductive Pop
  | nothing (pending : SigSet)
  | handler (signum : Nat) (action : SigAction) (pending : SigSet)
  | exits (pending : SigSet)
  | unimplemented

def Pop.left : Pop → SigSet
  | .nothing pending | .handler _ _ pending | .exits pending => pending
  | .unimplemented => 0

/-- The loop of `task_pop_signal`; each round takes a signal, so that 32 rounds are enough. -/
def popLoop (actions : Nat → SigAction) (blocked : SigSet) : (fuel : Nat) → (pending : SigSet) → Pop
  | 0, pending => .nothing pending
  | fuel + 1, pending =>
    let signum := ffs (pending &&& ~~~blocked)
    if signum = 0 then .nothing pending
    else
      let pending := pending &&& ~~~sigmask signum
      if (actions signum).handler = SIG_IGN then popLoop actions blocked fuel pending
      else if (actions signum).handler ≠ SIG_DFL then .handler signum (actions signum) pending
      else
        match defaultDisposition signum with
        | .DISP_TERM | .DISP_CORE => .exits pending
        | .DISP_IGN | .DISP_CONT => popLoop actions blocked fuel pending
        | .DISP_STOP => .unimplemented

def taskHandleSignal (s : State) (current : Nat) (cur : Task) (signum : Nat) (action : SigAction) (copyFails : Bool) :
    Except Panic State :=
  if ¬ (0 < signum ∧ signum < NSIG) then .error .assertSignum
  else if ¬ action.has SA_RESTORER then .error .assertRestorer
  else if copyFails then s.doExitThreadGroup current cur
  else .ok (s.setTask current { cur with blocked := newBlocked cur.blocked signum action })

def deliver (s : State) (current : Nat) (cur : Task) (h : Nat) (copyFails : Bool) : Except Panic State :=
  match popLoop (s.actions h) cur.blocked 32 cur.pending with
  | .nothing pending => .ok (s.setTask current { cur with pending := pending })
  | .exits pending =>
    let cur := { cur with pending := pending }
    (s.setTask current cur).doExitThreadGroup current cur
  | .unimplemented => .error .unimplementedStop
  | .handler signum action pending =>
    let cur := { cur with pending := pending }
    let s := s.setTask current cur
    let s := if action.has SA_RESETHAND then
        { s with actions := (s.signals.setAction h signum { action with handler := SIG_DFL }).actions }
      else s
    s.taskHandleSignal current cur signum action copyFails

/-! ## Steps -/

/-- `setMask` stands for `sys_sigprocmask`, `sys_sigsuspend` and `sys_sigreturn` with any mask they can leave. -/
inductive Event
  | kill (current : Nat) (pid sig : Int32)
  | tiocspgrp (tty : Nat) (pgid : Int32)
  | tcsets (tty : Nat) (termios : Termios)
  | typed (tty : Nat) (ch : BitVec 8) (current : Nat)
  | sigaction (current : Nat) (signum : Int) (act : Option (Option SigAction)) (oldFails : Bool)
  | setMask (current : Nat) (mask : SigSet)
  | setpgid (current : Nat) (pid pgid : Int32)
  | clone (current : Nat) (tid : Int32) (thread shareSighand : Bool) (exitSignal : Int32)
  | deliver (current : Nat) (copyFails : Bool)

def sysSetpgid (s : State) (cur : Task) (pid pgid : Int32) : State :=
  if pgid < 0 then s
  else
    let targetTgid := if pid ≠ 0 then pid else cur.tgid
    match s.allTasks.findIdx? (·.tid == targetTgid), s.allTasks.find? (·.tid == targetTgid) with
    | some i, some target => s.setTask i { target with pgid := if pgid ≠ 0 then pgid else targetTgid }
    | _, _ => s

/-- `sys_clone`; the order of `all_tasks` does not matter here. -/
def sysClone (s : State) (cur : Task) (h : Nat) (tid : Int32) (thread shareSighand : Bool) (exitSignal : Int32) :
    State :=
  let child : Task :=
    { tid := tid
      tgid := if thread then cur.tgid else tid
      pgid := cur.pgid
      ppid := if thread then cur.ppid else cur.tgid
      exitSignal := if thread then 0 else exitSignal
      threadGroup := if thread then cur.threadGroup else s.numGroups
      blocked := cur.blocked
      pending := 0
      sighand := some (if shareSighand then h else s.numSighands) }
  let signals := if shareSighand then s.signals else s.signals.newSighand (s.actions h)
  { s with
    allTasks := s.allTasks ++ [child]
    numRunning := update s.numRunning child.threadGroup (s.numRunning child.threadGroup + 1)
    numGroups := if thread then s.numGroups else s.numGroups + 1
    actions := signals.actions
    numSighands := signals.numSighands }

/-- The child is the one that `Signals.sysClone` makes, and so are the actions. -/
theorem sysClone_agrees (s : State) (cur : Task) (h : Nat) (tid : Int32) (thread share : Bool) (exitSignal : Int32) :
    let s' := s.sysClone cur h tid thread share exitSignal
    let signals := s.signals.sysClone h tid.toInt.toNat cur.sig thread share
    s'.allTasks.getLast?.map Task.sig = signals.tasks tid.toInt.toNat ∧ s'.actions = signals.actions ∧
      s'.numSighands = signals.numSighands := by
  cases thread <;> cases share <;>
    simp [sysClone, Signals.sysClone, Task.sig, Signals.setTask, newSighand, State.signals]

def byTask (s : State) (current : Nat) (f : Task → Nat → Except Panic State) : Except Panic State :=
  match s.allTasks[current]? with
  | none => .ok s
  | some cur =>
    match cur.sighand with
    | none => .ok s
    | some h => f cur h

def exec (s : State) : Event → Except Panic State
  | .kill current pid sig => (s.sysKill current pid sig).map Prod.snd
  | .tiocspgrp tty pgid => .ok { s with ttys := update s.ttys tty { s.ttys tty with pgid := pgid } }
  | .tcsets tty termios => .ok { s with ttys := update s.ttys tty { s.ttys tty with termios := termios } }
  | .typed tty ch current => (s.onChar current (s.ttys tty) ch).map Prod.snd
  | .sigaction current signum act oldFails => s.byTask current fun _ h =>
      .ok { s with actions := (s.signals.sysSigaction h signum act oldFails).2.actions }
  | .setMask current mask => s.byTask current fun cur _ => .ok (s.setTask current { cur with blocked := mask })
  | .setpgid current pid pgid => s.byTask current fun cur _ => .ok (s.sysSetpgid cur pid pgid)
  | .clone current tid thread share exitSignal => s.byTask current fun cur h =>
      .ok (s.sysClone cur h tid thread share exitSignal)
  | .deliver current copyFails => s.byTask current fun cur h => s.deliver current cur h copyFails

def Step (s : State) (e : Event) (s' : State) : Prop := s.exec e = .ok s'

def Crashes (s : State) (e : Event) : Prop := ∃ p, s.exec e = .error p ∧ p.inSignalCode = true

/-! ## When the kernel stops -/

def passedOver (actions : Nat → SigAction) (sig : Nat) : Prop :=
  (actions sig).handler = SIG_IGN ∨ (actions sig).handler = SIG_DFL ∧
    (defaultDisposition sig = .DISP_IGN ∨ defaultDisposition sig = .DISP_CONT)

def ActsOn (actions : Nat → SigAction) (blocked pending : SigSet) (sig : Nat) : Prop :=
  member (pending &&& ~~~blocked) sig = true ∧ ¬ passedOver actions sig ∧
    ∀ lower < sig, member (pending &&& ~~~blocked) lower = true → passedOver actions lower

/-- The ids that `do_exit_thread_group` and `exit` hand to `task_send_signal` are not both good. -/
def DiesBadly (s : State) (cur : Task) : Prop :=
  cur.tgid < 0 ∨ cur.tid ≠ 1 ∧ s.numRunning cur.threadGroup = 1 ∧ cur.ppid < 0 ∧ cur.exitSignal ≠ 0

def IsSignalChar (termios : Termios) (ch : BitVec 8) : Prop :=
  termios.cLflag &&& ISIG ≠ 0 ∧
    ((if termios.cLflag &&& ISTRIP ≠ 0 then ch &&& 0x7f else ch) = termios.cCc VINTR ∨
      (if termios.cLflag &&& ISTRIP ≠ 0 then ch &&& 0x7f else ch) = termios.cCc VQUIT ∨
      (if termios.cLflag &&& ISTRIP ≠ 0 then ch &&& 0x7f else ch) = termios.cCc VSUSP)

/-- A negative id, a stop signal without a handler, or the death of a task with a negative id. -/
def Bad (s : State) : Event → Prop
  | .kill current pid _ => ∃ cur, s.allTasks[current]? = some cur ∧ (pid = 0 ∧ cur.pgid < 0 ∨ pid = Int32.minValue)
  | .typed tty ch _ => IsSignalChar (s.ttys tty).termios ch ∧ (s.ttys tty).pgid < 0
  | .deliver current copyFails =>
    ∃ cur h sig, s.allTasks[current]? = some cur ∧ cur.sighand = some h ∧
      ActsOn (s.actions h) cur.blocked cur.pending sig ∧
      if (s.actions h sig).handler = SIG_DFL then defaultDisposition sig = .DISP_STOP ∨ s.DiesBadly cur
      else copyFails = true ∧ s.DiesBadly cur
  | _ => False

/-! ## What every state keeps -/

def Valid (w : SigSet) : Prop := ∀ sig, member w sig = true → sig < NSIG

theorem valid_zero : Valid 0 := by
  intro sig hm
  simp [member] at hm

def Restored (a : SigAction) : Prop := a.handler ≠ SIG_DFL → a.handler ≠ SIG_IGN → a.has SA_RESTORER = true

structure Inv (s : State) : Prop where
  restorer : ∀ h sig, Restored (s.actions h sig)
  valid : ∀ k ∈ s.allTasks, Valid k.pending

section
variable {s s' : State} {current h sig : Nat} {cur k : Task} {pid signum : Int32} {dest : Dest} {excl copyFails : Bool}

structure Sent (s s' : State) : Prop where
  numRunning : s'.numRunning = s.numRunning
  actions : s'.actions = s.actions
  valid : (∀ k ∈ s.allTasks, Valid k.pending) → ∀ k ∈ s'.allTasks, Valid k.pending

theorem doSendSignal_valid (hk : Valid k.pending) (h0 : 0 < sig) (hlt : sig < NSIG) :
    Valid (s.doSendSignal k sig).pending := by
  unfold State.doSendSignal Signals.doSendSignal
  split
  · exact hk
  have hke : Valid (k.pending &&& ~~~clearedSignals sig) := by
    intro sig' hm
    rw [member_diff, Bool.and_eq_true] at hm
    exact hk sig' hm.1
  split
  · exact hke
  · intro sig' hm
    rw [member_or, Bool.or_eq_true, member_sigmask h0 hlt.le, decide_eq_true_eq] at hm
    rcases hm with hm | rfl
    · exact hke sig' hm
    · exact hlt

theorem taskSendSignal_neg (h : pid < 0) : s.taskSendSignal current pid signum dest excl = .error .assertPid := if_pos h

theorem signum_range (h : ¬ (signum < 0 ∨ 32 ≤ signum)) (h0 : signum ≠ 0) :
    0 < signum.toInt.toNat ∧ signum.toInt.toNat < NSIG := by
  rw [not_or, Int32.lt_iff_toInt_lt, Int32.le_iff_toInt_le] at h
  rw [Ne, ← Int32.toInt_inj] at h0
  have h32 : Int32.toInt 32 = 32 := rfl
  have hz : Int32.toInt 0 = 0 := rfl
  unfold NSIG
  omega

theorem taskSendSignal_ok (s : State) (current : Nat) (signum : Int32) (dest : Dest) (excl : Bool) (h : ¬ pid < 0) :
    ∃ rc s', s.taskSendSignal current pid signum dest excl = .ok (rc, s') ∧ Sent s s' ∧
      (¬ (signum < 0 ∨ 32 ≤ signum) → rc = .ok () ∨ rc = .error .ESRCH) := by
  unfold taskSendSignal
  rw [if_neg h]
  by_cases hr : signum < 0 ∨ 32 ≤ signum
  · rw [if_pos hr]
    exact ⟨_, _, rfl, ⟨rfl, rfl, id⟩, fun hn => absurd hr hn⟩
  · rw [if_neg hr]
    refine ⟨_, _, rfl, ⟨rfl, rfl, ?_⟩, fun _ => ?_⟩
    · intro hv k hk
      obtain ⟨i, hi, rfl⟩ := mem_mapIdx.mp hk
      split
      · rename_i hse
        simp only [Bool.and_eq_true, bne_iff_ne] at hse
        obtain ⟨h0, hlt⟩ := signum_range hr hse.2
        exact doSendSignal_valid (hv _ (getElem_mem hi)) h0 hlt
      · exact hv _ (getElem_mem hi)
    · split
      · exact .inl rfl
      · exact .inr rfl

theorem exit_crash_iff : (∃ p, s.exit current cur = .error p ∧ p.inSignalCode = true) ↔
      cur.tid ≠ 1 ∧ s.numRunning cur.threadGroup = 1 ∧ cur.ppid < 0 ∧ cur.exitSignal ≠ 0 := by
  unfold exit
  by_cases htid : cur.tid = 1
  · simp [htid, Panic.inSignalCode]
  rw [if_neg htid]
  by_cases hnum : s.numRunning cur.threadGroup = 0
  · simp [hnum, Panic.inSignalCode]
  rw [if_neg hnum]
  dsimp only
  split
  · rename_i hla
    by_cases hneg : cur.ppid < 0
    · rw [taskSendSignal_neg hneg]
      simp only [Except.error.injEq, exists_eq_left', Panic.inSignalCode, true_iff]
      exact ⟨htid, by omega, hneg, hla.2.2⟩
    · obtain ⟨rc, s', hse, -, -⟩ := taskSendSignal_ok
        { s with numRunning := update s.numRunning cur.threadGroup (s.numRunning cur.threadGroup - 1) }
        current cur.exitSignal .task false hneg
      rw [hse]
      refine iff_of_false ?_ fun hc => hneg hc.2.2.1
      cases rc with
      | error e => simp [Panic.inSignalCode]
      | ok u => simp
  · rename_i hla
    refine iff_of_false (by simp) ?_
    rintro ⟨-, hone, hneg, hsig⟩
    refine hla ⟨by omega, ?_, hsig⟩
    rintro hz
    rw [hz] at hneg
    exact absurd hneg (by decide)

theorem exitGroup_crash_iff :
    (∃ p, s.doExitThreadGroup current cur = .error p ∧ p.inSignalCode = true) ↔ s.DiesBadly cur := by
  unfold doExitThreadGroup DiesBadly
  by_cases hneg : cur.tgid < 0
  · rw [taskSendSignal_neg hneg]
    simp [hneg, Panic.inSignalCode]
  · obtain ⟨rc, s', hse, hsn, hrc⟩ := taskSendSignal_ok s current 9 .threadGroup true hneg
    have hex : (∃ p, s'.exit current cur = .error p ∧ p.inSignalCode = true) ↔
        cur.tgid < 0 ∨ cur.tid ≠ 1 ∧ s.numRunning cur.threadGroup = 1 ∧ cur.ppid < 0 ∧ cur.exitSignal ≠ 0 := by
      rw [exit_crash_iff, hsn.numRunning, or_iff_right hneg]
    rw [hse]
    rcases hrc (by decide) with rfl | rfl
    · exact hex
    · exact hex

/-! ## The loop of `task_pop_signal` -/

def PopSpec (actions : Nat → SigAction) (blocked pending : SigSet) : Pop → Prop
  | .nothing _ => ∀ sig, ¬ ActsOn actions blocked pending sig
  | .handler sig action _ => ActsOn actions blocked pending sig ∧ action = actions sig ∧
      action.handler ≠ SIG_DFL ∧ action.handler ≠ SIG_IGN
  | .exits _ => ∃ sig, ActsOn actions blocked pending sig ∧ (actions sig).handler = SIG_DFL ∧
      defaultDisposition sig ≠ .DISP_STOP
  | .unimplemented => ∃ sig, ActsOn actions blocked pending sig ∧ (actions sig).handler = SIG_DFL ∧
      defaultDisposition sig = .DISP_STOP

variable {actions : Nat → SigAction} {blocked pending : SigSet}

theorem ActsOn.unique {sig' : Nat} (h : ActsOn actions blocked pending sig) (h' : ActsOn actions blocked pending sig') :
    sig = sig' := by
  rcases lt_trichotomy sig sig' with hlt | heq | hgt
  · exact absurd (h'.2.2 sig hlt h.1) h.2.1
  · exact heq
  · exact absurd (h.2.2 sig' hgt h'.1) h'.2.1

theorem actsOn_pass (hne : ffs (pending &&& ~~~blocked) ≠ 0)
    (hpa : passedOver actions (ffs (pending &&& ~~~blocked))) (sig : Nat) :
    ActsOn actions blocked (pending &&& ~~~sigmask (ffs (pending &&& ~~~blocked))) sig ↔
      ActsOn actions blocked pending sig := by
  have hmem (sig : Nat) : member (pending &&& ~~~sigmask (ffs (pending &&& ~~~blocked)) &&& ~~~blocked) sig =
      (member (pending &&& ~~~blocked) sig && !decide (sig = ffs (pending &&& ~~~blocked))) := by
    rw [member_diff, member_diff, member_diff,
      member_sigmask (Nat.pos_of_ne_zero hne) (ffs_spec hne).2.1, Bool.and_right_comm]
  unfold ActsOn
  simp only [hmem, Bool.and_eq_true, Bool.not_eq_true', decide_eq_false_iff_not]
  constructor
  · rintro ⟨⟨hm, -⟩, hact, hlow⟩
    refine ⟨hm, hact, fun lower hlt hl => ?_⟩
    by_cases heq : lower = ffs (pending &&& ~~~blocked)
    · rw [heq]
      exact hpa
    · exact hlow lower hlt ⟨hl, heq⟩
  · rintro ⟨hm, hact, hlow⟩
    refine ⟨⟨hm, ?_⟩, hact, fun lower hlt hl => hlow lower hlt hl.1⟩
    rintro rfl
    exact hact hpa

theorem actsOn_ffs (hne : ffs (pending &&& ~~~blocked) ≠ 0)
    (hact : ¬ passedOver actions (ffs (pending &&& ~~~blocked))) :
    ActsOn actions blocked pending (ffs (pending &&& ~~~blocked)) := by
  obtain ⟨hmem, -, hlow⟩ := ffs_spec hne
  refine ⟨hmem, hact, fun lower hlt hm => ?_⟩
  rw [hlow lower hlt] at hm
  cases hm

theorem PopSpec.of_pass {pop : Pop} (hne : ffs (pending &&& ~~~blocked) ≠ 0)
    (hpa : passedOver actions (ffs (pending &&& ~~~blocked)))
    (h : PopSpec actions blocked (pending &&& ~~~sigmask (ffs (pending &&& ~~~blocked))) pop) :
    PopSpec actions blocked pending pop := by
  cases pop <;> simpa only [PopSpec, actsOn_pass hne hpa] using h

theorem popLoop_spec (actions : Nat → SigAction) (blocked pending : SigSet) (fuel : Nat)
    (hfu : ∀ sig, member (pending &&& ~~~blocked) sig = true → NSIG < sig + fuel) :
    PopSpec actions blocked pending (popLoop actions blocked fuel pending) := by
  induction fuel generalizing pending with
  | zero =>
    intro sig hact
    have hlt := hfu sig hact.1
    have hle : sig ≤ NSIG := by
      by_contra hgt
      have hbit := hact.1
      unfold member at hbit
      rw [BitVec.getLsbD_of_ge _ _ (by unfold NSIG at hgt; omega), Bool.and_false] at hbit
      cases hbit
    omega
  | succ fuel ih =>
    unfold popLoop
    dsimp only
    split
    · rename_i h0
      intro sig hact
      exact Bool.noConfusion ((ffs_zero h0 sig).symm.trans hact.1)
    rename_i hne
    have hre : ∀ sig, member (pending &&& ~~~sigmask (ffs (pending &&& ~~~blocked)) &&& ~~~blocked) sig = true →
        NSIG < sig + fuel := by
      intro sig hm
      rw [member_diff, member_diff, Bool.and_right_comm, ← member_diff, Bool.and_eq_true, Bool.not_eq_true',
        member_sigmask (Nat.pos_of_ne_zero hne) (ffs_spec hne).2.1, decide_eq_false_iff_not] at hm
      have hlow : ffs (pending &&& ~~~blocked) < sig := by
        rcases lt_or_ge (ffs (pending &&& ~~~blocked)) sig with hlt | hge
        · exact hlt
        · rw [(ffs_spec hne).2.2 sig (lt_of_le_of_ne hge hm.2)] at hm
          exact Bool.noConfusion hm.1
      have hlt := hfu _ (ffs_spec hne).1
      omega
    split
    · rename_i hign
      exact (ih _ hre).of_pass hne (.inl hign)
    rename_i hign
    split
    · rename_i hdfl
      refine ⟨actsOn_ffs hne ?_, rfl, hdfl, hign⟩
      rintro (hc | ⟨hc, -⟩)
      · exact hign hc
      · exact hdfl hc
    rename_i hdfl
    rw [not_not] at hdfl
    have hac (hd : defaultDisposition (ffs (pending &&& ~~~blocked)) ≠ .DISP_IGN)
        (hd' : defaultDisposition (ffs (pending &&& ~~~blocked)) ≠ .DISP_CONT) :
        ActsOn actions blocked pending (ffs (pending &&& ~~~blocked)) := by
      refine actsOn_ffs hne ?_
      rintro (hc | ⟨-, hc | hc⟩)
      · exact hign hc
      · exact hd hc
      · exact hd' hc
    cases hd : defaultDisposition (ffs (pending &&& ~~~blocked)) with
    | DISP_TERM | DISP_CORE => exact ⟨_, hac (by rw [hd]; nofun) (by rw [hd]; nofun), hdfl, by rw [hd]; nofun⟩
    | DISP_IGN => exact (ih _ hre).of_pass hne (.inr ⟨hdfl, .inl hd⟩)
    | DISP_CONT => exact (ih _ hre).of_pass hne (.inr ⟨hdfl, .inr hd⟩)
    | DISP_STOP => exact ⟨_, hac (by rw [hd]; nofun) (by rw [hd]; nofun), hdfl, hd⟩

/-! ## Every call -/

theorem map_crash_iff {α β : Type} {x : Except Panic α} {f : α → β} :
    (∃ p, x.map f = .error p ∧ p.inSignalCode = true) ↔ ∃ p, x = .error p ∧ p.inSignalCode = true := by
  cases x with
  | error p => simp only [Except.map, Except.error.injEq]
  | ok a => exact iff_of_false nofun nofun

theorem send_crash_iff :
    (∃ p, s.taskSendSignal current pid signum dest excl = .error p ∧ p.inSignalCode = true) ↔ pid < 0 := by
  by_cases h : pid < 0
  · rw [taskSendSignal_neg h]
    exact iff_of_true ⟨_, rfl, rfl⟩ h
  · obtain ⟨rc, s', hse, -⟩ := taskSendSignal_ok s current signum dest excl h
    rw [hse]
    exact iff_of_false nofun h

theorem neg_neg_iff (h : ¬ 0 < pid) : -pid < 0 ↔ pid = Int32.minValue := by
  have hlo := pid.le_toInt
  rw [Int32.lt_iff_toInt_lt] at h
  rw [Int32.lt_iff_toInt_lt, ← Int32.toInt_inj, Int32.toInt_neg, Int32.toInt_minValue]
  have hz : Int32.toInt 0 = 0 := rfl
  by_cases hmin : pid.toInt = -2 ^ 31
  · rw [hmin]
    decide
  · rw [Int.bmod_eq_of_le (by omega) (by omega)]
    omega

theorem kill_crash_iff : s.Crashes (.kill current pid signum) ↔ s.Bad (.kill current pid signum) := by
  unfold Crashes exec
  rw [map_crash_iff]
  unfold sysKill
  cases hcur : s.allTasks[current]? with
  | none =>
    refine iff_of_false nofun ?_
    rintro ⟨cur, hc, -⟩
    rw [hcur] at hc
    cases hc
  | some cur =>
    have hbad : s.Bad (.kill current pid signum) ↔ pid = 0 ∧ cur.pgid < 0 ∨ pid = Int32.minValue := by
      unfold Bad
      dsimp only
      rw [hcur]
      simp only [Option.some.injEq, exists_eq_left']
    have hmin : ¬ 0 < Int32.minValue ∧ Int32.minValue ≠ 0 ∧ Int32.minValue ≠ -1 := by decide
    rw [hbad]
    split_ifs with hpos hze hall
    · rw [send_crash_iff]
      refine iff_of_false (fun hneg => ?_) ?_
      · rw [Int32.lt_iff_toInt_lt] at hpos hneg
        omega
      · rintro (⟨rfl, -⟩ | rfl)
        · exact absurd hpos (by decide)
        · exact hmin.1 hpos
    · rw [send_crash_iff]
      subst hze
      exact ⟨fun h => .inl ⟨rfl, h⟩, fun h => h.elim And.right fun h0 => absurd h0.symm hmin.2.1⟩
    · rw [send_crash_iff]
      subst hall
      exact iff_of_false (by decide) fun h => h.elim (fun h0 => absurd h0.1 (by decide)) fun h1 => hmin.2.2 h1.symm
    · rw [send_crash_iff, neg_neg_iff hpos, or_iff_right fun h => hze h.1]

theorem typed_crash_iff {tty : Nat} {ch : BitVec 8} :
    s.Crashes (.typed tty ch current) ↔ s.Bad (.typed tty ch current) := by
  unfold Crashes exec Bad
  rw [map_crash_iff]
  unfold onChar IsSignalChar
  dsimp only
  generalize (if (s.ttys tty).termios.cLflag &&& ISTRIP ≠ 0 then ch &&& 0x7f else ch) = c
  split_ifs with his h1 h2 h3
  · rw [send_crash_iff]
    exact ⟨fun h => ⟨⟨his, .inl h1⟩, h⟩, And.right⟩
  · rw [send_crash_iff]
    exact ⟨fun h => ⟨⟨his, .inr (.inl h2)⟩, h⟩, And.right⟩
  · rw [send_crash_iff]
    exact ⟨fun h => ⟨⟨his, .inr (.inr h3)⟩, h⟩, And.right⟩
  · exact iff_of_false nofun fun h => h.1.2.elim h1 fun h' => h'.elim h2 h3
  · exact iff_of_false nofun fun h => his h.1.1

theorem handle_crash_iff {action : SigAction} (h0 : 0 < sig) (hlt : sig < NSIG)
    (hres : action.has SA_RESTORER = true) :
    (∃ p, s.taskHandleSignal current cur sig action copyFails = .error p ∧ p.inSignalCode = true) ↔
      copyFails = true ∧ s.DiesBadly cur := by
  unfold taskHandleSignal
  rw [if_neg (not_not_intro ⟨h0, hlt⟩), if_neg (not_not_intro hres)]
  cases copyFails with
  | true =>
    rw [if_pos rfl, exitGroup_crash_iff]
    exact (and_iff_right rfl).symm
  | false => exact iff_of_false nofun nofun

theorem deliver_crash_iff (hs : s.Inv) (hcur : s.allTasks[current]? = some cur) :
    (∃ p, s.deliver current cur h copyFails = .error p ∧ p.inSignalCode = true) ↔
      ∃ sig, ActsOn (s.actions h) cur.blocked cur.pending sig ∧
        if (s.actions h sig).handler = SIG_DFL then defaultDisposition sig = .DISP_STOP ∨ s.DiesBadly cur
        else copyFails = true ∧ s.DiesBadly cur := by
  have hsp := popLoop_spec (s.actions h) cur.blocked cur.pending 32 fun sig hm => by
    unfold member at hm
    rw [Bool.and_eq_true, decide_eq_true_eq] at hm
    unfold NSIG
    omega
  -- The signal that ends the loop is the only one the right side can speak of.
  have hon {sig : Nat} {P : Nat → Prop} (hact : ActsOn (s.actions h) cur.blocked cur.pending sig) :
      (∃ sig, ActsOn (s.actions h) cur.blocked cur.pending sig ∧ P sig) ↔ P sig :=
    ⟨fun ⟨_, hact', hp⟩ => hact.unique hact' ▸ hp, fun hp => ⟨sig, hact, hp⟩⟩
  unfold deliver
  cases hpop : popLoop (s.actions h) cur.blocked 32 cur.pending with
  | nothing pending =>
    rw [hpop] at hsp
    exact iff_of_false nofun fun ⟨sig, hact, _⟩ => hsp sig hact
  | handler sig action pending =>
    rw [hpop] at hsp
    obtain ⟨hact, rfl, hdfl, hign⟩ := hsp
    have hmem := hact.1
    rw [member_diff, Bool.and_eq_true] at hmem
    have hlt := hs.valid cur (mem_of_getElem? hcur) sig hmem.1
    have h0 : 0 < sig := by
      have hbit := hmem.1
      unfold member at hbit
      rw [Bool.and_eq_true, decide_eq_true_eq] at hbit
      exact hbit.1
    rw [hon hact, if_neg hdfl]
    rw [handle_crash_iff h0 hlt (hs.restorer h sig hdfl hign)]
    split <;> exact Iff.rfl
  | exits pending =>
    rw [hpop] at hsp
    obtain ⟨sig, hact, hdfl, hst⟩ := hsp
    rw [hon hact, if_pos hdfl, exitGroup_crash_iff, or_iff_right hst]
    exact Iff.rfl
  | unimplemented =>
    rw [hpop] at hsp
    obtain ⟨sig, hact, hdfl, hst⟩ := hsp
    rw [hon hact, if_pos hdfl]
    exact iff_of_true ⟨_, rfl, rfl⟩ (.inl hst)

theorem crashes_iff_bad (hs : s.Inv) (e : Event) : s.Crashes e ↔ s.Bad e := by
  -- Calls that return whatever they find.
  have hqu (current : Nat) (f : Task → Nat → State) :
      ¬ ∃ p, s.byTask current (fun cur h => .ok (f cur h)) = .error p ∧ p.inSignalCode = true := by
    rintro ⟨p, hp, -⟩
    unfold byTask at hp
    split at hp
    · cases hp
    · split at hp <;> cases hp
  cases e with
  | kill current pid sig => exact kill_crash_iff
  | tiocspgrp | tcsets => exact iff_of_false nofun nofun
  | typed tty ch current => exact typed_crash_iff
  | sigaction current | setMask current | setpgid current | clone current =>
    exact iff_of_false (hqu current _) nofun
  | deliver current copyFails =>
    unfold Crashes exec byTask
    dsimp only
    cases hcur : s.allTasks[current]? with
    | none =>
      refine iff_of_false nofun ?_
      rintro ⟨cur, h, sig, hc, -⟩
      rw [hcur] at hc
      cases hc
    | some cur =>
      dsimp only
      cases hh : cur.sighand with
      | none =>
        refine iff_of_false nofun ?_
        rintro ⟨_, h, sig, hc, hh', -⟩
        cases hcur.symm.trans hc
        rw [hh] at hh'
        cases hh'
      | some h =>
        rw [deliver_crash_iff hs hcur]
        constructor
        · rintro ⟨sig, hact⟩
          exact ⟨cur, h, sig, hcur, hh, hact⟩
        · rintro ⟨_, _, sig, hc, hh', hact⟩
          cases hcur.symm.trans hc
          cases hh.symm.trans hh'
          exact ⟨sig, hact⟩

/-! ## What every step keeps -/

theorem Inv.setTask (hs : s.Inv) (current : Nat) (hk : Valid k.pending) : (s.setTask current k).Inv where
  restorer := hs.restorer
  valid := by
    intro j hj
    rcases mem_or_eq_of_mem_set hj with hold | rfl
    · exact hs.valid j hold
    · exact hk

theorem Sent.inv (hs : s.Inv) (h : Sent s s') : s'.Inv where
  restorer := by
    rw [h.actions]
    exact hs.restorer
  valid := h.valid hs.valid

theorem Inv.send (hs : s.Inv) {rc : Except Errno Unit}
    (h : s.taskSendSignal current pid signum dest excl = .ok (rc, s')) : s'.Inv := by
  by_cases hneg : pid < 0
  · rw [taskSendSignal_neg hneg] at h
    cases h
  · obtain ⟨rc', s'', hse, hsn, -⟩ := taskSendSignal_ok s current signum dest excl hneg
    cases h.symm.trans hse
    exact hsn.inv hs

theorem Inv.map_send (hs : s.Inv) (h : (s.taskSendSignal current pid signum dest excl).map Prod.snd = .ok s') :
    s'.Inv := by
  cases hse : s.taskSendSignal current pid signum dest excl with
  | error p =>
    rw [hse] at h
    cases h
  | ok r =>
    rw [hse] at h
    cases h
    exact hs.send hse

theorem Inv.mapIdx (hs : s.Inv) {f : Nat → Task → Task} (hf : ∀ i it, (f i it).pending = it.pending) :
    State.Inv { s with allTasks := s.allTasks.mapIdx f } where
  restorer := hs.restorer
  valid := by
    intro k hk
    obtain ⟨i, hi, rfl⟩ := mem_mapIdx.mp hk
    rw [hf]
    exact hs.valid _ (getElem_mem hi)

theorem Inv.exit (hs : s.Inv) (h : s.exit current cur = .ok s') : s'.Inv := by
  have hle (g : Nat → Nat) : State.Inv { s with numRunning := g } := ⟨hs.restorer, hs.valid⟩
  unfold State.exit at h
  split at h
  · cases h
  split at h
  · cases h
  dsimp only at h
  split at h
  · split at h
    · cases h
    · cases h
    · rename_i hse
      cases h
      refine ((hle _).send hse).mapIdx ?_
      exact fun _ _ => rfl
  · cases h
    refine (hle (update s.numRunning cur.threadGroup (s.numRunning cur.threadGroup - 1))).mapIdx ?_
    exact fun _ _ => rfl

theorem Inv.doExitThreadGroup (hs : s.Inv) (h : s.doExitThreadGroup current cur = .ok s') : s'.Inv := by
  unfold State.doExitThreadGroup at h
  split at h
  · cases h
  · rename_i hse
    exact (hs.send hse).exit h
  · rename_i hse
    exact (hs.send hse).exit h
  · cases h

theorem popLoop_valid (actions : Nat → SigAction) (blocked : SigSet) (hv : Valid pending) (fuel : Nat) :
    Valid (popLoop actions blocked fuel pending).left := by
  induction fuel generalizing pending with
  | zero => exact hv
  | succ fuel ih =>
    have hre : Valid (pending &&& ~~~sigmask (ffs (pending &&& ~~~blocked))) := by
      intro sig hm
      rw [member_diff, Bool.and_eq_true] at hm
      exact hv sig hm.1
    unfold popLoop
    dsimp only
    split
    · exact hv
    split
    · exact ih hre
    split
    · exact hre
    cases defaultDisposition (ffs (pending &&& ~~~blocked)) with
    | DISP_TERM | DISP_CORE => exact hre
    | DISP_IGN | DISP_CONT => exact ih hre
    | DISP_STOP => exact valid_zero

theorem Inv.setAction (hs : s.Inv) {a : SigAction} (ha : Restored a) :
    State.Inv { s with actions := (s.signals.setAction h sig a).actions } where
  restorer := by
    intro g sig'
    show Restored ((s.signals.setAction h sig a).actions g sig')
    rw [setAction_actions]
    split
    · exact ha
    · exact hs.restorer g sig'
  valid := hs.valid

theorem Inv.deliver (hs : s.Inv) (hcur : cur ∈ s.allTasks) (h' : s.deliver current cur h copyFails = .ok s') :
    s'.Inv := by
  have hva := popLoop_valid (s.actions h) cur.blocked (hs.valid cur hcur) 32
  unfold State.deliver at h'
  cases hpop : popLoop (s.actions h) cur.blocked 32 cur.pending with
  | nothing w =>
    rw [hpop] at h' hva
    cases h'
    exact hs.setTask _ hva
  | exits w =>
    rw [hpop] at h' hva
    exact (hs.setTask _ hva).doExitThreadGroup h'
  | unimplemented =>
    rw [hpop] at h'
    cases h'
  | handler sig action w =>
    rw [hpop] at h' hva
    dsimp only at h'
    have hset := hs.setTask current (k := { cur with pending := w }) hva
    have hre : State.Inv (if action.has SA_RESETHAND then
        { s.setTask current { cur with pending := w } with
          actions := ((s.setTask current { cur with pending := w }).signals.setAction h sig
            { action with handler := SIG_DFL }).actions }
        else s.setTask current { cur with pending := w }) := by
      split
      · exact hset.setAction fun hne => absurd rfl hne
      · exact hset
    generalize (if action.has SA_RESETHAND then _ else _) = s₁ at h' hre
    unfold taskHandleSignal at h'
    split at h'
    · cases h'
    split at h'
    · cases h'
    split at h'
    · exact hre.doExitThreadGroup h'
    · cases h'
      exact hre.setTask _ hva

theorem Inv.sysSetpgid (hs : s.Inv) {pgid : Int32} : (s.sysSetpgid cur pid pgid).Inv := by
  unfold State.sysSetpgid
  split
  · exact hs
  dsimp only
  split
  · rename_i target _ hfi
    exact hs.setTask _ (hs.valid target (mem_of_find?_eq_some hfi))
  · exact hs

theorem Inv.sysClone (hs : s.Inv) {tid exitSignal : Int32} {thread share : Bool} :
    (s.sysClone cur h tid thread share exitSignal).Inv where
  restorer := by
    intro g sig
    cases share with
    | true => exact hs.restorer g sig
    | false =>
      show Restored (update s.actions s.numSighands (s.actions h) g sig)
      by_cases hg : g = s.numSighands
      · rw [hg, update_self]
        exact hs.restorer h sig
      · rw [update_of_ne hg]
        exact hs.restorer g sig
  valid := by
    intro k hk
    rcases mem_append.mp hk with hold | hnew
    · exact hs.valid k hold
    · rw [mem_singleton.mp hnew]
      exact valid_zero

theorem Inv.sysSigaction (hs : s.Inv) {signum : Int} {act : Option (Option SigAction)} {oldFails : Bool} :
    State.Inv { s with actions := (s.signals.sysSigaction h signum act oldFails).2.actions } := by
  obtain hsa | ⟨a, rfl, -, -, -, hres, hset⟩ := sysSigaction_cases s.signals h signum act oldFails
  · rw [hsa]
    exact hs
  · rw [hset]
    exact hs.setAction fun _ _ => hres

theorem Inv.byTask (hs : s.Inv) {f : Task → Nat → Except Panic State} (h : s.byTask current f = .ok s')
    (hf : ∀ cur ∈ s.allTasks, ∀ h, f cur h = .ok s' → s'.Inv) : s'.Inv := by
  unfold State.byTask at h
  split at h
  · cases h
    exact hs
  · rename_i hcur
    split at h
    · cases h
      exact hs
    · exact hf _ (mem_of_getElem? hcur) _ h

theorem Inv.step (hs : s.Inv) {e : Event} (hst : Step s e s') : s'.Inv := by
  unfold Step at hst
  cases e with
  | kill current pid sig =>
    unfold exec sysKill at hst
    dsimp only at hst
    split at hst
    · cases hst
      exact hs
    · split_ifs at hst <;> exact hs.map_send hst
  | tiocspgrp | tcsets =>
    cases hst
    exact ⟨hs.restorer, hs.valid⟩
  | typed tty ch current =>
    unfold exec onChar at hst
    dsimp only at hst
    split_ifs at hst
    all_goals first | exact hs.map_send hst | (cases hst; exact hs)
  | sigaction current signum act oldFails =>
    refine hs.byTask hst fun cur _ h hf => ?_
    cases hf
    exact hs.sysSigaction
  | setMask current mask =>
    refine hs.byTask hst fun cur hcur h hf => ?_
    cases hf
    exact hs.setTask _ (hs.valid cur hcur)
  | setpgid current pid pgid =>
    refine hs.byTask hst fun cur _ h hf => ?_
    cases hf
    exact hs.sysSetpgid
  | clone current tid thread share exitSignal =>
    refine hs.byTask hst fun cur _ h hf => ?_
    cases hf
    exact hs.sysClone
  | deliver current copyFails => exact hs.byTask hst fun cur hcur h hf => hs.deliver hcur hf

end

def fresh (allTasks : List Task) (numRunning : Nat → Nat) (numGroups numSighands : Nat) (ttys : Nat → Tty) : State where
  allTasks := allTasks.map fun k => { k with pending := 0 }
  numRunning := numRunning
  numGroups := numGroups
  actions _ _ := noAction
  numSighands := numSighands
  ttys := ttys

theorem fresh_inv (allTasks : List Task) (numRunning : Nat → Nat) (numGroups numSighands : Nat) (ttys : Nat → Tty) :
    (fresh allTasks numRunning numGroups numSighands ttys).Inv where
  restorer := fun _ _ hne => absurd rfl hne
  valid := by
    intro k hk
    obtain ⟨j, -, rfl⟩ := mem_map.mp hk
    exact valid_zero

/-- Whatever came before, the next event stops the kernel in the code of signals exactly if it is a bad one. -/
theorem crashes_iff_bad_of_run {allTasks : List Task} {numRunning : Nat → Nat} {numGroups numSighands : Nat}
    {ttys : Nat → Tty} {s : State}
    (hr : Run Step (fun _ _ => True) (fresh allTasks numRunning numGroups numSighands ttys) s) (e : Event) :
    s.Crashes e ↔ s.Bad e := by
  have hs : s.Inv := hr.invariant (fresh_inv _ _ _ _ _) fun _ _ _ hs hst _ => hs.step hst
  exact crashes_iff_bad hs e

def shellTasks : List Task := [⟨1, 1, 1, 0, 0, 0, 0, 0, some 0⟩, ⟨2, 2, 2, 1, 17, 1, 0, 0, some 1⟩]

def shellTty : Tty := ⟨2, ISIG, fun i => if i = VINTR then 3 else if i = VQUIT then 28 else if i = VSUSP then 26 else 0⟩

def shell : State := fresh shellTasks (fun _ => 1) 2 2 (fun _ => shellTty)

theorem crashes_iff_bad_handled :
    ∃ s, Run Step (fun _ _ => True) shell s ∧ (s.allTasks.any fun k => member k.pending 20) = true ∧
      (s.Crashes (.deliver 1 false) ↔ s.Bad (.deliver 1 false)) := by
  obtain ⟨s, hr, hs⟩ := exists_follow_except exec (fun _ _ => True)
    [.sigaction 1 20 (some (some ⟨0x1000, 0, SA_RESTORER, 0x2000⟩)) false, .typed 0 26 0] shell
    (fun s => (s.allTasks.any fun k => member k.pending 20) = true) (by decide +kernel)
  exact ⟨s, hr, hs, crashes_iff_bad_of_run hr _⟩

/-- A signal to `INT_MIN`; ^C with the foreground group -1; ^Z for a shell without a handler. -/
theorem signals_crash_kernel : shell.Crashes (.kill 1 Int32.minValue 15) ∧
    (∃ s, Run Step (fun _ _ => True) shell s ∧ s.Crashes (.typed 0 3 0)) ∧
    ∃ s, Run Step (fun _ _ => True) shell s ∧ s.Crashes (.deliver 1 false) := by
  refine ⟨⟨.assertPid, rfl, rfl⟩, ?_, ?_⟩
  · exact ⟨_, .tail (.refl _) (e := .tiocspgrp 0 (-1)) rfl trivial, .assertPid, rfl, rfl⟩
  · exact ⟨_, .tail (.refl _) (e := .typed 0 26 0) rfl trivial, .unimplementedStop, by rfl, rfl⟩

end State

end SignalCrash

end Yagura
