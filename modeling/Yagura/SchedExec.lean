import Yagura.Sched

/-!
# Executing a schedule

`next` computes the step a CPU takes by choice of a `Move`, together with the
proof that it is one; a schedule is a list of such choices.
-/

namespace Yagura

open Sys

/-- `go` is the next step of a CPU inside the kernel's own code, where only the
`unblock` functions leave a choice; the others are what a running task does. -/
inductive Move
  | go
  | interrupted
  | unblock
  | tick
  | block (b : Blocker) (st : TaskState)
  | clone (flags : Nat)
  | cloneFail
  | register
  | find (tid : Int)
  | setpgid (x : Nat) (pgid : Int)
  | unref (x : Nat)
  | reap (b : WaitpidBlocker)
  | exit
  deriving DecidableEq, Repr

instance (n : Nat) (s : Sys) : Decidable (s.AllTasksUnlocked n) := inferInstanceAs (Decidable (∀ c < n, _))

instance (s : Sys) (t : Nat) : ∀ b, Decidable (s.blockerOf t b)
  | .other => .isTrue trivial
  | .waitpid _ => inferInstanceAs (Decidable (_ = _))

abbrev Successor (n : Nat) (s : Sys) : Type := { p : Ev × Sys // Step n s p.1 p.2 }

section
variable {n c : Nat} (s : Sys) (hc : c < n)

def visit {stk prev : Option Nat} {w : Nat} {rest : List Nat} (hp : s.pc c = .unblock stk prev (w :: rest)) :
    Option (Successor n s) :=
  if hb : (s.task w).state.blocked = true then
    match hu : (s.task w).unblock with
    | none => none
    | some .other => some ⟨(_, _), .visitStay hc hp hb hu⟩
    | some (.waitpid b) =>
      match hd : s.findDead b with
      | some _ => some ⟨(_, _), .visitReap hc hp hb hu hd⟩
      | none =>
        if ht : s.anyTargetExists b = true then some ⟨(_, _), .visitStayWaitpid hc hp hb hu hd ht⟩
        else some ⟨(_, _), .visitNoTarget hc hp hb hu (Bool.eq_false_iff.mpr ht)⟩
  else some ⟨(_, _), .visitOther hc hp (Bool.eq_false_iff.mpr hb)⟩

def go : Option (Successor n s) :=
  match hp : s.pc c with
  | .run t => if h : s.phase t = .exiting then some ⟨(_, _), .exitCli hc hp h⟩ else none
  | .exit _ => if h : s.AllTasksUnlocked n then some ⟨(_, _), .exitReparent hc hp h⟩ else none
  | .bury _ => some ⟨(_, _), .exitDead hc hp⟩
  | .leave t =>
    if h : 0 < (s.task t).refCount ∧ ((s.task t).refCount = 1 → (s.task t).tid = 0) then
      some ⟨(_, _), .leave hc hp h.1 h.2⟩
    else none
  | .save _ _ => some ⟨(_, _), .save hc hp⟩
  | .switch _ _ => if h : s.AllTasksUnlocked n then some ⟨(_, _), .lockAllTasks hc hp h⟩ else none
  | .unblock _ _ [] => some ⟨(_, _), .unlockAllTasks hc hp⟩
  | .unblock _ _ (_ :: _) => visit s hc hp
  | .wake _ _ _ _ => some ⟨(_, _), .wake hc hp⟩
  | .enqueue _ _ w _ =>
    if h : (s.task w).state = .running ∧ w ∉ s.readyQueue then some ⟨(_, _), .enqueue hc hp h.1 h.2⟩ else none
  | .dequeue _ _ =>
    match hq : s.readyQueue with
    | [] => if h : (s.task c).state = .running then some ⟨(_, _), .dequeueIdle hc hp hq h⟩ else none
    | t :: _ => if h : (s.task t).state = .running then some ⟨(_, _), .dequeue hc hp hq h⟩ else none
  | .load _ (some _) _ => some ⟨(_, _), .loadRequeue hc hp⟩
  | .load _ none _ => some ⟨(_, _), .load hc hp⟩
  | .requeue p _ =>
    if h : (s.task p).state = .running ∧ p ∉ s.readyQueue then some ⟨(_, _), .requeue hc hp h.1 h.2⟩ else none
  | .enter _ => some ⟨(_, _), .enter hc hp⟩

def register {t : Nat} (hp : s.pc c = .run t) : Option (Successor n s) :=
  match hph : s.phase t with
  | .clone _ => some ⟨(_, _), .registerRef hc hp hph⟩
  | .register _ => if h : s.AllTasksUnlocked n then some ⟨(_, _), .registerLink hc hp hph h⟩ else none
  | .enqueue k =>
    if h : (s.task k).state = .running ∧ k ∉ s.readyQueue then
      some ⟨(_, _), .registerEnqueue hc hp hph h.1 h.2⟩
    else none
  | _ => none

def exitThread {t : Nat} (hp : s.pc c = .run t) : Option (Successor n s) :=
  match hph : s.phase t with
  | .user =>
    if h : n ≤ t ∧ (s.task t).tid ≠ 1 ∧ 0 < s.numRunning (s.task t).threadGroup then
      some ⟨(_, _), .exit hc hp h.1 hph h.2.1 h.2.2⟩
    else none
  | .notify pid =>
    if h : s.AllTasksUnlocked n ∧ s.sendSignalOk pid (s.task t).exitSignal then
      some ⟨(_, _), .exitNotify hc hp hph h.1 h.2⟩
    else none
  | _ => none

def act {t : Nat} (hp : s.pc c = .run t) : Move → Option (Successor n s)
  | .tick => some ⟨(_, _), .tick hc hp⟩
  | .block b st =>
    if h : n ≤ t ∧ (s.task t).unblock = none ∧ st.blocked = true ∧ s.blockerOf t b then
      some ⟨(_, _), .block b st hc hp h.1 h.2.1 h.2.2.1 h.2.2.2⟩
    else none
  | .clone flags =>
    if h : n ≤ t ∧ s.phase t = .user ∧ cloneAccepts flags = true then
      some ⟨(_, _), .clone flags hc hp h.1 h.2.1 h.2.2⟩
    else none
  | .cloneFail =>
    match hph : s.phase t with
    | .clone _ => some ⟨(_, _), .cloneFail hc hp hph⟩
    | _ => none
  | .register => register s hc hp
  | .find tid =>
    match hx : s.allTasks.find? fun it => (s.task it).tid == tid with
    | some _ => if h : n ≤ t ∧ s.AllTasksUnlocked n then some ⟨(_, _), .find tid hc hp h.1 h.2 hx⟩ else none
    | none => none
  | .setpgid x pgid => if h : x ∈ s.held t then some ⟨(_, _), .setpgid pgid hc hp h⟩ else none
  | .unref x =>
    if h : x ∈ s.held t ∧ 0 < (s.task x).refCount ∧ ((s.task x).refCount = 1 → (s.task x).tid = 0) then
      some ⟨(_, _), .unref hc hp h.1 h.2.1 h.2.2⟩
    else if h : x ∈ s.held t ∧ (s.task x).refCount = 1 ∧ (s.task x).tid ≠ 0 ∧ x ≠ t then
      some ⟨(_, _), .unrefFree hc hp h.1 h.2.1 h.2.2.1 h.2.2.2⟩
    else none
  | .reap b =>
    match hx : s.findDead b with
    | some _ =>
      if h : n ≤ t ∧ s.AllTasksUnlocked n ∧ s.blockerOf t (.waitpid b) then
        some ⟨(_, _), .reap b hc hp h.1 h.2.1 h.2.2 hx⟩
      else none
    | none => none
  | .exit => exitThread s hc hp
  | _ => none

def next (m : Move) : Option (Successor n s) :=
  match m, hp : s.pc c with
  | .go, _ => go s hc
  | .interrupted, .unblock _ _ (w :: _) =>
    if h : (s.task w).state = .interruptible ∧ (s.task w).unblock.isSome then
      some ⟨(_, _), .visitInterrupted hc hp h.1 (Option.some_get h.2).symm⟩
    else none
  | .unblock, .unblock _ _ (w :: _) =>
    if h : (s.task w).state.blocked = true ∧ (s.task w).unblock = some .other then
      some ⟨(_, _), .visitUnblock hc hp h.1 h.2⟩
    else none
  | m, .run _ => act s hc hp m
  | _, _ => none

end

def nextMove (n : Nat) (s : Sys) (i : Nat × Move) : Option (Successor n s) :=
  if hc : i.1 < n then next s hc i.2 else none

theorem schedule_reaches (n : Nat) (ok : Sys → Ev → Prop) [∀ s e, Decidable (ok s e)] (s : Sys)
    (l : List (Nat × Move)) (P : Sys → Prop) [DecidablePred P]
    (h : (schedule (nextMove n) ok s l).any (fun r => decide (P r.1)) = true) : ∃ s', Run (Step n) ok s s' ∧ P s' :=
  exists_schedule _ ok s l P h

def anyStep (_ : Sys) (_ : Ev) : Prop := True
  deriving Decidable

end Yagura
