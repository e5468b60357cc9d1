import Yagura.Blocking
import Yagura.Errno

/-!
# Waiting for children

`sys_wait4` with `unblock_waitpid` and the part of the scheduler it goes through:
`sched_block` calls the function once, `unblock_tasks` calls it at each of its
visits to the blocked task, unless a signal is pending. What other tasks do to
the process table is arbitrary: each visit has its own.
-/

namespace Yagura

namespace Wait4

open List

/-! ## The call -/

structure Proc where
  tid : Int32
  tgid : Int32
  pgid : Int32
  ppid : Int32
  dead : Bool
  exitStatus : Int32
  deriving DecidableEq

structure WaitpidBlocker where
  paramPid : Int32
  currentTgid : Int32
  currentPgid : Int32
  waitedTask : Option Proc

def WNOHANG : BitVec 32 := 1

def WaitpidBlocker.isTarget (b : WaitpidBlocker) (it : Proc) : Bool :=
  waitTarget b.paramPid b.currentTgid b.currentPgid it.tgid it.pgid it.ppid

def findTarget (b : WaitpidBlocker) (anyTargetExists : Bool) : List Proc → Bool × Option (Proc × List Proc)
  | [] => (anyTargetExists, none)
  | it :: next =>
    let anyTargetExists := anyTargetExists || b.isTarget it
    if b.isTarget it && it.dead then (anyTargetExists, some (it, next))
    else
      match findTarget b anyTargetExists next with
      | (anyTargetExists, none) => (anyTargetExists, none)
      | (anyTargetExists, some (found, rest)) => (anyTargetExists, some (found, it :: rest))

def unblockWaitpid (b : WaitpidBlocker) (allTasks : List Proc) : Bool × WaitpidBlocker × List Proc :=
  match findTarget b false allTasks with
  | (anyTargetExists, none) =>
    if !anyTargetExists then (true, { b with waitedTask := none }, allTasks) else (false, b, allTasks)
  | (_, some (it, rest)) => (true, { b with waitedTask := some it }, rest)

structure Visit where
  allTasks : List Proc
  interrupted : Bool

def unblockTasks (b : WaitpidBlocker) : List Visit → Option (Bool × WaitpidBlocker × List Proc × List Visit)
  | [] => none
  | v :: visits =>
    if v.interrupted then some (true, b, v.allTasks, visits)
    else
      match unblockWaitpid b v.allTasks with
      | (true, b, allTasks) => some (false, b, allTasks, visits)
      | (false, b, _) => unblockTasks b visits

/-- `sched_block`; the first component is `current->interrupted`. -/
def schedBlock (b : WaitpidBlocker) (allTasks : List Proc) (visits : List Visit) :
    Option (Bool × WaitpidBlocker × List Proc × List Visit) :=
  match unblockWaitpid b allTasks with
  | (true, b, allTasks) => some (false, b, allTasks, visits)
  | (false, b, _) => unblockTasks b visits

structure Caller where
  tgid : Int32
  pgid : Int32

structure Args where
  pid : Int32
  /-- `none` for `NULL`; whether `copy_to_user` can write to the pointer. -/
  userWstatus : Option Bool
  options : BitVec 32
  userRusage : Bool

structure Result where
  rc : Except Errno Int32
  wstatus : Option Int32
  allTasks : List Proc

def blockerFor (current : Caller) (a : Args) : WaitpidBlocker := ⟨a.pid, current.tgid, current.pgid, none⟩

def report (a : Args) (b : WaitpidBlocker) (allTasks : List Proc) : Result :=
  match b.waitedTask with
  | none => ⟨.error .ECHILD, none, allTasks⟩
  | some waitedTask =>
    match a.userWstatus with
    | none => ⟨.ok waitedTask.tid, none, allTasks⟩
    | some true => ⟨.ok waitedTask.tid, some waitedTask.exitStatus, allTasks⟩
    | some false => ⟨.error .EFAULT, none, allTasks⟩

def afterBlock (a : Args) :
    Option (Bool × WaitpidBlocker × List Proc × List Visit) → Option (Result × List Visit)
  | none => none
  | some (true, _, allTasks, visits) => some (⟨.error .ERESTARTSYS, none, allTasks⟩, visits)
  | some (false, b, allTasks, visits) => some (report a b allTasks, visits)

def sysWait4 (current : Caller) (a : Args) (allTasks : List Proc) (visits : List Visit) :
    Option (Result × List Visit) :=
  if a.options &&& ~~~WNOHANG ≠ 0 ∨ a.userRusage then some (⟨.error .ENOTSUP, none, allTasks⟩, visits)
  else
    let b := blockerFor current a
    if a.options &&& WNOHANG ≠ 0 then
      match unblockWaitpid b allTasks with
      | (false, b, allTasks) =>
        if b.waitedTask.isSome then some (⟨.ok 0, none, allTasks⟩, visits)
        else some (⟨.error .ECHILD, none, allTasks⟩, visits)
      | (true, b, allTasks) => some (report a b allTasks, visits)
    else
      afterBlock a (schedBlock b allTasks visits)

/-! ## The contract -/

section
variable (current : Caller) (a : Args)

def Matches (x : Proc) : Prop :=
  if a.pid < -1 then x.pgid.toInt = -a.pid.toInt
  else if a.pid = -1 then True
  else if a.pid = 0 then x.pgid = current.pgid
  else x.tgid = a.pid

def Wanted (x : Proc) : Prop := x.ppid = current.tgid ∧ Matches current a x

def nohang : Prop := a.options &&& WNOHANG ≠ 0
  deriving Decidable

/-- What the call may do when it looks at the process table: finish with a result, or wait. -/
inductive Look (l : List Proc) : Option Result → Prop
  | reap {front back x} : l = front ++ x :: back → Wanted current a x → x.dead = true →
      Look l (some ⟨.ok x.tid, a.userWstatus.map fun _ => x.exitStatus, front ++ back⟩)
  | noChild : (∀ x ∈ l, ¬ Wanted current a x) → Look l (some ⟨.error .ECHILD, none, l⟩)
  | notYet : (∃ x ∈ l, Wanted current a x) → (∀ x ∈ l, Wanted current a x → x.dead = false) → nohang a →
      Look l (some ⟨.ok 0, none, l⟩)
  | wait : (∃ x ∈ l, Wanted current a x) → (∀ x ∈ l, Wanted current a x → x.dead = false) → ¬ nohang a →
      Look l none

def interruptedBy (v : Visit) : Option Result :=
  if v.interrupted then some ⟨.error .ERESTARTSYS, none, v.allTasks⟩ else none

def Permits (l : List Proc) (visits : List Visit) (o : Option (Result × List Visit)) : Prop :=
  Allowed (fun v => Look current a v.allTasks) interruptedBy ⟨l, false⟩ visits o

/-! ## When the call keeps it -/

/-- The first dead target is a child of the caller, and its status can be written; if no target is dead, the call
waits exactly if it is for some child. -/
def LookFits (l : List Proc) : Prop :=
  match l.find? fun it => (blockerFor current a).isTarget it && it.dead with
  | some x => x.ppid = current.tgid ∧ a.pid ≠ Int32.minValue ∧ a.userWstatus ≠ some false
  | none => (∃ x ∈ l, (blockerFor current a).isTarget x = true) → (nohang a ↔ ∀ x ∈ l, ¬ Wanted current a x)

def Waits (l : List Proc) : Prop :=
  ¬ nohang a ∧ (∃ x ∈ l, (blockerFor current a).isTarget x = true) ∧
    ∀ x ∈ l, (blockerFor current a).isTarget x = true → x.dead = false

def Fits (l : List Proc) (visits : List Visit) : Prop :=
  a.options &&& ~~~WNOHANG = 0 ∧ a.userRusage = false ∧
    LooksFit (fun v => LookFits current a v.allTasks) (fun v => Waits current a v.allTasks) interruptedBy
      ⟨l, false⟩ visits

end

/-! ## What one look does -/

section
variable {current : Caller} {a : Args} {b : WaitpidBlocker} {l : List Proc} {x : Proc} {front : List Proc}

theorem findTarget_none {any : Bool} (h : ∀ x ∈ l, b.isTarget x = true → x.dead = false) :
    findTarget b any l = (any || l.any b.isTarget, none) := by
  induction l generalizing any with
  | nil => simp [findTarget]
  | cons it l ih =>
    have hit : (b.isTarget it && it.dead) = false := by
      cases ht : b.isTarget it with
      | false => rfl
      | true => exact h it (.head _) ht
    simp only [findTarget, hit, ih fun x hx => h x (.tail _ hx), any_cons, Bool.or_assoc]
    rfl

theorem findTarget_some (any : Bool) (back : List Proc) (hfr : ∀ y ∈ front, b.isTarget y = true → y.dead = false)
    (hx : b.isTarget x = true) (hd : x.dead = true) :
    (findTarget b any (front ++ x :: back)).2 = some (x, front ++ back) := by
  induction front generalizing any with
  | nil => simp [findTarget, hx, hd]
  | cons it front ih =>
    have hit : (b.isTarget it && it.dead) = false := by
      cases ht : b.isTarget it with
      | false => rfl
      | true => exact hfr it (.head _) ht
    have hre := ih (any || b.isTarget it) fun y hy => hfr y (.tail _ hy)
    simp only [cons_append, findTarget, hit]
    generalize findTarget b _ (front ++ x :: back) = r at hre ⊢
    obtain ⟨any', r⟩ := r
    cases hre
    rfl

theorem target_cases (b : WaitpidBlocker) (l : List Proc) :
    (∃ front x back, l = front ++ x :: back ∧ b.isTarget x = true ∧ x.dead = true ∧
      (∀ y ∈ front, b.isTarget y = true → y.dead = false) ∧
      (l.find? fun it => b.isTarget it && it.dead) = some x) ∨
    ((∀ x ∈ l, b.isTarget x = true → x.dead = false) ∧ (l.find? fun it => b.isTarget it && it.dead) = none) := by
  cases h : l.find? fun it => b.isTarget it && it.dead with
  | none =>
    refine .inr ⟨fun x hx ht => ?_, rfl⟩
    simpa [ht] using find?_eq_none.mp h x hx
  | some x =>
    obtain ⟨hx, front, back, hl, hfr⟩ := find?_eq_some_iff_append.mp h
    rw [Bool.and_eq_true] at hx
    refine .inl ⟨front, x, back, hl, hx.1, hx.2, fun y hy ht => ?_, rfl⟩
    simpa [ht] using hfr y hy

theorem unblockWaitpid_dead (back : List Proc) (hfr : ∀ y ∈ front, b.isTarget y = true → y.dead = false)
    (hx : b.isTarget x = true) (hd : x.dead = true) :
    unblockWaitpid b (front ++ x :: back) = (true, { b with waitedTask := some x }, front ++ back) := by
  have hfi := findTarget_some false back hfr hx hd
  unfold unblockWaitpid
  generalize findTarget b false (front ++ x :: back) = r at hfi
  obtain ⟨any, r⟩ := r
  cases hfi
  rfl

theorem unblockWaitpid_alive (h : ∀ x ∈ l, b.isTarget x = true → x.dead = false) : unblockWaitpid b l =
      if ∃ x ∈ l, b.isTarget x = true then (false, b, l) else (true, { b with waitedTask := none }, l) := by
  unfold unblockWaitpid
  rw [findTarget_none h]
  cases hany : l.any b.isTarget with
  | true => rw [if_pos (any_eq_true.mp hany)]; rfl
  | false =>
    rw [if_neg fun hex => by rw [any_eq_true.mpr hex] at hany; exact Bool.noConfusion hany]
    rfl

/-! ## The tasks the call is for -/

theorem toInt_eq_neg_iff (x y : Int32) : x.toInt = -y.toInt ↔ x = -y ∧ y ≠ Int32.minValue := by
  have hx := x.toInt_lt
  have hy := y.le_toInt
  have hy' := y.toInt_lt
  rw [← Int32.toInt_inj (y := -y), Ne, ← Int32.toInt_inj, Int32.toInt_neg, Int32.toInt_minValue]
  constructor
  · intro h
    have hne : y.toInt ≠ -2 ^ 31 := by omega
    rw [Int.bmod_eq_of_le (by omega) (by omega)]
    exact ⟨h, hne⟩
  · rintro ⟨h, hne⟩
    rwa [Int.bmod_eq_of_le (by omega) (by omega)] at h

theorem wanted_iff : Wanted current a x ↔
      (blockerFor current a).isTarget x = true ∧ x.ppid = current.tgid ∧ a.pid ≠ Int32.minValue := by
  have hmin : ¬ a.pid < -1 → a.pid ≠ Int32.minValue := by
    rintro hn hp
    exact hn (by rw [hp]; decide)
  unfold Wanted Matches WaitpidBlocker.isTarget waitTarget blockerFor
  split_ifs with h1 h2 h3
  · rw [toInt_eq_neg_iff, decide_eq_true_iff, and_left_comm]
  · simp only [decide_eq_true_eq, hmin h1, and_true, and_self, ne_eq, not_false_eq_true]
  · simp only [decide_eq_true_eq, hmin h1, and_true, ne_eq, not_false_eq_true, and_comm (b := x.pgid = _)]
  · simp only [decide_eq_true_eq, hmin h1, and_true, ne_eq, not_false_eq_true, and_comm (b := x.tgid = _)]

/-! ## The decisions of the call -/

def decision (current : Caller) (a : Args) (l : List Proc) : Option Result :=
  match unblockWaitpid (blockerFor current a) l with
  | (true, b, l) => some (report a b l)
  | (false, _, l) => if a.options &&& WNOHANG ≠ 0 then some ⟨.error .ECHILD, none, l⟩ else none

def Supported (a : Args) : Prop := a.options &&& ~~~WNOHANG = 0 ∧ a.userRusage = false

theorem unblockWaitpid_false (h : (unblockWaitpid b l).1 = false) : unblockWaitpid b l = (false, b, l) := by
  rcases target_cases b l with ⟨front, x, back, rfl, hx, hd, hfr, -⟩ | ⟨hal, -⟩
  · rw [unblockWaitpid_dead back hfr hx hd] at h
    cases h
  · rw [unblockWaitpid_alive hal] at h ⊢
    split_ifs at h ⊢
    rfl

theorem decision_cases (current : Caller) (a : Args) (l : List Proc) :
    (∃ b' l', unblockWaitpid (blockerFor current a) l = (true, b', l') ∧
      decision current a l = some (report a b' l')) ∨
    unblockWaitpid (blockerFor current a) l = (false, blockerFor current a, l) ∧
      decision current a l = if a.options &&& WNOHANG ≠ 0 then some ⟨.error .ECHILD, none, l⟩ else none := by
  unfold decision
  cases h : (unblockWaitpid (blockerFor current a) l).1 with
  | true =>
    rw [show unblockWaitpid (blockerFor current a) l = (true, _, _) from Prod.ext h rfl]
    exact .inl ⟨_, _, rfl, rfl⟩
  | false =>
    rw [unblockWaitpid_false h]
    exact .inr ⟨rfl, rfl⟩

theorem unblockTasks_cons (v : Visit) (visits : List Visit) : unblockTasks b (v :: visits) =
      if v.interrupted then some (true, b, v.allTasks, visits) else schedBlock b v.allTasks visits := rfl

theorem afterBlock_schedBlock (hn : ¬ nohang a) (v : Visit) (visits : List Visit) :
    afterBlock a (schedBlock (blockerFor current a) v.allTasks visits) =
      blockOn (fun v => decision current a v.allTasks) interruptedBy v visits := by
  induction visits generalizing v with
  | nil =>
    rcases decision_cases current a v.allTasks with ⟨b', l', hu, hd⟩ | ⟨hu, hd⟩
    · rw [blockOn_some (v := v) hd]
      simp only [schedBlock, hu, afterBlock]
    · have hd := hd.trans (if_neg hn)
      simp only [schedBlock, hu, blockOn, hd]
      rfl
  | cons w visits ih =>
    rcases decision_cases current a v.allTasks with ⟨b', l', hu, hd⟩ | ⟨hu, hd⟩
    · rw [blockOn_some (v := v) hd]
      simp only [schedBlock, hu, afterBlock]
    · have hd := hd.trans (if_neg hn)
      rw [blockOn_none (v := v) hd, ← ih w]
      simp only [schedBlock, hu]
      rw [unblockTasks_cons, interruptedBy]
      cases w.interrupted <;> rfl

theorem sysWait4_eq_blockOn (hs : Supported a) (v : Visit) (visits : List Visit) :
    sysWait4 current a v.allTasks visits =
      blockOn (fun v => decision current a v.allTasks) interruptedBy v visits := by
  unfold sysWait4
  rw [if_neg (by simp [hs.1, hs.2])]
  by_cases hn : a.options &&& WNOHANG ≠ 0
  · rw [if_pos hn]
    rcases decision_cases current a v.allTasks with ⟨b', l', hu, hd⟩ | ⟨hu, hd⟩
    · rw [blockOn_some (v := v) hd]
      simp only [hu]
    · rw [if_pos hn] at hd
      rw [blockOn_some (v := v) hd]
      simp only [hu]
      rfl
  · rw [if_neg hn]
    exact afterBlock_schedBlock hn v visits

theorem removed_unique {back front' back' : List Proc} {y : Proc} (h : front ++ x :: back = front' ++ y :: back')
    (h' : front ++ back = front' ++ back') : x = y := by
  have hx : (front ++ x :: back).count x = (front ++ back).count x + 1 := by
    rw [perm_middle.count_eq, count_cons_self]
  rw [h, perm_middle.count_eq, ← h', count_cons] at hx
  by_contra hne
  rw [beq_false_of_ne (Ne.symm hne)] at hx
  simp at hx

theorem decision_dead (back : List Proc)
    (hfr : ∀ y ∈ front, (blockerFor current a).isTarget y = true → y.dead = false)
    (hx : (blockerFor current a).isTarget x = true) (hd : x.dead = true) :
    decision current a (front ++ x :: back) =
      some (report a ⟨a.pid, current.tgid, current.pgid, some x⟩ (front ++ back)) := by
  simp only [decision, unblockWaitpid_dead back hfr hx hd]
  rfl

theorem look_dead (back : List Proc) (hx : (blockerFor current a).isTarget x = true) (hd : x.dead = true) :
    Look current a (front ++ x :: back)
        (some (report a ⟨a.pid, current.tgid, current.pgid, some x⟩ (front ++ back))) ↔
      x.ppid = current.tgid ∧ a.pid ≠ Int32.minValue ∧ a.userWstatus ≠ some false := by
  have hlen : (front ++ back).length < (front ++ x :: back).length := by simp
  -- The task that the contract reaps is the one that is missing.
  have hlo {w : Option Int32} (hw : w = a.userWstatus.map fun _ => x.exitStatus) :
      Look current a (front ++ x :: back) (some ⟨.ok x.tid, w, front ++ back⟩) ↔ Wanted current a x := by
    constructor
    · intro h
      generalize hl : front ++ x :: back = l at h
      generalize hr : front ++ back = r at h
      generalize hrc : (Except.ok x.tid : Except Errno Int32) = rc at h
      cases h with
      | reap hl' hy _ =>
        rw [removed_unique (hl.trans hl') hr]
        exact hy
      | noChild _ => cases hrc
      | notYet _ _ _ => rw [hl, hr] at hlen; exact absurd hlen (lt_irrefl _)
    · intro h
      rw [hw]
      exact .reap rfl h hd
  rw [wanted_iff] at hlo
  unfold report
  cases hw : a.userWstatus with
  | none =>
    rw [hlo (by rw [hw]; rfl)]
    simp [hx]
  | some writable =>
    cases writable with
    | true =>
      rw [hlo (by rw [hw]; rfl)]
      simp [hx]
    | false =>
      constructor
      · intro h
        cases h
      · rintro ⟨-, -, hne⟩
        exact absurd rfl hne

theorem not_wanted (h : ¬ ∃ x ∈ l, (blockerFor current a).isTarget x = true) : ∀ x ∈ l, ¬ Wanted current a x :=
  fun x hx hw => h ⟨x, hx, (wanted_iff.mp hw).1⟩

theorem look_noChild_iff : Look current a l (some ⟨.error .ECHILD, none, l⟩) ↔ ∀ x ∈ l, ¬ Wanted current a x := by
  constructor
  · intro h
    cases h with
    | noChild h => exact h
  · exact .noChild

theorem decision_alive (h : ∀ x ∈ l, (blockerFor current a).isTarget x = true → x.dead = false) :
    decision current a l = if (∃ x ∈ l, (blockerFor current a).isTarget x = true) ∧ ¬ nohang a then none
      else some ⟨.error .ECHILD, none, l⟩ := by
  unfold decision
  rw [unblockWaitpid_alive h]
  by_cases hany : ∃ x ∈ l, (blockerFor current a).isTarget x = true
  · rw [if_pos hany]
    by_cases hn : nohang a
    · rw [if_neg fun hand => hand.2 hn]
      exact if_pos hn
    · rw [if_pos ⟨hany, hn⟩]
      exact if_neg hn
  · rw [if_neg hany, if_neg fun hand => hany hand.1]
    rfl

theorem decision_none_iff (current : Caller) (a : Args) (l : List Proc) :
    decision current a l = none ↔ Waits current a l := by
  rcases target_cases (blockerFor current a) l with ⟨front, x, back, rfl, hx, hd, hfr, -⟩ | ⟨h, -⟩
  · rw [decision_dead back hfr hx hd]
    refine iff_of_false nofun ?_
    rintro ⟨-, -, hal⟩
    rw [hal x (by simp) hx] at hd
    exact Bool.noConfusion hd
  · rw [decision_alive h]
    split_ifs with hw
    · exact iff_of_true rfl ⟨hw.2, hw.1, h⟩
    · exact iff_of_false nofun fun hw' => hw ⟨hw'.2.1, hw'.1⟩

theorem look_alive (h : ∀ x ∈ l, (blockerFor current a).isTarget x = true → x.dead = false) :
    Look current a l (decision current a l) ↔
      ((∃ x ∈ l, (blockerFor current a).isTarget x = true) → (nohang a ↔ ∀ x ∈ l, ¬ Wanted current a x)) := by
  rw [decision_alive h]
  split_ifs with hw
  · constructor
    · intro hlo _
      cases hlo with
      | wait hex _ _ =>
        obtain ⟨x, hx, hwa⟩ := hex
        exact iff_of_false hw.2 fun hno => hno x hx hwa
    · intro hiff
      have hex : ∃ x ∈ l, Wanted current a x := by
        by_contra hno
        exact hw.2 ((hiff hw.1).mpr fun x hx hwa => hno ⟨x, hx, hwa⟩)
      exact .wait hex (fun x hx hwa => h x hx (wanted_iff.mp hwa).1) hw.2
  · rw [look_noChild_iff]
    by_cases hany : ∃ x ∈ l, (blockerFor current a).isTarget x = true
    · have hn : nohang a := not_not.mp fun hn => hw ⟨hany, hn⟩
      simp only [hany, hn, true_imp_iff, true_iff]
    · exact iff_of_true (not_wanted hany) fun hex => absurd hex hany

theorem look_decision (current : Caller) (a : Args) (l : List Proc) :
    Look current a l (decision current a l) ↔ LookFits current a l := by
  unfold LookFits
  rcases target_cases (blockerFor current a) l with ⟨front, x, back, rfl, hx, hd, hfr, hfi⟩ | ⟨h, hfi⟩
  · rw [decision_dead back hfr hx hd, hfi]
    exact look_dead back hx hd
  · rw [hfi]
    exact look_alive h

/-! ## Whole calls -/

theorem sysWait4_unsupported (hs : ¬ Supported a) (visits : List Visit) :
    sysWait4 current a l visits = some (⟨.error .ENOTSUP, none, l⟩, visits) := by
  unfold sysWait4
  rw [if_pos]
  by_contra h
  rw [not_or, not_ne_iff, Bool.not_eq_true] at h
  exact hs h

theorem permits_iff_looksFit (hs : Supported a) (visits : List Visit) :
    Permits current a l visits (sysWait4 current a l visits) ↔
      LooksFit (fun v => LookFits current a v.allTasks) (fun v => Waits current a v.allTasks) interruptedBy
        ⟨l, false⟩ visits := by
  rw [sysWait4_eq_blockOn hs ⟨l, false⟩ visits]
  exact allowed_blockOn_iff (fun v => look_decision current a v.allTasks)
    (fun v => decision_none_iff current a v.allTasks) ⟨l, false⟩ visits

end

theorem sysWait4_allowed_iff (current : Caller) (a : Args) (l : List Proc) (visits : List Visit) :
    Permits current a l visits (sysWait4 current a l visits) ↔ Fits current a l visits := by
  unfold Fits
  rw [← and_assoc]
  by_cases hs : Supported a
  · rw [permits_iff_looksFit hs]
    exact (and_iff_right hs).symm
  · refine iff_of_false ?_ fun h => hs h.1
    unfold Permits
    rw [sysWait4_unsupported hs, allowed_finish_iff]
    intro h
    cases h

/-- With `WNOHANG` a caller whose only child runs is told that it has none; `wait4(0)` takes the dead child of
another process of the group. -/
theorem wait4_breaks_contract : (sysWait4 ⟨2, 2⟩ ⟨-1, none, WNOHANG, false⟩ [⟨3, 3, 3, 2, false, 0⟩] [] =
        some (⟨.error .ECHILD, none, [⟨3, 3, 3, 2, false, 0⟩]⟩, []) ∧
      ¬ Permits ⟨2, 2⟩ ⟨-1, none, WNOHANG, false⟩ [⟨3, 3, 3, 2, false, 0⟩] []
        (sysWait4 ⟨2, 2⟩ ⟨-1, none, WNOHANG, false⟩ [⟨3, 3, 3, 2, false, 0⟩] [])) ∧
    (sysWait4 ⟨2, 2⟩ ⟨0, none, 0, false⟩ [⟨4, 4, 2, 3, true, 7⟩] [] = some (⟨.ok 4, none, []⟩, []) ∧
      ¬ Permits ⟨2, 2⟩ ⟨0, none, 0, false⟩ [⟨4, 4, 2, 3, true, 7⟩] []
        (sysWait4 ⟨2, 2⟩ ⟨0, none, 0, false⟩ [⟨4, 4, 2, 3, true, 7⟩] [])) := by
  refine ⟨⟨rfl, ?_⟩, rfl, ?_⟩
  · rw [permits_iff_looksFit ⟨by decide, rfl⟩]
    intro h
    have hnn := (h ⟨_, mem_singleton_self _, rfl⟩).mp (show _ ≠ _ by decide)
    exact hnn _ (mem_singleton_self _) ⟨rfl, trivial⟩
  · rw [permits_iff_looksFit ⟨by decide, rfl⟩]
    intro h
    exact absurd (show (3 : Int32) = 2 from h.1) (by decide)

end Wait4

end Yagura
