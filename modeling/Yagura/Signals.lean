import Yagura.Errno
import Yagura.Trans

/-!
# Signals

The signal masks, pending signals and signal actions of all tasks
(`syscall/signal.c`, the signal part of `task.c`, `sys_clone`). A value copied
from user memory is arbitrary, or the copy fails. One round of the loop of
`task_pop_signal` is one step, and so are entering `sys_sigsuspend` and
leaving it.
-/

namespace Yagura

open Function

/-! ## Signals and their sets -/

abbrev SigSet := BitVec 32

def SIGKILL : Nat := 9
def SIGCONT : Nat := 18
def SIGSTOP : Nat := 19
def SIGTSTP : Nat := 20
def SIGTTIN : Nat := 21
def SIGTTOU : Nat := 22

def sigmask (sig : Nat) : SigSet := 1#32 <<< (sig - 1)

inductive Disposition
  | DISP_TERM | DISP_IGN | DISP_CORE | DISP_STOP | DISP_CONT
  deriving DecidableEq

def defaultDispositions : List Disposition :=
  [.DISP_TERM, .DISP_TERM, .DISP_TERM, .DISP_CORE, .DISP_CORE, .DISP_CORE, .DISP_CORE, .DISP_CORE, .DISP_CORE,
    .DISP_TERM, .DISP_TERM, .DISP_CORE, .DISP_TERM, .DISP_TERM, .DISP_TERM, .DISP_TERM, .DISP_TERM, .DISP_IGN,
    .DISP_CONT, .DISP_STOP, .DISP_STOP, .DISP_STOP, .DISP_STOP, .DISP_IGN, .DISP_CORE, .DISP_CORE, .DISP_TERM,
    .DISP_TERM, .DISP_IGN, .DISP_TERM, .DISP_TERM, .DISP_CORE]

def defaultDisposition (sig : Nat) : Disposition := defaultDispositions.getD sig .DISP_TERM

def SIG_DFL : Nat := 0
def SIG_IGN : Nat := 1

def SA_RESTORER : BitVec 32 := 0x04000000
def SA_NODEFER : BitVec 32 := 0x40000000
def SA_RESETHAND : BitVec 32 := 0x80000000

structure SigAction where
  handler : Nat
  mask : SigSet
  flags : BitVec 32
  restorer : Nat

def SigAction.has (a : SigAction) (flag : BitVec 32) : Bool := a.flags &&& flag != 0#32

/-! ## State -/

/-- A task. `oldMask` is what `sys_sigsuspend` will restore, while the task is blocked in it; `popped` is a
signal on its way from `task_pop_signal` to `task_handle_signal`. A dead task has no `sighand`. -/
structure SigTask where
  tgid : Nat
  pgid : Nat
  blocked : SigSet
  pending : SigSet
  sighand : Option Nat
  oldMask : Option SigSet
  popped : Option (Nat × SigAction)

structure Signals where
  tasks : Nat → Option SigTask
  actions : Nat → Nat → SigAction
  numSighands : Nat

namespace Signals

def setTask (s : Signals) (t : Nat) (k : SigTask) : Signals := { s with tasks := update s.tasks t (some k) }

def setAction (s : Signals) (h sig : Nat) (a : SigAction) : Signals :=
  { s with actions := update s.actions h (update (s.actions h) sig a) }

def newSighand (s : Signals) (actions : Nat → SigAction) : Signals :=
  { s with actions := update s.actions s.numSighands actions, numSighands := s.numSighands + 1 }

def noAction : SigAction := ⟨SIG_DFL, 0, 0, 0⟩

def boot : Signals where
  tasks t := if t = 1 then some ⟨1, 1, 0, 0, some 0, none, none⟩ else none
  actions _ _ := noAction
  numSighands := 1

/-! ## System calls -/

/-- `act` is `none` for a null pointer, `some none` if the copy fails; `oldFails` if copying the old action out does. -/
def sysSigaction (s : Signals) (h : Nat) (signum : Int) (act : Option (Option SigAction)) (oldFails : Bool) :
    Except Errno Unit × Signals :=
  if signum ≤ 0 ∨ (NSIG : Int) ≤ signum then (.error .EINVAL, s)
  else if signum = SIGKILL ∨ signum = SIGSTOP then (.error .EINVAL, s)
  else
    match act with
    | some none => (.error .EFAULT, s)
    | some (some a) =>
      if ¬ a.has SA_RESTORER ∨ a.restorer = 0 then (.error .EFAULT, s)
      else if oldFails then (.error .EFAULT, s)
      else (.ok (), s.setAction h signum.toNat a)
    | none => if oldFails then (.error .EFAULT, s) else (.ok (), s)

def SIG_BLOCK : Int := 0
def SIG_UNBLOCK : Int := 1
def SIG_SETMASK : Int := 2

def unblockable : SigSet := sigmask SIGKILL ||| sigmask SIGSTOP

def sysSigprocmask (s : Signals) (t : Nat) (k : SigTask) (how : Int) (set : Option (Option SigSet)) (oldFails : Bool) :
    Except Errno Unit × Signals :=
  if oldFails then (.error .EFAULT, s)
  else
    match set with
    | none => (.ok (), s)
    | some none => (.error .EFAULT, s)
    | some (some set) =>
      let set := set &&& ~~~unblockable
      if how = SIG_BLOCK then (.ok (), s.setTask t { k with blocked := k.blocked ||| set })
      else if how = SIG_UNBLOCK then (.ok (), s.setTask t { k with blocked := k.blocked &&& ~~~set })
      else if how = SIG_SETMASK then (.ok (), s.setTask t { k with blocked := set })
      else (.error .EINVAL, s)

def sigsuspendEnter (s : Signals) (t : Nat) (k : SigTask) (mask : Option SigSet) : Except Errno Unit × Signals :=
  match mask with
  | none => (.error .EFAULT, s)
  | some mask => (.ok (), s.setTask t { k with blocked := mask, oldMask := some k.blocked })

def sigsuspendLeave (s : Signals) (t : Nat) (k : SigTask) (oldMask : SigSet) : Except Errno Unit × Signals :=
  (.error .EINTR, s.setTask t { k with blocked := oldMask, oldMask := none })

/-! ## Sending and receiving -/

def ignored (s : Signals) (h sig : Nat) : Prop :=
  (s.actions h sig).handler = SIG_IGN ∨ (s.actions h sig).handler = SIG_DFL ∧ defaultDisposition sig = .DISP_IGN
  deriving Decidable

def clearedSignals (sig : Nat) : SigSet :=
  match defaultDisposition sig with
  | .DISP_CONT => sigmask sig ||| sigmask SIGSTOP ||| sigmask SIGTSTP ||| sigmask SIGTTIN ||| sigmask SIGTTOU
  | .DISP_STOP => sigmask sig ||| sigmask SIGCONT
  | _ => sigmask sig

def doSendSignal (s : Signals) (k : SigTask) (sig : Nat) : SigTask :=
  match k.sighand with
  | none => k
  | some h =>
    let pending := k.pending &&& ~~~clearedSignals sig
    if s.ignored h sig then { k with pending := pending } else { k with pending := pending ||| sigmask sig }

inductive Dest
  | task | allUserTasks | threadGroup | processGroup
  deriving DecidableEq

def Dest.hits (pid tid : Nat) (k : SigTask) : Dest → Bool
  | .task => tid == pid
  | .allUserTasks => 1 < tid
  | .threadGroup => k.tgid == pid
  | .processGroup => k.pgid == pid

def taskSendSignal (s : Signals) (t pid : Nat) (signum : Int) (dest : Dest) (excludeCurrent : Bool) : Signals :=
  if signum ≤ 0 ∨ (NSIG : Int) ≤ signum then s
  else
    { s with tasks := fun u => (s.tasks u).map fun k =>
        if dest.hits pid u k && !(excludeCurrent && u == t) then s.doSendSignal k signum.toNat else k }

def exit (s : Signals) (t : Nat) (k : SigTask) : Signals := s.setTask t { k with sighand := none, oldMask := none, popped := none }

def doExitThreadGroup (s : Signals) (t : Nat) (k : SigTask) : Signals :=
  (s.taskSendSignal t k.tgid SIGKILL .threadGroup true).exit t k

def ffs (w : SigSet) : Nat :=
  match (List.range 32).find? fun i => w.getLsbD i with
  | some i => i + 1
  | none => 0

/-- One round of the loop of `task_pop_signal`; `none` where the source stops with `UNIMPLEMENTED`. -/
def popRound (s : Signals) (t h : Nat) (k : SigTask) : Option Signals :=
  let sig := ffs (k.pending &&& ~~~k.blocked)
  if sig = 0 then some s
  else
    let k := { k with pending := k.pending &&& ~~~(sigmask sig) }
    let action := s.actions h sig
    if action.handler = SIG_IGN then some (s.setTask t k)
    else if action.handler ≠ SIG_DFL then
      let s := if action.has SA_RESETHAND then s.setAction h sig { action with handler := SIG_DFL } else s
      some (s.setTask t { k with popped := some (sig, action) })
    else
      match defaultDisposition sig with
      | .DISP_TERM | .DISP_CORE => some ((s.setTask t k).doExitThreadGroup t k)
      | .DISP_IGN | .DISP_CONT => some (s.setTask t k)
      | .DISP_STOP => none

def newBlocked (blocked : SigSet) (sig : Nat) (action : SigAction) : SigSet :=
  let newBlocked := blocked ||| action.mask
  let newBlocked := if action.has SA_NODEFER then newBlocked else newBlocked ||| sigmask sig
  newBlocked &&& ~~~unblockable

def taskHandleSignal (s : Signals) (t : Nat) (k : SigTask) (sig : Nat) (action : SigAction) (copyFails : Bool) :
    Signals :=
  if copyFails then s.doExitThreadGroup t k
  else s.setTask t { k with blocked := newBlocked k.blocked sig action, popped := none }

def sysSigreturn (s : Signals) (t : Nat) (k : SigTask) (ctxBlocked : Option SigSet) : Signals :=
  match ctxBlocked with
  | none => s.doExitThreadGroup t k
  | some m => s.setTask t { k with blocked := m }

def sysClone (s : Signals) (h tid : Nat) (k : SigTask) (thread shareSighand : Bool) : Signals :=
  let child : SigTask :=
    { tgid := if thread then k.tgid else tid, pgid := k.pgid, blocked := k.blocked, pending := 0,
      sighand := some (if shareSighand then h else s.numSighands), oldMask := none, popped := none }
  (if shareSighand then s else s.newSighand (s.actions h)).setTask tid child

/-! ## Steps -/

inductive Op
  | sigaction (signum : Int) (act : Option (Option SigAction)) (oldFails : Bool)
  | sigprocmask (how : Int) (set : Option (Option SigSet)) (oldFails : Bool)
  | sigsuspend (mask : Option SigSet)
  | leaveSuspend
  | pop
  | handle (copyFails : Bool)
  | sigreturn (ctxBlocked : Option SigSet)
  | clone (tid : Nat) (thread shareSighand : Bool)
  | send (pid : Nat) (signum : Int) (dest : Dest) (excludeCurrent : Bool)
  | exit

def perform (s : Signals) (t h : Nat) (k : SigTask) : Op → Option Signals
  | .sigaction signum act oldFails => some (s.sysSigaction h signum act oldFails).2
  | .sigprocmask how set oldFails => some (s.sysSigprocmask t k how set oldFails).2
  | .sigsuspend mask => some (s.sigsuspendEnter t k mask).2
  | .leaveSuspend => k.oldMask.map fun m => (s.sigsuspendLeave t k m).2
  | .pop => s.popRound t h k
  | .handle copyFails => k.popped.map fun p => s.taskHandleSignal t k p.1 p.2 copyFails
  | .sigreturn ctxBlocked => some (s.sysSigreturn t k ctxBlocked)
  | .clone tid thread share => if s.tasks tid = none then some (s.sysClone h tid k thread share) else none
  | .send pid signum dest excl => some (s.taskSendSignal t pid signum dest excl)
  | .exit => some (s.exit t k)

/-- Blocked in `sys_sigsuspend` a task can only leave it, and a signal that was popped is handled next. -/
def mayPerform (k : SigTask) (op : Op) : Bool :=
  match op with
  | .leaveSuspend => true
  | .handle _ => k.oldMask.isNone
  | _ => k.oldMask.isNone && k.popped.isNone

def exec (s : Signals) (e : Nat × Op) : Option Signals :=
  match s.tasks e.1 with
  | none => none
  | some k =>
    match k.sighand with
    | none => none
    | some h => if mayPerform k e.2 then s.perform e.1 h k e.2 else none

def Step (s : Signals) (e : Nat × Op) (s' : Signals) : Prop := s.exec e = some s'

/-! ## Masks without SIGKILL and SIGSTOP -/

def Clean (m : SigSet) : Prop := m &&& unblockable = 0#32
  deriving Decidable

section
variable {m n : SigSet}

theorem clean_iff : Clean m ↔ ∀ i, unblockable.getLsbD i = true → m.getLsbD i = false := by
  constructor
  · intro h i hi
    have := congrArg (·.getLsbD i) h
    simpa [BitVec.getLsbD_and, hi] using this
  · intro h
    apply BitVec.eq_of_getLsbD_eq
    intro i _
    rw [BitVec.getLsbD_and]
    cases hu : unblockable.getLsbD i with
    | false => simp
    | true => simp [h i hu]

theorem Clean.or (hm : Clean m) (hn : Clean n) : Clean (m ||| n) := by
  rw [clean_iff] at *
  intro i hi
  rw [BitVec.getLsbD_or, hm i hi, hn i hi]
  rfl

theorem Clean.and (hm : Clean m) : Clean (m &&& n) := by
  rw [clean_iff] at *
  intro i hi
  rw [BitVec.getLsbD_and, hm i hi]
  rfl

theorem clean_sanitized (m : SigSet) : Clean (m &&& ~~~unblockable) := by
  rw [clean_iff]
  intro i hi
  rw [BitVec.getLsbD_and, BitVec.getLsbD_not, hi]
  simp

end

def CleanMasks (_ : Signals) (e : Nat × Op) : Prop :=
  match e.2 with
  | .sigsuspend (some m) => Clean m
  | .sigreturn (some m) => Clean m
  | _ => True

instance (s : Signals) (e : Nat × Op) : Decidable (CleanMasks s e) := by
  unfold CleanMasks
  split <;> infer_instance

/-! ## What a step comes to -/

structure CleanTask (k : SigTask) : Prop where
  blocked : Clean k.blocked
  oldMask : ∀ m, k.oldMask = some m → Clean m

def take (k : SigTask) (sig : Nat) : SigTask := { k with pending := k.pending &&& ~~~sigmask sig }

def resetAction (s : Signals) (h sig : Nat) : Signals :=
  if (s.actions h sig).has SA_RESETHAND then s.setAction h sig { s.actions h sig with handler := SIG_DFL } else s

inductive Effect (s : Signals) (t h : Nat) (k : SigTask) : Op → Signals → Prop
  | same {op} : (op = .pop → ffs (k.pending &&& ~~~k.blocked) = 0) → Effect s t h k op s
  | installed {signum : Int} {a oldFails} : 0 < signum → signum ≠ SIGKILL → signum ≠ SIGSTOP →
      (s.sysSigaction h signum (some (some a)) oldFails).1 = .ok () →
      Effect s t h k (.sigaction signum (some (some a)) oldFails) (s.setAction h signum.toNat a)
  | own {op k'} : op ≠ .pop → k'.pending = k.pending → k'.sighand = k.sighand →
      (CleanMasks s (t, op) → CleanTask k → CleanTask k') → Effect s t h k op (s.setTask t k')
  | passed {sig} : ffs (k.pending &&& ~~~k.blocked) = sig → sig ≠ 0 →
      ((s.actions h sig).handler = SIG_IGN ∨ (s.actions h sig).handler = SIG_DFL ∧
        (defaultDisposition sig = .DISP_IGN ∨ defaultDisposition sig = .DISP_CONT)) →
      Effect s t h k .pop (s.setTask t (take k sig))
  | caught {sig} : ffs (k.pending &&& ~~~k.blocked) = sig → sig ≠ 0 → (s.actions h sig).handler ≠ SIG_DFL →
      Effect s t h k .pop ((s.resetAction h sig).setTask t { take k sig with popped := some (sig, s.actions h sig) })
  | killed {sig} : ffs (k.pending &&& ~~~k.blocked) = sig → sig ≠ 0 → (s.actions h sig).handler = SIG_DFL →
      (defaultDisposition sig = .DISP_TERM ∨ defaultDisposition sig = .DISP_CORE) →
      Effect s t h k .pop ((s.setTask t (take k sig)).doExitThreadGroup t (take k sig))
  | ended {op} : op ≠ .pop → Effect s t h k op (s.doExitThreadGroup t k)
  | cloned {tid thread share} : s.tasks tid = none →
      Effect s t h k (.clone tid thread share) (s.sysClone h tid k thread share)
  | sent {pid signum dest excl} :
      Effect s t h k (.send pid signum dest excl) (s.taskSendSignal t pid signum dest excl)
  | exited : Effect s t h k .exit (s.exit t k)

section
variable {s s' : Signals} {t h : Nat} {k : SigTask} {e : Nat × Op}

theorem sysSigaction_cases (s : Signals) (h : Nat) (signum : Int) (act : Option (Option SigAction)) (oldFails : Bool) :
    (s.sysSigaction h signum act oldFails).2 = s ∨
    ∃ a, act = some (some a) ∧ 0 < signum ∧ signum ≠ SIGKILL ∧ signum ≠ SIGSTOP ∧ a.has SA_RESTORER = true ∧
      s.sysSigaction h signum act oldFails = (.ok (), s.setAction h signum.toNat a) := by
  unfold sysSigaction
  split
  · exact .inl rfl
  split
  · exact .inl rfl
  rename_i hra hki
  split
  · exact .inl rfl
  · split
    · exact .inl rfl
    split
    · exact .inl rfl
    rename_i hres _
    rw [not_or] at hki hres
    exact .inr ⟨_, rfl, by omega, hki.1, hki.2, not_not.mp hres.1, rfl⟩
  · split <;> exact .inl rfl

theorem sysSigprocmask_effect {how : Int} {set : Option (Option SigSet)} {oldFails : Bool} :
    Effect s t h k (.sigprocmask how set oldFails) (s.sysSigprocmask t k how set oldFails).2 := by
  unfold sysSigprocmask
  split
  · exact .same nofun
  split
  · exact .same nofun
  · exact .same nofun
  split
  · exact .own nofun rfl rfl fun _ hk => ⟨hk.blocked.or (clean_sanitized _), hk.oldMask⟩
  split
  · exact .own nofun rfl rfl fun _ hk => ⟨hk.blocked.and, hk.oldMask⟩
  split
  · exact .own nofun rfl rfl fun _ hk => ⟨clean_sanitized _, hk.oldMask⟩
  · exact .same nofun

theorem popRound_effect (hp : s.popRound t h k = some s') : Effect s t h k .pop s' := by
  unfold popRound at hp
  dsimp only at hp
  split at hp
  · rename_i h0
    cases hp
    exact .same fun _ => h0
  rename_i hne
  split at hp
  · rename_i hign
    cases hp
    exact .passed rfl hne (.inl hign)
  split at hp
  · rename_i hca
    cases hp
    exact .caught rfl hne hca
  rename_i hdfl
  rw [not_not] at hdfl
  split at hp
  · rename_i hd
    cases hp
    exact .killed rfl hne hdfl (.inl hd)
  · rename_i hd
    cases hp
    exact .killed rfl hne hdfl (.inr hd)
  · rename_i hd
    cases hp
    exact .passed rfl hne (.inr ⟨hdfl, .inl hd⟩)
  · rename_i hd
    cases hp
    exact .passed rfl hne (.inr ⟨hdfl, .inr hd⟩)
  · cases hp

theorem perform_effect {op : Op} (hp : s.perform t h k op = some s') : Effect s t h k op s' := by
  cases op with
  | sigaction signum act oldFails =>
    cases hp
    obtain hsa | ⟨a, rfl, hpos, hki, hst, -, heq⟩ := sysSigaction_cases s h signum act oldFails
    · rw [hsa]
      exact .same nofun
    · rw [heq]
      exact .installed hpos hki hst (by rw [heq])
  | sigprocmask how set oldFails =>
    cases hp
    exact sysSigprocmask_effect
  | sigsuspend mask =>
    cases hp
    cases mask with
    | none => exact .same nofun
    | some m =>
      refine .own nofun rfl rfl fun hok hk => ⟨hok, ?_⟩
      rintro _ ⟨⟩
      exact hk.blocked
  | leaveSuspend =>
    obtain ⟨m, hm, rfl⟩ := Option.map_eq_some_iff.mp hp
    exact .own nofun rfl rfl fun _ hk => ⟨hk.oldMask m hm, nofun⟩
  | pop => exact popRound_effect hp
  | handle copyFails =>
    obtain ⟨p, -, rfl⟩ := Option.map_eq_some_iff.mp hp
    unfold taskHandleSignal
    split
    · exact .ended nofun
    · exact .own nofun rfl rfl fun _ hk => ⟨clean_sanitized _, hk.oldMask⟩
  | sigreturn ctxBlocked =>
    cases hp
    cases ctxBlocked with
    | none => exact .ended nofun
    | some m => exact .own nofun rfl rfl fun hok hk => ⟨hok, hk.oldMask⟩
  | clone tid thread share =>
    unfold perform at hp
    dsimp only at hp
    split at hp
    · rename_i hnew
      cases hp
      exact .cloned hnew
    · cases hp
  | send pid signum dest excl =>
    cases hp
    exact .sent
  | exit =>
    cases hp
    exact .exited

theorem step_effect (hst : Step s e s') :
    ∃ k h, s.tasks e.1 = some k ∧ k.sighand = some h ∧ mayPerform k e.2 = true ∧ Effect s e.1 h k e.2 s' := by
  unfold Step exec at hst
  split at hst
  · cases hst
  · rename_i k hk
    split at hst
    · cases hst
    · rename_i h hh
      split at hst
      · rename_i hmay
        exact ⟨k, h, hk, hh, hmay, perform_effect hst⟩
      · cases hst

end

/-! ## What every step keeps -/

/-- No mask, in use or saved, holds SIGKILL or SIGSTOP, and their actions are the default ones. -/
structure Inv (s : Signals) : Prop where
  masks : ∀ t k, s.tasks t = some k → Clean k.blocked
  saved : ∀ t k m, s.tasks t = some k → k.oldMask = some m → Clean m
  actions : ∀ h sig, sig = SIGKILL ∨ sig = SIGSTOP → (s.actions h sig).handler = SIG_DFL

theorem boot_inv : boot.Inv where
  masks := by
    intro t k h
    unfold boot at h
    dsimp only at h
    split at h
    · cases h
      decide
    · cases h
  saved := by
    intro t k m h hm
    unfold boot at h
    dsimp only at h
    split at h
    · cases h
      cases hm
    · cases h
  actions := fun _ _ _ => rfl

section
variable {s s' : Signals} {t h sig : Nat} {k : SigTask} {a : SigAction}

theorem Inv.setTask (hs : s.Inv) (hb : Clean k.blocked) (ho : ∀ m, k.oldMask = some m → Clean m) :
    (s.setTask t k).Inv where
  masks := by
    intro u j hu
    by_cases hut : u = t
    · subst hut
      rw [show (s.setTask u k).tasks u = some k from update_self ..] at hu
      cases hu
      exact hb
    · rw [show (s.setTask t k).tasks u = s.tasks u from update_of_ne hut ..] at hu
      exact hs.masks u j hu
  saved := by
    intro u j m hu hm
    by_cases hut : u = t
    · subst hut
      rw [show (s.setTask u k).tasks u = some k from update_self ..] at hu
      cases hu
      exact ho m hm
    · rw [show (s.setTask t k).tasks u = s.tasks u from update_of_ne hut ..] at hu
      exact hs.saved u j m hu hm
  actions := hs.actions

theorem setAction_actions (s : Signals) (h sig g sig' : Nat) (a : SigAction) :
    (s.setAction g sig' a).actions h sig = if h = g ∧ sig = sig' then a else s.actions h sig := by
  show update s.actions g _ h sig = _
  by_cases hg : h = g
  · subst hg
    rw [update_self]
    by_cases hs : sig = sig'
    · subst hs
      rw [update_self, if_pos ⟨rfl, rfl⟩]
    · rw [update_of_ne hs, if_neg fun hc => hs hc.2]
  · rw [update_of_ne hg, if_neg fun hc => hg hc.1]

theorem Inv.setAction (hs : s.Inv) (ha : sig = SIGKILL ∨ sig = SIGSTOP → a.handler = SIG_DFL) :
    (s.setAction h sig a).Inv where
  masks := hs.masks
  saved := hs.saved
  actions := by
    intro g sig' hsig
    rw [setAction_actions]
    split
    · rename_i heq
      exact ha (heq.2 ▸ hsig)
    · exact hs.actions g sig' hsig

theorem Inv.newSighand (hs : s.Inv) (h : Nat) : (s.newSighand (s.actions h)).Inv where
  masks := hs.masks
  saved := hs.saved
  actions := by
    intro g sig hsig
    show (update s.actions s.numSighands (s.actions h) g sig).handler = SIG_DFL
    by_cases hg : g = s.numSighands
    · rw [hg, update_self]
      exact hs.actions h sig hsig
    · rw [update_of_ne hg]
      exact hs.actions g sig hsig

theorem doSendSignal_masks :
    (s.doSendSignal k sig).blocked = k.blocked ∧ (s.doSendSignal k sig).oldMask = k.oldMask := by
  unfold doSendSignal
  split
  · exact ⟨rfl, rfl⟩
  · dsimp only
    generalize (match defaultDisposition sig with
      | .DISP_CONT => _
      | .DISP_STOP => _
      | _ => _) = cleared
    split <;> exact ⟨rfl, rfl⟩

theorem Inv.taskSendSignal (hs : s.Inv) {pid : Nat} {signum : Int} {dest : Dest} {excl : Bool} :
    (s.taskSendSignal t pid signum dest excl).Inv := by
  unfold Signals.taskSendSignal
  split
  · exact hs
  · have hta : ∀ u j, ((s.tasks u).map fun k => if dest.hits pid u k && !(excl && u == t) then
          s.doSendSignal k signum.toNat else k) = some j →
        ∃ k, s.tasks u = some k ∧ j.blocked = k.blocked ∧ j.oldMask = k.oldMask := by
      intro u j hj
      obtain ⟨k, hk, rfl⟩ := Option.map_eq_some_iff.mp hj
      refine ⟨k, hk, ?_⟩
      split
      · exact doSendSignal_masks
      · exact ⟨rfl, rfl⟩
    refine ⟨?_, ?_, hs.actions⟩
    · intro u j hj
      obtain ⟨k, hk, hb, -⟩ := hta u j hj
      rw [hb]
      exact hs.masks u k hk
    · intro u j m hj hm
      obtain ⟨k, hk, -, ho⟩ := hta u j hj
      rw [ho] at hm
      exact hs.saved u k m hk hm

theorem Inv.exit (hs : s.Inv) (hb : Clean k.blocked) : (s.exit t k).Inv := hs.setTask hb nofun

theorem Inv.doExitThreadGroup (hs : s.Inv) (hb : Clean k.blocked) : (s.doExitThreadGroup t k).Inv :=
  hs.taskSendSignal.exit hb

theorem Inv.sysClone (hs : s.Inv) (hk : Clean k.blocked) {tid : Nat} {thread share : Bool} :
    (s.sysClone h tid k thread share).Inv := by
  unfold Signals.sysClone
  cases share with
  | true => exact hs.setTask hk nofun
  | false => exact (hs.newSighand h).setTask hk nofun

theorem Inv.effect (hs : s.Inv) (hk : CleanTask k) {op : Op} (hok : CleanMasks s (t, op))
    (he : Effect s t h k op s') : s'.Inv := by
  cases he with
  | same _ => exact hs
  | installed hpos hki hst _ => exact hs.setAction fun hsig => by omega
  | own _ _ _ hcl => exact hs.setTask (hcl hok hk).blocked (hcl hok hk).oldMask
  | passed _ _ _ => exact hs.setTask hk.blocked hk.oldMask
  | caught _ _ _ =>
    refine Inv.setTask ?_ hk.blocked hk.oldMask
    unfold resetAction
    split
    · exact hs.setAction fun _ => rfl
    · exact hs
  | killed _ _ _ _ => exact (hs.setTask (k := take k _) hk.blocked hk.oldMask).doExitThreadGroup hk.blocked
  | ended _ => exact hs.doExitThreadGroup hk.blocked
  | cloned _ => exact hs.sysClone hk.blocked
  | sent => exact hs.taskSendSignal
  | exited => exact hs.exit hk.blocked

theorem Inv.step (hs : s.Inv) {e : Nat × Op} (hst : Step s e s') (hok : CleanMasks s e) : s'.Inv := by
  obtain ⟨k, h, hk, -, -, he⟩ := step_effect hst
  exact hs.effect ⟨hs.masks _ k hk, fun m => hs.saved _ k m hk⟩ hok he

end

def Unblockable (s : Signals) : Prop :=
  ∀ t k, s.tasks t = some k → k.blocked &&& (sigmask SIGKILL ||| sigmask SIGSTOP) = 0#32 ∧
    ∀ h, k.sighand = some h →
      (s.actions h SIGKILL).handler = SIG_DFL ∧ (s.actions h SIGSTOP).handler = SIG_DFL

end Signals

/-- In every run in which no mask given to `sys_sigsuspend` or `sys_sigreturn` holds SIGKILL or SIGSTOP,
neither can be blocked, caught or ignored. -/
theorem unblockable_of_cleanMasks {s : Signals} (hr : Run Signals.Step Signals.CleanMasks Signals.boot s) :
    s.Unblockable := by
  have h : s.Inv := hr.invariant Signals.boot_inv fun _ _ _ hs hst hok => hs.step hst hok
  intro t k hk
  exact ⟨h.masks t k hk, fun g _ => ⟨h.actions g _ (.inl rfl), h.actions g _ (.inr rfl)⟩⟩

theorem unblockable_while_suspended :
    ∃ s, Run Signals.Step Signals.CleanMasks Signals.boot s ∧ ((s.tasks 2).any fun k => k.oldMask.isSome) = true ∧
      s.Unblockable := by
  obtain ⟨s, hr, hs⟩ := exists_follow Signals.exec Signals.CleanMasks
    [(1, .clone 2 false false), (2, .sigprocmask 2 (some (some 0xffffffff)) false), (2, .sigsuspend (some 0))]
    Signals.boot (fun s => ((s.tasks 2).any fun k => k.oldMask.isSome) = true) (by decide +kernel)
  exact ⟨s, hr, hs, unblockable_of_cleanMasks hr⟩

/-- `sys_sigsuspend` stores the user's mask as it is, and so does `sys_sigreturn`: a child blocks SIGKILL
while it waits, or for good. -/
theorem sigkill_blocked_by_user_mask : (∃ s, Run Signals.Step (fun _ _ => True) Signals.boot s ∧ ¬ s.Unblockable ∧
      ((s.tasks 2).any fun k => k.oldMask.isSome) = true) ∧
    ∃ s, Run Signals.Step (fun _ _ => True) Signals.boot s ∧ ¬ s.Unblockable ∧
      ((s.tasks 2).any fun k => k.oldMask.isNone) = true := by
  have bad : ∀ s : Signals, ((s.tasks 2).any fun k => !decide (Signals.Clean k.blocked)) = true → ¬ s.Unblockable := by
    intro s hs hu
    cases hk : s.tasks 2 with
    | none =>
      rw [hk] at hs
      cases hs
    | some k =>
      rw [hk] at hs
      have hcl : Signals.Clean k.blocked := (hu 2 k hk).1
      simp [hcl] at hs
  refine ⟨?_, ?_⟩
  · obtain ⟨s, hr, hs, ho⟩ := exists_follow Signals.exec (fun _ _ => True)
      [(1, .clone 2 false false), (2, .sigsuspend (some 0x100))] Signals.boot
      (fun s => ((s.tasks 2).any fun k => !decide (Signals.Clean k.blocked)) = true ∧
        ((s.tasks 2).any fun k => k.oldMask.isSome) = true) (by decide +kernel)
    exact ⟨s, hr, bad s hs, ho⟩
  · obtain ⟨s, hr, hs, ho⟩ := exists_follow Signals.exec (fun _ _ => True)
      [(1, .clone 2 false false), (2, .sigreturn (some 0x100))] Signals.boot
      (fun s => ((s.tasks 2).any fun k => !decide (Signals.Clean k.blocked)) = true ∧
        ((s.tasks 2).any fun k => k.oldMask.isNone) = true) (by decide +kernel)
    exact ⟨s, hr, bad s hs, ho⟩

end Yagura
