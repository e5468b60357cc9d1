import Yagura.Blocking
import Yagura.Paging
import Yagura.Time

/-!
# Waiting for descriptors

`sys_select` with `poll` and `unblock_poll`. The call compacts its three sets
into an array of `pollfd`s, polls the files of these at once and at each visit
of the scheduler, and expands the result back into the sets. What the files
have ready, and the time, is arbitrary at each look.
-/

namespace Yagura

open Clocks Function Int Nat Prod

namespace Select

/-! ## Events and sets -/

def POLLIN : BitVec 16 := 1
def POLLPRI : BitVec 16 := 2
def POLLOUT : BitVec 16 := 4
def POLLERR : BitVec 16 := 8
def POLLHUP : BitVec 16 := 16
def POLLNVAL : BitVec 16 := 32

inductive Class
  | read | write | except
  deriving DecidableEq

namespace Class

def mask : Class → BitVec 16
  | read => POLLIN ||| POLLERR ||| POLLHUP ||| POLLNVAL
  | write => POLLOUT ||| POLLERR ||| POLLNVAL
  | except => POLLPRI ||| POLLNVAL

def all : List Class := [read, write, except]

theorem mem_all (c : Class) : c ∈ all := by cases c <;> decide

end Class

/-- The events a file has ready. No `poll` operation reports `POLLNVAL`. -/
structure Ready where
  pollin : Bool
  pollpri : Bool
  pollout : Bool
  pollerr : Bool
  pollhup : Bool

def Ready.events (r : Ready) : BitVec 16 :=
  (if r.pollin then POLLIN else 0) ||| (if r.pollpri then POLLPRI else 0) ||| (if r.pollout then POLLOUT else 0) |||
    (if r.pollerr then POLLERR else 0) ||| (if r.pollhup then POLLHUP else 0)

def filePoll (r : Ready) (events : BitVec 16) : BitVec 16 := r.events &&& events

abbrev FdSet := Nat → BitVec 32

def NUM_FD_BITS : Nat := 32

def fdIsset (fd : Nat) (set : FdSet) : Bool := set (fd / NUM_FD_BITS) &&& 1#32 <<< (fd % NUM_FD_BITS) ≠ 0

def fdClr (fd : Nat) (set : FdSet) : FdSet :=
  update set (fd / NUM_FD_BITS) (set (fd / NUM_FD_BITS) &&& ~~~(1#32 <<< (fd % NUM_FD_BITS)))

/-! ## The call -/

structure Pollfd where
  fd : Nat
  events : BitVec 16
  revents : BitVec 16

structure Look where
  ready : Nat → Ready
  uptime : BitVec 32
  resumed : BitVec 32
  interrupted : Bool

structure Timeval where
  tvSec : Int32
  tvUsec : Int32

structure Args where
  nfds : Int32
  sets : Class → Option FdSet
  timeout : Option Timeval

inductive Copy
  | timeoutIn | setIn (c : Class) | timeoutOut | setOut (c : Class)

structure Env where
  /-- Whether `alloc` finds room for that many bytes. -/
  hasRoom : Nat → Bool
  canCopy : Copy → Bool
  isOpen : Nat → Bool
  uptime : BitVec 32

/-- How the call ends: with a fault of the kernel, or with what it returned and left in user memory. -/
inductive Reply
  | fault
  | returned (rc : Except Errno Nat) (sets : Class → Option FdSet) (timeout : Option Timeval)

def Args.n (a : Args) : Nat := a.nfds.toInt.toNat

/-- `time_now(CLOCK_MONOTONIC)`, see `Clocks.timeNow_monotonic`. -/
def monotonic (uptime : BitVec 32) : Timespec := Clocks.shown uptime.toNat

def kmalloc (env : Env) : Nat → Option Nat := kmallocSize env.hasRoom

def numFdLongs (n : Nat) : Nat := (n + (NUM_FD_BITS - 1)) / NUM_FD_BITS

def copiedIn (n : Nat) (user : Option FdSet) : FdSet := fun j =>
  match user with
  | none => 0
  | some set => if j < numFdLongs n then set j else 0

def isPolled (sets : Class → FdSet) (i : Nat) : Bool := Class.all.any fun c => fdIsset i (sets c)

def eventsOf (sets : Class → FdSet) (i : Nat) : BitVec 16 :=
  Class.all.foldl (fun events c => if fdIsset i (sets c) then events ||| c.mask else events) 0

def compact (n : Nat) (sets : Class → FdSet) : List Pollfd :=
  ((List.range n).filter (isPolled sets)).map fun i => ⟨i, eventsOf sets i, 0⟩

inductive Stop
  | fault
  | errno (e : Errno)

def numPollfds (n : Nat) (sets : Class → FdSet) : Nat := (List.range n).countP (isPolled sets)

/-- The part of `sys_select` for `nfds > 0`: the sets and the array for `poll`. -/
def prepare (env : Env) (a : Args) : Except Stop ((Class → FdSet) × List Pollfd) :=
  match kmalloc env (4 * numFdLongs a.n * 3) with
  | none => .error (.errno .ENOMEM)
  | some size =>
    if size < 4 * numFdLongs a.n * 3 then .error .fault
    else if Class.all.any fun c => (a.sets c).isSome && !env.canCopy (.setIn c) then .error (.errno .EFAULT)
    else
      let sets := fun c => copiedIn a.n (a.sets c)
      match kmalloc env (8 * numPollfds a.n sets) with
      | none => .error (.errno .ENOMEM)
      | some size =>
        -- More `pollfd`s are written than there is memory for.
        if size < 8 * numPollfds a.n sets then .error .fault else .ok (sets, compact a.n sets)

/-- `struct poll_blocker`; an entry without a file is that of a closed descriptor. -/
structure PollBlocker where
  pollfds : List (Pollfd × Bool)
  deadline : Option Timespec
  numEvents : Nat

def pollFile (look : Look) (entry : Pollfd × Bool) : Pollfd × Bool :=
  if entry.2 then ({ entry.1 with revents := filePoll (look.ready entry.1.fd) entry.1.events }, true) else entry

def pollFiles (b : PollBlocker) (look : Look) : PollBlocker where
  pollfds := b.pollfds.map (pollFile look)
  deadline := b.deadline
  numEvents := b.numEvents + (b.pollfds.map (pollFile look)).countP fun entry => entry.2 && entry.1.revents != 0

def unblockPoll (b : PollBlocker) (look : Look) : Bool × PollBlocker :=
  let b := pollFiles b look
  if b.numEvents > 0 then (true, b)
  else
    match b.deadline with
    | none => (false, b)
    | some deadline => (decide (0 ≤ timespecCompare (monotonic look.uptime) deadline), b)

def unblockTasks (b : PollBlocker) : List Look → Option (Bool × PollBlocker × Look × List Look)
  | [] => none
  | v :: visits =>
    if v.interrupted then some (true, b, v, visits)
    else
      match unblockPoll b v with
      | (true, b) => some (false, b, v, visits)
      | (false, b) => unblockTasks b visits

/-- `sched_block`; the first component is `current->interrupted`. -/
def schedBlock (b : PollBlocker) (first : Look) (visits : List Look) :
    Option (Bool × PollBlocker × Look × List Look) :=
  match unblockPoll b first with
  | (true, b) => some (false, b, first, visits)
  | (false, b) => unblockTasks b visits

def openFiles (env : Env) (pollfds : List Pollfd) : List (Pollfd × Bool) :=
  pollfds.map fun p =>
    if env.isOpen p.fd then ({ p with revents := 0 }, true) else ({ p with revents := POLLNVAL }, false)

def blockerFor (env : Env) (pollfds : List Pollfd) (timeout : Option Timespec) : PollBlocker where
  pollfds := openFiles env pollfds
  deadline := timeout.map (timespecAdd (monotonic env.uptime))
  numEvents := (openFiles env pollfds).countP (!·.2)

structure Polled where
  ret : Except Errno Nat
  pollfds : List Pollfd
  timeout : Option Timespec

def afterBlock (timeout : Option Timespec) :
    Option (Bool × PollBlocker × Look × List Look) → Option (Polled × List Look)
  | none => none
  | some (true, b, _, visits) => some (⟨.error .EINTR, b.pollfds.map Prod.fst, timeout⟩, visits)
  | some (false, b, look, visits) =>
    some (⟨.ok b.numEvents, b.pollfds.map Prod.fst,
      b.deadline.map fun deadline => timespecSaturatingSub deadline (monotonic look.resumed)⟩, visits)

def timespecOf (tv : Timeval) : Timespec :=
  ⟨(tv.tvSec + tv.tvUsec / 1000000).toInt, tv.tvUsec.toInt.tmod 1000000 * 1000⟩

def timevalOf (ts : Timespec) : Option Timeval :=
  (divmodi64 ts.tvNsec 1000).map fun (q, _) => ⟨Int32.ofInt ts.tvSec, Int32.ofInt q⟩

def clear (sets : Class → FdSet) (p : Pollfd) : Class → FdSet := fun c =>
  if p.revents &&& c.mask = 0 then fdClr p.fd (sets c) else sets c

def numBits (n : Nat) (sets : Class → FdSet) : Nat :=
  ((List.range n).map fun i => Class.all.countP fun c => fdIsset i (sets c)).sum

def copiedOut (n : Nat) (set : FdSet) (user : Option FdSet) : Option FdSet :=
  user.map fun words j => if j < numFdLongs n then set j else words j

def copyOut (env : Env) (a : Args) (sets : Class → FdSet) :
    List Class → (Class → Option FdSet) → Bool × (Class → Option FdSet)
  | [], user => (true, user)
  | c :: cs, user =>
    if (a.sets c).isSome then
      if env.canCopy (.setOut c) then
        copyOut env a sets cs (update user c (copiedOut a.n (sets c) (user c)))
      else (false, user)
    else copyOut env a sets cs user

def answer (env : Env) (a : Args) (sets : Class → FdSet) (p : Polled) (timeout : Option Timeval) : Reply :=
  match p.ret with
  | .error e => .returned (.error e) a.sets timeout
  | .ok _ =>
    let sets := p.pollfds.foldl clear sets
    if a.n = 0 then .returned (.ok (numBits a.n sets)) a.sets timeout
    else
      match copyOut env a sets Class.all a.sets with
      | (true, user) => .returned (.ok (numBits a.n sets)) user timeout
      | (false, user) => .returned (.error .EFAULT) user timeout

def finish (env : Env) (a : Args) (sets : Class → FdSet) (p : Polled) : Reply :=
  if p.pollfds.any fun pollfd => pollfd.revents &&& POLLNVAL != 0 then
    .returned (.error .EBADF) a.sets a.timeout
  else
    match p.timeout, p.ret with
    | some ts, .ok _ | some ts, .error .EINTR =>
      match timevalOf ts with
      | none => .fault
      | some tv =>
        if env.canCopy .timeoutOut then answer env a sets p (some tv)
        else .returned (.error .EFAULT) a.sets a.timeout
    | _, _ => answer env a sets p a.timeout

def pollAndFinish (env : Env) (a : Args) (sets : Class → FdSet) (pollfds : List Pollfd) (first : Look)
    (visits : List Look) : Option (Reply × List Look) :=
  let timeout := a.timeout.map timespecOf
  let block := (afterBlock timeout (schedBlock (blockerFor env pollfds timeout) first visits)).map
    (Prod.map (finish env a sets) id)
  if pollfds = [] then block
  else
    match kmalloc env (4 * pollfds.length) with
    | none => some (finish env a sets ⟨.error .ENOMEM, pollfds, timeout⟩, visits)
    | some size => if size < 4 * pollfds.length then some (.fault, visits) else block

def sysSelect (env : Env) (a : Args) (first : Look) (visits : List Look) : Option (Reply × List Look) :=
  let fail (e : Errno) := some (Reply.returned (.error e) a.sets a.timeout, visits)
  if a.nfds < 0 then fail .EINVAL
  else if a.timeout.isSome ∧ env.canCopy .timeoutIn = false then fail .EFAULT
  else if ∃ tv ∈ a.timeout, tv.tvSec < 0 ∨ tv.tvUsec < 0 then fail .EINVAL
  else if a.n = 0 then pollAndFinish env a (fun _ _ => 0) [] first visits
  else
    match prepare env a with
    | .error .fault => some (.fault, visits)
    | .error (.errno e) => fail e
    | .ok (sets, pollfds) => pollAndFinish env a sets pollfds first visits

/-! ## The contract -/

section
variable (env : Env) (a : Args)

def selected (c : Class) (i : Nat) : Bool := decide (i < a.n) && (a.sets c).any (fdIsset i)

def isReady (v : Look) (c : Class) (i : Nat) : Bool := (v.ready i).events &&& c.mask != 0

def AllOpen : Prop := ∀ c i, selected a c i = true → env.isOpen i = true

def SomeReady (v : Look) : Prop := ∃ c i, selected a c i = true ∧ isReady v c i = true

def Timeval.nanos (tv : Timeval) : Int := tv.tvSec.toInt * NANOS + tv.tvUsec.toInt * 1000

def Elapsed (v : Look) : Prop :=
  ∃ tv ∈ a.timeout, Clocks.nanos (monotonic env.uptime) + tv.nanos ≤ Clocks.nanos (monotonic v.uptime)

def Valid : Prop := 0 ≤ a.nfds ∧ ∀ tv ∈ a.timeout, 0 ≤ tv.tvSec ∧ 0 ≤ tv.tvUsec
  deriving Decidable

def Answers (v : Look) (out : Class → Option FdSet) : Prop :=
  ∀ c, (out c).isSome = (a.sets c).isSome ∧
    ∀ i, (out c).any (fdIsset i) = ((a.sets c).any (fdIsset i) && (decide (a.n ≤ i) || isReady v c i))

def countBits (out : Class → Option FdSet) : Nat :=
  ((List.range a.n).map fun i => Class.all.countP fun c => (out c).any (fdIsset i)).sum

def numSelected : Nat := (List.range a.n).countP fun i => Class.all.any fun c => selected a c i

def Refused (size : Nat) : Prop := 2 ^ 32 - 4096 < size ∨ env.hasRoom (roundUp size) = false

def NoMemory : Prop :=
  (0 < a.n ∧ Refused env (4 * numFdLongs a.n * 3)) ∨
    (0 < numSelected a ∧ (Refused env (8 * numSelected a) ∨ Refused env (4 * numSelected a)))

def BadIn : Prop := ∃ c, (a.sets c).isSome = true ∧ env.canCopy (.setIn c) = false

def BadOut : Prop :=
  (a.timeout.isSome = true ∧ env.canCopy .timeoutOut = false) ∨
    (0 < a.n ∧ ∃ c, (a.sets c).isSome = true ∧ env.canCopy (.setOut c) = false)

def BadPointer : Prop :=
  (a.timeout.isSome = true ∧ env.canCopy .timeoutIn = false) ∨ (0 < a.n ∧ BadIn env a) ∨ BadOut env a

inductive MayReply (v : Look) : Option Reply → Prop
  | invalid : ¬ Valid a → MayReply v (some (.returned (.error .EINVAL) a.sets a.timeout))
  | noMemory : NoMemory env a → MayReply v (some (.returned (.error .ENOMEM) a.sets a.timeout))
  | badPointer {sets timeout} : BadPointer env a → MayReply v (some (.returned (.error .EFAULT) sets timeout))
  | badFd : Valid a → ¬ AllOpen env a → MayReply v (some (.returned (.error .EBADF) a.sets a.timeout))
  | answer {out timeout} : Valid a → AllOpen env a → SomeReady a v ∨ Elapsed env a v → Answers a v out →
      MayReply v (some (.returned (.ok (countBits a out)) out timeout))
  | wait : Valid a → AllOpen env a → ¬ SomeReady a v → ¬ Elapsed env a v → MayReply v none

variable {env a} in
theorem MayReply.elapsed {v : Look} {out : Class → Option FdSet} {timeout : Option Timeval}
    (h : MayReply env a v (some (.returned (.ok 0) out timeout))) : Elapsed env a v := by
  generalize hk : 0 = k at h
  cases h with
  | answer _ _ hwhy hout =>
    refine hwhy.resolve_left ?_
    rintro ⟨c, i, hsel, hre⟩
    obtain ⟨hi, hset⟩ := Bool.and_eq_true_iff.mp hsel
    have hbit : (out c).any (fdIsset i) = true := by rw [(hout c).2 i, hset, hre, Bool.or_true, Bool.and_true]
    have hze := List.sum_eq_zero_iff.mp hk.symm _
      (List.mem_map_of_mem (List.mem_range.mpr (of_decide_eq_true hi)))
    exact List.countP_eq_zero.mp hze c c.mem_all hbit

def interruptedBy (v : Look) : Option Reply :=
  if v.interrupted then
    some <| match a.timeout with
      | none => .returned (.error .EINTR) a.sets none
      | some tv =>
        if env.canCopy .timeoutOut then .returned (.error .EINTR) a.sets (timevalOf (timespecOf tv))
        else .returned (.error .EFAULT) a.sets a.timeout
  else none

def Permits (first : Look) (visits : List Look) (o : Option (Reply × List Look)) : Prop :=
  Allowed (MayReply env a) (interruptedBy env a) first visits o

/-! ## When the call keeps it -/

def Overflows : Prop := ∃ tv ∈ a.timeout, 2 ^ 31 ≤ tv.tvSec.toInt + tv.tvUsec.toInt / 1000000

def FilesFail : Prop := 0 < numSelected a ∧ kmalloc env (4 * numSelected a) = none
  deriving Decidable

/-- A timeout that overflows is over at once, which does not matter if the call does not come to wait for it. -/
def LookFits (v : Look) : Prop :=
  Overflows a → ¬ AllOpen env a ∨ SomeReady a v ∨ FilesFail env a ∨ BadOut env a

def Waits (v : Look) : Prop :=
  AllOpen env a ∧ ¬ SomeReady a v ∧ ¬ Elapsed env a v ∧ ¬ Overflows a ∧ ¬ FilesFail env a

def Entered : Prop := Valid a ∧ (a.timeout.isSome = true → env.canCopy .timeoutIn = true)
  deriving Decidable

def InFails : Prop := kmalloc env (4 * numFdLongs a.n * 3) = none ∨ BadIn env a

/-- Some bit is set unless `nfds` is 0, the array for `poll` fits into the memory that was allocated for it, and each
look fits. -/
def Fits (first : Look) (visits : List Look) : Prop :=
  Entered env a →
    (0 < a.n → InFails env a ∨ 0 < numSelected a) ∧
    (¬ (0 < a.n ∧ (InFails env a ∨ kmalloc env (8 * numSelected a) = none)) →
      (∀ size, kmalloc env (8 * numSelected a) = some size → 8 * numSelected a ≤ size) ∧
      LooksFit (LookFits env a) (Waits env a) (interruptedBy env a) first visits)

end

/-! ## Bits of the sets -/

section
variable {env : Env} {a : Args} {v : Look} {set : FdSet} {sets : Class → FdSet} {i j n : Nat} {c : Class}
  {tv : Timeval} {b : PollBlocker} {size : Nat}

theorem fdIsset_eq (i : Nat) (set : FdSet) : fdIsset i set = (set (i / NUM_FD_BITS)).getLsbD (i % NUM_FD_BITS) := by
  have hlt : i % NUM_FD_BITS < 32 := mod_lt _ (by decide)
  unfold fdIsset
  generalize set (i / NUM_FD_BITS) = w
  generalize i % NUM_FD_BITS = k at hlt
  rw [← BitVec.twoPow_eq, BitVec.and_twoPow]
  cases w.getLsbD k with
  | false => simp
  | true =>
    have hne : BitVec.twoPow 32 k ≠ 0#32 := by
      intro h
      have hbit := congrArg (BitVec.getLsbD · k) h
      simp [hlt] at hbit
    simpa using hne

theorem fdIsset_fdClr : fdIsset i (fdClr j set) = (fdIsset i set && decide (i ≠ j)) := by
  have hlt : i % NUM_FD_BITS < 32 := mod_lt _ (by decide)
  have hdiv := div_add_mod i NUM_FD_BITS
  have hdiv' := div_add_mod j NUM_FD_BITS
  rw [fdIsset_eq, fdIsset_eq, fdClr]
  by_cases hwo : i / NUM_FD_BITS = j / NUM_FD_BITS
  · rw [hwo, update_self, ← BitVec.twoPow_eq, BitVec.getLsbD_and, BitVec.getLsbD_not, BitVec.getLsbD_twoPow]
    by_cases hij : i = j
    · subst hij
      simp [hlt]
    · have hbit : j % NUM_FD_BITS ≠ i % NUM_FD_BITS := fun h => hij (by rw [← hdiv, ← hdiv', hwo, h])
      simp [hlt, hbit, hij]
  · rw [update_of_ne hwo]
    have hij : i ≠ j := fun h => hwo (by rw [h])
    simp [hij]

theorem fdIsset_zero : fdIsset i (fun _ => 0) = false := by
  rw [fdIsset_eq]
  exact BitVec.getLsbD_zero

theorem word_copied (h : i < n) : i / NUM_FD_BITS < numFdLongs n := by
  unfold numFdLongs NUM_FD_BITS
  omega

theorem word_not_copied (h : ¬ i / NUM_FD_BITS < numFdLongs n) : n ≤ i := by
  unfold numFdLongs NUM_FD_BITS at h
  omega

theorem fdIsset_copiedIn_word (h : i / NUM_FD_BITS < numFdLongs n) (user : Option FdSet) :
    fdIsset i (copiedIn n user) = user.any (fdIsset i) := by
  cases user with
  | none => exact fdIsset_zero
  | some set =>
    rw [Option.any_some, fdIsset_eq, fdIsset_eq]
    show (if i / NUM_FD_BITS < numFdLongs n then set (i / NUM_FD_BITS) else 0).getLsbD _ = _
    rw [if_pos h]

theorem fdIsset_copiedIn (h : i < n) (user : Option FdSet) :
    fdIsset i (copiedIn n user) = user.any (fdIsset i) := fdIsset_copiedIn_word (word_copied h) user

theorem getLsbD_eventsOf (k : Nat) :
    (eventsOf sets i).getLsbD k = Class.all.any fun c => fdIsset i (sets c) && c.mask.getLsbD k := by
  simp only [eventsOf, Class.all, List.foldl_cons, List.foldl_nil, List.any_cons, List.any_nil, Bool.or_false]
  cases fdIsset i (sets .read) <;> cases fdIsset i (sets .write) <;> cases fdIsset i (sets .except) <;>
    simp [BitVec.getLsbD_or, Bool.or_assoc]

theorem getLsbD_mask_le_eventsOf {k : Nat} (h : fdIsset i (sets c) = true) (hk : c.mask.getLsbD k = true) :
    (eventsOf sets i).getLsbD k = true := by
  rw [getLsbD_eventsOf, List.any_eq_true]
  exact ⟨c, c.mem_all, by rw [h, hk]; rfl⟩

theorem and_eventsOf_and_mask (h : fdIsset i (sets c) = true) (e : BitVec 16) :
    e &&& eventsOf sets i &&& c.mask = e &&& c.mask := by
  apply BitVec.eq_of_getLsbD_eq
  intro k _
  simp only [BitVec.getLsbD_and]
  cases hk : c.mask.getLsbD k with
  | false => simp
  | true => rw [getLsbD_mask_le_eventsOf h hk, Bool.and_true]

theorem and_eventsOf_ne_zero (e : BitVec 16) :
    e &&& eventsOf sets i ≠ 0 ↔ ∃ c, fdIsset i (sets c) = true ∧ e &&& c.mask ≠ 0 := by
  constructor
  · intro h
    by_contra hno
    push Not at hno
    apply h
    apply BitVec.eq_of_getLsbD_eq
    intro k _
    show _ = BitVec.getLsbD 0#16 k
    rw [BitVec.getLsbD_and, getLsbD_eventsOf, BitVec.getLsbD_zero, Bool.and_eq_false_iff]
    by_contra hbit
    rw [not_or, Bool.not_eq_false, Bool.not_eq_false, List.any_eq_true] at hbit
    obtain ⟨he, c, -, hc⟩ := hbit
    rw [Bool.and_eq_true] at hc
    have hze := congrArg (BitVec.getLsbD · k) (hno c hc.1)
    simp [he, hc.2] at hze
  · rintro ⟨c, hc, hne⟩ hze
    rw [← and_eventsOf_and_mask hc, hze] at hne
    exact hne (BitVec.zero_and)

/-! ## The array for `poll` -/

def kernelSets (a : Args) : Class → FdSet := fun c => copiedIn a.n (a.sets c)

def polled (a : Args) : List Nat := (List.range a.n).filter (isPolled (kernelSets a))

theorem fdIsset_kernelSets (h : i < a.n) : fdIsset i (kernelSets a c) = selected a c i := by
  rw [kernelSets, fdIsset_copiedIn h, selected, decide_eq_true h, Bool.true_and]

theorem isPolled_kernelSets (h : i < a.n) : isPolled (kernelSets a) i = Class.all.any fun c => selected a c i := by
  simp only [isPolled, fdIsset_kernelSets h]

theorem mem_polled : i ∈ polled a ↔ ∃ c, selected a c i = true := by
  rw [polled, List.mem_filter, List.mem_range]
  constructor
  · rintro ⟨hlt, hp⟩
    rw [isPolled_kernelSets hlt, List.any_eq_true] at hp
    obtain ⟨c, -, hc⟩ := hp
    exact ⟨c, hc⟩
  · rintro ⟨c, hc⟩
    have hlt : i < a.n := of_decide_eq_true (Bool.and_eq_true_iff.mp hc).1
    rw [isPolled_kernelSets hlt, List.any_eq_true]
    exact ⟨hlt, c, c.mem_all, hc⟩

theorem numPollfds_eq : numPollfds a.n (kernelSets a) = numSelected a :=
  List.countP_congr fun _ hi => by rw [isPolled_kernelSets (List.mem_range.mp hi)]

theorem length_polled : (polled a).length = numSelected a := by
  rw [← numPollfds_eq, numPollfds, List.countP_eq_length_filter, polled]

theorem compact_eq : compact a.n (kernelSets a) = (polled a).map fun i => ⟨i, eventsOf (kernelSets a) i, 0⟩ := rfl

theorem length_compact : (compact a.n (kernelSets a)).length = numSelected a := by
  rw [compact_eq, List.length_map, length_polled]

def entryOf (env : Env) (a : Args) (v : Look) (i : Nat) : Pollfd × Bool :=
  if env.isOpen i then
    (⟨i, eventsOf (kernelSets a) i, filePoll (v.ready i) (eventsOf (kernelSets a) i)⟩, true)
  else (⟨i, eventsOf (kernelSets a) i, POLLNVAL⟩, false)

def blocker (env : Env) (a : Args) : PollBlocker :=
  blockerFor env (compact a.n (kernelSets a)) (a.timeout.map timespecOf)

theorem blocker_pollfds (v : Look) : (blocker env a).pollfds.map (pollFile v) = (polled a).map (entryOf env a v) := by
  simp only [blocker, blockerFor, openFiles, compact_eq, List.map_map]
  refine List.map_congr_left fun i _ => ?_
  simp only [Function.comp, entryOf]
  split <;> rfl

theorem allOpen_iff : AllOpen env a ↔ ∀ i ∈ polled a, env.isOpen i = true := by
  constructor
  · intro h i hi
    obtain ⟨c, hc⟩ := mem_polled.mp hi
    exact h c i hc
  · exact fun h c i hc => h i (mem_polled.mpr ⟨c, hc⟩)

theorem filePoll_ne_zero (hi : i < a.n) :
    filePoll (v.ready i) (eventsOf (kernelSets a) i) ≠ 0 ↔ ∃ c, selected a c i = true ∧ isReady v c i = true := by
  rw [filePoll, and_eventsOf_ne_zero]
  simp only [fdIsset_kernelSets hi, isReady, bne_iff_ne]

theorem lt_of_mem_polled (h : i ∈ polled a) : i < a.n := List.mem_range.mp (List.mem_filter.mp h).1

theorem blocker_numEvents : (blocker env a).numEvents = (polled a).countP fun i => !env.isOpen i := by
  simp only [blocker, blockerFor, openFiles, compact_eq, List.map_map, List.countP_map]
  refine List.countP_congr fun i _ => ?_
  simp only [Function.comp]
  cases env.isOpen i <;> rfl

theorem blocker_numEvents_pos : 0 < (blocker env a).numEvents ↔ ¬ AllOpen env a := by
  rw [blocker_numEvents, List.countP_pos_iff, allOpen_iff]
  simp

def numReady (env : Env) (a : Args) (v : Look) : Nat :=
  ((polled a).map (entryOf env a v)).countP fun entry => entry.2 && entry.1.revents != 0

theorem numReady_pos (h : AllOpen env a) : 0 < numReady env a v ↔ SomeReady a v := by
  rw [numReady, List.countP_map, List.countP_pos_iff]
  constructor
  · rintro ⟨i, hi, hr⟩
    simp only [Function.comp, entryOf, allOpen_iff.mp h i hi, if_true, Bool.true_and, bne_iff_ne] at hr
    obtain ⟨c, hc, hre⟩ := (filePoll_ne_zero (lt_of_mem_polled hi)).mp hr
    exact ⟨c, i, hc, hre⟩
  · rintro ⟨c, i, hc, hre⟩
    have hi : i ∈ polled a := mem_polled.mpr ⟨c, hc⟩
    refine ⟨i, hi, ?_⟩
    simp only [Function.comp, entryOf, allOpen_iff.mp h i hi, if_true, Bool.true_and, bne_iff_ne]
    exact (filePoll_ne_zero (lt_of_mem_polled hi)).mpr ⟨c, hc, hre⟩

/-! ## One look -/

def Expired (env : Env) (a : Args) (v : Look) : Prop :=
  ∃ deadline ∈ (blocker env a).deadline, 0 ≤ timespecCompare (monotonic v.uptime) deadline

def lookedAt (env : Env) (a : Args) (v : Look) : PollBlocker where
  pollfds := (polled a).map (entryOf env a v)
  deadline := (blocker env a).deadline
  numEvents := (blocker env a).numEvents + numReady env a v

theorem pollFiles_blocker (v : Look) : pollFiles (blocker env a) v = lookedAt env a v := by
  unfold pollFiles
  rw [blocker_pollfds]
  rfl

theorem unblockPoll_eq (b : PollBlocker) (v : Look) : unblockPoll b v =
    (decide (0 < (pollFiles b v).numEvents) || b.deadline.any fun deadline =>
      decide (0 ≤ timespecCompare (monotonic v.uptime) deadline), pollFiles b v) := by
  unfold unblockPoll
  dsimp only
  split_ifs with h
  · rw [decide_eq_true h]
    rfl
  · rw [decide_eq_false h, show (pollFiles b v).deadline = b.deadline from rfl]
    cases b.deadline <;> rfl

theorem lookedAt_numEvents_pos : 0 < (lookedAt env a v).numEvents ↔ ¬ AllOpen env a ∨ SomeReady a v := by
  show 0 < (blocker env a).numEvents + numReady env a v ↔ _
  by_cases hopen : AllOpen env a
  · have hze : (blocker env a).numEvents = 0 :=
      Nat.eq_zero_of_not_pos fun h => blocker_numEvents_pos.mp h hopen
    rw [hze, Nat.zero_add, numReady_pos hopen]
    exact (or_iff_right (not_not.mpr hopen)).symm
  · exact iff_of_true (Nat.add_pos_left (blocker_numEvents_pos.mpr hopen) _) (.inl hopen)

theorem unblockPoll_snd (v : Look) : (unblockPoll (blocker env a) v).2 = lookedAt env a v := by
  rw [unblockPoll_eq, pollFiles_blocker]

theorem unblockPoll_fst (v : Look) : (unblockPoll (blocker env a) v).1 = true ↔
    ¬ AllOpen env a ∨ SomeReady a v ∨ Expired env a v := by
  rw [unblockPoll_eq, pollFiles_blocker, Bool.or_eq_true, decide_eq_true_iff, lookedAt_numEvents_pos, or_assoc]
  simp only [Expired, Option.any_eq_true, decide_eq_true_eq, Option.mem_def]

theorem unblockPoll_again (h : (unblockPoll b v).1 = false) (w : Look) :
    unblockPoll (unblockPoll b v).2 w = unblockPoll b w := by
  have hmap : (b.pollfds.map (pollFile v)).map (pollFile w) = b.pollfds.map (pollFile w) := by
    rw [List.map_map]
    refine List.map_congr_left fun entry _ => ?_
    obtain ⟨p, file⟩ := entry
    cases file <;> rfl
  rw [unblockPoll_eq, Bool.or_eq_false_iff, decide_eq_false_iff_not] at h
  have hze : (pollFiles b v).numEvents = 0 := Nat.eq_zero_of_not_pos h.1
  have hze' : b.numEvents = 0 := (Nat.add_eq_zero_iff.mp hze).1
  have hfi : pollFiles (pollFiles b v) w = pollFiles b w := by
    unfold pollFiles at hze ⊢
    rw [hze, hmap, hze']
  rw [unblockPoll_eq b v, unblockPoll_eq b w]
  rw [unblockPoll_eq, hfi]
  rfl

/-! ## The deadline -/

def Timeval.Nonneg (tv : Timeval) : Prop := 0 ≤ tv.tvSec ∧ 0 ≤ tv.tvUsec

theorem Timeval.Nonneg.toInt (h : tv.Nonneg) : 0 ≤ tv.tvSec.toInt ∧ 0 ≤ tv.tvUsec.toInt :=
  ⟨Int32.le_iff_toInt_le.mp h.1, Int32.le_iff_toInt_le.mp h.2⟩

theorem timespecOf_tvSec (h : tv.Nonneg) :
    (timespecOf tv).tvSec = bmod (tv.tvSec.toInt + tv.tvUsec.toInt / 1000000) (2 ^ 32) := by
  have hus := h.toInt.2
  have hlt := tv.tvUsec.toInt_lt
  have hdiv : (tv.tvUsec / 1000000).toInt = tv.tvUsec.toInt / 1000000 := by
    rw [Int32.toInt_div, show (1000000 : Int32).toInt = 1000000 from rfl, tdiv_eq_ediv_of_nonneg hus]
    exact bmod_eq_of_le (by omega) (by omega)
  show (tv.tvSec + tv.tvUsec / 1000000).toInt = _
  rw [Int32.toInt_add, hdiv]

theorem timespecOf_tvNsec (h : tv.Nonneg) : (timespecOf tv).tvNsec = tv.tvUsec.toInt % 1000000 * 1000 := by
  show tv.tvUsec.toInt.tmod 1000000 * 1000 = _
  rw [tmod_eq_emod_of_nonneg h.toInt.2]

theorem fraction_timespecOf (h : tv.Nonneg) : Clocks.Timespec.Fraction (timespecOf tv) := by
  unfold Clocks.Timespec.Fraction
  rw [timespecOf_tvNsec h]
  unfold NANOS
  omega

theorem monotonic_tvSec (t : BitVec 32) : 0 ≤ (monotonic t).tvSec ∧ (monotonic t).tvSec < 2 ^ 25 := by
  unfold monotonic shown CLK_TCK
  dsimp only
  omega

theorem fraction_monotonic (t : BitVec 32) : Clocks.Timespec.Fraction (monotonic t) := fraction_shown _

theorem deadline_spec (h : tv.Nonneg) (t : BitVec 32) :
    Clocks.Timespec.Fraction (timespecAdd (monotonic t) (timespecOf tv)) ∧
      nanos (timespecAdd (monotonic t) (timespecOf tv)) =
        nanos (monotonic t) + nanos (timespecOf tv) := by
  have hmo := monotonic_tvSec t
  have hle := le_bmod (x := tv.tvSec.toInt + tv.tvUsec.toInt / 1000000) (m := 2 ^ 32) (by decide)
  have hlt := bmod_lt (x := tv.tvSec.toInt + tv.tvUsec.toInt / 1000000) (m := 2 ^ 32) (by decide)
  rw [← timespecOf_tvSec h] at hle hlt
  apply timespecAdd_spec (fraction_monotonic t) (fraction_timespecOf h)
  · omega
  · omega

theorem expired_iff_nanos (h : tv.Nonneg) (ht : a.timeout = some tv) : Expired env a v ↔
      nanos (monotonic env.uptime) + nanos (timespecOf tv) ≤ nanos (monotonic v.uptime) := by
  have hde : (blocker env a).deadline = some (timespecAdd (monotonic env.uptime) (timespecOf tv)) := by
    simp only [blocker, blockerFor, ht, Option.map_some]
  obtain ⟨hfr, hna⟩ := deadline_spec h env.uptime
  rw [Expired, hde]
  simp only [Option.mem_some_iff, exists_eq_left']
  rw [compare_of_nanos hfr (fraction_monotonic _), hna]

theorem nanos_monotonic (t : BitVec 32) : 0 ≤ nanos (monotonic t) ∧
    nanos (monotonic t) < 2 ^ 25 * NANOS := by
  have hsec := monotonic_tvSec t
  have hfr := fraction_monotonic t
  unfold Clocks.Timespec.Fraction at hfr
  unfold nanos NANOS at *
  omega

theorem overflows_iff (ht : a.timeout = some tv) :
    Overflows a ↔ 2 ^ 31 ≤ tv.tvSec.toInt + tv.tvUsec.toInt / 1000000 := by
  simp [Overflows, ht]

theorem elapsed_iff (ht : a.timeout = some tv) : Elapsed env a v ↔
    nanos (monotonic env.uptime) + tv.nanos ≤ nanos (monotonic v.uptime) := by
  simp [Elapsed, ht]

/-- The seconds of a timeout that overflows come out negative. -/
theorem expired_iff (h : ∀ tv ∈ a.timeout, tv.Nonneg) : Expired env a v ↔ Elapsed env a v ∨ Overflows a := by
  cases ht : a.timeout with
  | none => simp [Expired, Elapsed, Overflows, blocker, blockerFor, ht]
  | some tv =>
    have hnn := h tv ht
    have hsec := timespecOf_tvSec hnn
    have hns := timespecOf_tvNsec hnn
    have hpos := hnn.toInt
    have hlt := tv.tvSec.toInt_lt
    have hlt' := tv.tvUsec.toInt_lt
    have hnow := nanos_monotonic env.uptime
    have hla := nanos_monotonic v.uptime
    rw [expired_iff_nanos hnn ht, elapsed_iff ht, overflows_iff ht]
    generalize nanos (monotonic env.uptime) = now at *
    generalize nanos (monotonic v.uptime) = later at *
    unfold nanos Timeval.nanos NANOS at *
    by_cases hov : 2 ^ 31 ≤ tv.tvSec.toInt + tv.tvUsec.toInt / 1000000
    · have hneg : (timespecOf tv).tvSec = tv.tvSec.toInt + tv.tvUsec.toInt / 1000000 - 2 ^ 32 := by
        rw [hsec, ← sub_bmod_right]
        exact bmod_eq_of_le (by omega) (by omega)
      refine iff_of_true ?_ (.inr hov)
      omega
    · rw [bmod_eq_of_le (by omega) (by omega)] at hsec
      constructor <;> intro hle <;> omega

theorem not_elapsed (hov : Overflows a) : ¬ Elapsed env a v := by
  obtain ⟨tv, ht, hsum⟩ := hov
  have hnow := nanos_monotonic env.uptime
  have hla := nanos_monotonic v.uptime
  rw [elapsed_iff ht]
  unfold Timeval.nanos NANOS at *
  omega

/-! ## What the call answers -/

theorem timevalOf_fraction {ts : Timespec} (h : Clocks.Timespec.Fraction ts) : ∃ tv, timevalOf ts = some tv := by
  unfold Clocks.Timespec.Fraction NANOS at h
  unfold timevalOf divmodi64
  have hdiv : ts.tvNsec.tdiv 1000 = ts.tvNsec / 1000 := tdiv_eq_ediv_of_nonneg h.1
  rw [hdiv, if_neg (by omega)]
  exact ⟨_, rfl⟩

theorem fdIsset_clear (ps : List Pollfd) : fdIsset i (ps.foldl clear sets c) =
    (fdIsset i (sets c) && ps.all fun p => p.fd != i || p.revents &&& c.mask != 0) := by
  induction ps generalizing sets with
  | nil => simp
  | cons p ps ih =>
    rw [List.foldl_cons, ih, List.all_cons, ← Bool.and_assoc]
    congr 1
    unfold clear
    split_ifs with hr
    · rw [fdIsset_fdClr, hr, bne_self_eq_false, Bool.or_false]
      congr 1
      rw [Bool.eq_iff_iff, decide_eq_true_iff, bne_iff_ne]
      exact ne_comm
    · rw [bne_iff_ne.mpr hr, Bool.or_true, Bool.and_true]

theorem nval_entry_iff : ((entryOf env a v i).1.revents &&& POLLNVAL != 0) = !env.isOpen i := by
  have hre : (v.ready i).events &&& POLLNVAL = 0 := by
    obtain ⟨a, b, c, d, e⟩ := v.ready i
    revert a b c d e
    decide
  unfold entryOf
  cases env.isOpen i with
  | false =>
    show (POLLNVAL &&& POLLNVAL != 0) = true
    decide
  | true =>
    simp only [if_true, filePoll, Bool.not_true, bne_eq_false_iff_eq]
    rw [BitVec.and_assoc, BitVec.and_comm (eventsOf _ _), ← BitVec.and_assoc, hre]
    exact BitVec.zero_and

theorem any_nval_iff (v : Look) :
    (((lookedAt env a v).pollfds.map fst).any fun p => p.revents &&& POLLNVAL != 0) = true ↔
      ¬ AllOpen env a := by
  rw [allOpen_iff]
  simp only [lookedAt, List.any_map, List.any_eq_true, Function.comp, nval_entry_iff]
  simp

theorem fdIsset_answer (hopen : AllOpen env a) (v : Look) (c : Class) (i : Nat) :
    fdIsset i (((lookedAt env a v).pollfds.map fst).foldl clear (kernelSets a) c) =
      (fdIsset i (kernelSets a c) && (decide (a.n ≤ i) || isReady v c i)) := by
  rw [fdIsset_clear]
  cases hset : fdIsset i (kernelSets a c) with
  | false => rfl
  | true =>
    have hen {k : Nat} (hk : k ∈ polled a) : (entryOf env a v k).1 =
        ⟨k, eventsOf (kernelSets a) k, filePoll (v.ready k) (eventsOf (kernelSets a) k)⟩ := by
      rw [entryOf, if_pos (allOpen_iff.mp hopen k hk)]
    rw [Bool.true_and, Bool.true_and, Bool.eq_iff_iff]
    simp only [lookedAt, List.all_map, List.all_eq_true, Function.comp, Bool.or_eq_true, bne_iff_ne,
      decide_eq_true_eq]
    by_cases hi : i < a.n
    · have hmem : i ∈ polled a := mem_polled.mpr ⟨c, by rw [← fdIsset_kernelSets hi, hset]⟩
      have hbi : (entryOf env a v i).1.revents &&& c.mask = (v.ready i).events &&& c.mask := by
        rw [hen hmem]
        exact and_eventsOf_and_mask hset _
      rw [or_iff_right (not_le.mpr hi), isReady, bne_iff_ne, ← hbi]
      constructor
      · intro h
        refine (h i hmem).resolve_left ?_
        rw [hen hmem]
        exact fun hne => hne rfl
      · intro h k hk
        by_cases hki : k = i
        · exact .inr (hki ▸ h)
        · rw [hen hk]
          exact .inl hki
    · refine iff_of_true (fun k hk => .inl ?_) (.inl (not_lt.mp hi))
      rw [hen hk]
      exact fun hki : k = i => hi (hki ▸ lt_of_mem_polled hk)

def output (env : Env) (a : Args) (v : Look) : Class → Option FdSet := fun c =>
  copiedOut a.n (((lookedAt env a v).pollfds.map Prod.fst).foldl clear (kernelSets a) c) (a.sets c)

theorem any_copiedOut (user : Option FdSet) (set : FdSet) : (copiedOut n set user).any (fdIsset i) =
    (user.isSome && if i / NUM_FD_BITS < numFdLongs n then fdIsset i set else user.any (fdIsset i)) := by
  cases user with
  | none => rfl
  | some words =>
    simp only [copiedOut, Option.map_some, Option.any_some, Option.isSome_some, Bool.true_and, fdIsset_eq]
    split_ifs <;> rfl

theorem answers_output (hopen : AllOpen env a) (v : Look) : Answers a v (output env a v) := by
  intro c
  refine ⟨Option.isSome_map, fun i => ?_⟩
  rw [output, any_copiedOut, fdIsset_answer hopen]
  cases ha : a.sets c with
  | none => rfl
  | some set =>
    rw [Option.isSome_some, Bool.true_and]
    split_ifs with hwo
    · rw [kernelSets, fdIsset_copiedIn_word hwo, ha]
    · rw [decide_eq_true (word_not_copied hwo), Bool.true_or, Bool.and_true]

theorem numBits_answer (hopen : AllOpen env a) (v : Look) :
    numBits a.n (((lookedAt env a v).pollfds.map fst).foldl clear (kernelSets a)) =
      countBits a (output env a v) := by
  unfold numBits countBits
  congr 1
  refine List.map_congr_left fun i hi => List.countP_congr fun c _ => ?_
  rw [fdIsset_answer hopen, (answers_output hopen v c).2 i, kernelSets, fdIsset_copiedIn (List.mem_range.mp hi)]

theorem copyOut_eq (cs : List Class) (hcs : cs.Nodup) (user : Class → Option FdSet)
    (hus : ∀ c ∈ cs, user c = a.sets c)
    (h : ∀ c, (a.sets c).isSome = true → env.canCopy (.setOut c) = true) :
    copyOut env a sets cs user = (true, fun c => if c ∈ cs then copiedOut a.n (sets c) (a.sets c) else user c) := by
  induction cs generalizing user with
  | nil => rfl
  | cons c cs ih =>
    obtain ⟨hnot, hcs⟩ := List.nodup_cons.mp hcs
    rw [copyOut]
    split_ifs with hso hcan
    · rw [ih hcs _ fun d hd => ?_]
      · congr 1
        funext d
        by_cases hd : d = c
        · subst hd
          simp [hnot, hus]
        · simp [hd]
      · rw [update_of_ne fun hdc : d = c => hnot (hdc ▸ hd)]
        exact hus d (.tail _ hd)
    · exact absurd (h c hso) hcan
    · rw [ih hcs _ fun d hd => hus d (.tail _ hd)]
      congr 1
      funext d
      by_cases hd : d = c
      · subst hd
        have hnn : a.sets d = none := Option.not_isSome_iff_eq_none.mp hso
        simp [hnot, hus, hnn, copiedOut]
      · simp [hd]

theorem copyOut_fst (cs : List Class) (user : Class → Option FdSet) :
    (copyOut env a sets cs user).1 = cs.all fun c => !(a.sets c).isSome || env.canCopy (.setOut c) := by
  induction cs generalizing user with
  | nil => rfl
  | cons c cs ih =>
    rw [copyOut, List.all_cons]
    split_ifs with hso hcan
    · rw [ih, hcan, Bool.or_true, Bool.true_and]
    · simp [hso, hcan]
    · simp [hso, ih]

theorem output_zero (hn : a.n = 0) (v : Look) : output env a v = a.sets := by
  funext c
  unfold output copiedOut
  rw [hn]
  exact Option.map_id'

def polledAt (env : Env) (a : Args) (v : Look) : Polled where
  ret := .ok (lookedAt env a v).numEvents
  pollfds := (lookedAt env a v).pollfds.map Prod.fst
  timeout := (blocker env a).deadline.map fun deadline => timespecSaturatingSub deadline (monotonic v.resumed)

theorem answer_eq (hopen : AllOpen env a) (v : Look) (timeout : Option Timeval)
    (h : 0 < a.n → ∀ c, (a.sets c).isSome = true → env.canCopy (.setOut c) = true) :
    answer env a (kernelSets a) (polledAt env a v) timeout =
      .returned (.ok (countBits a (output env a v))) (output env a v) timeout := by
  have hbi := numBits_answer hopen v
  unfold answer polledAt
  dsimp only
  rw [hbi]
  split_ifs with hn
  · rw [output_zero hn]
  · rw [copyOut_eq Class.all (by decide) a.sets (fun _ _ => rfl) (h (pos_of_ne_zero hn))]
    simp only [Class.mem_all, if_true]
    rfl

theorem answer_bad (v : Look) (timeout : Option Timeval) (hn : 0 < a.n)
    (h : ∃ c, (a.sets c).isSome = true ∧ env.canCopy (.setOut c) = false) :
    ∃ sets, answer env a (kernelSets a) (polledAt env a v) timeout = .returned (.error .EFAULT) sets timeout := by
  obtain ⟨c, hc⟩ := h
  have hbad (sets : Class → FdSet) : (copyOut env a sets Class.all a.sets).1 = false := by
    rw [copyOut_fst, List.all_eq_false]
    exact ⟨c, c.mem_all, by simp [hc]⟩
  unfold answer polledAt
  rw [if_neg hn.ne']
  specialize hbad (((lookedAt env a v).pollfds.map fst).foldl clear (kernelSets a))
  generalize copyOut env a _ Class.all a.sets = r at hbad
  obtain ⟨ok, user⟩ := r
  cases hbad
  exact ⟨user, rfl⟩

theorem any_nval_false (hopen : AllOpen env a) (v : Look) :
    (((lookedAt env a v).pollfds.map fst).any fun p => p.revents &&& POLLNVAL != 0) = false := by
  rw [← Bool.not_eq_true, any_nval_iff]
  exact not_not.mpr hopen

theorem finish_closed (hopen : ¬ AllOpen env a) (v : Look) :
    finish env a (kernelSets a) (polledAt env a v) = .returned (.error .EBADF) a.sets a.timeout :=
  if_pos ((any_nval_iff v).mpr hopen)

section
variable (hopen : AllOpen env a) (ht : ∀ tv ∈ a.timeout, tv.Nonneg)
include hopen ht

theorem finish_open (v : Look) : (a.timeout.isSome = true ∧ env.canCopy .timeoutOut = false ∧
      finish env a (kernelSets a) (polledAt env a v) = .returned (.error .EFAULT) a.sets a.timeout) ∨
    ((a.timeout.isSome = true → env.canCopy .timeoutOut = true) ∧ ∃ timeout,
      finish env a (kernelSets a) (polledAt env a v) = answer env a (kernelSets a) (polledAt env a v) timeout) := by
  have hany : ((polledAt env a v).pollfds.any fun p => p.revents &&& POLLNVAL != 0) = false := any_nval_false hopen v
  unfold finish
  rw [hany, if_neg Bool.false_ne_true]
  cases hti : a.timeout with
  | none =>
    have hp : (polledAt env a v).timeout = none := by
      simp only [polledAt, blocker, blockerFor, hti, Option.map_none]
    rw [hp]
    exact .inr ⟨nofun, none, rfl⟩
  | some tv =>
    have hp : (polledAt env a v).timeout = some (timespecSaturatingSub
        (timespecAdd (monotonic env.uptime) (timespecOf tv)) (monotonic v.resumed)) := by
      simp only [polledAt, blocker, blockerFor, hti, Option.map_some]
    obtain ⟨tv', htv'⟩ := timevalOf_fraction (fraction_timespecSaturatingSub
      (deadline_spec (ht tv hti) env.uptime).1 (fraction_monotonic v.resumed))
    rw [hp, show (polledAt env a v).ret = .ok (lookedAt env a v).numEvents from rfl]
    dsimp only
    rw [htv']
    cases hcan : env.canCopy .timeoutOut with
    | true => exact .inr ⟨fun _ => rfl, some tv', rfl⟩
    | false => exact .inl ⟨rfl, rfl, rfl⟩

theorem finish_good (hout : ¬ BadOut env a) (v : Look) : ∃ timeout, finish env a (kernelSets a) (polledAt env a v) =
      .returned (.ok (countBits a (output env a v))) (output env a v) timeout := by
  rcases finish_open hopen ht v with ⟨hso, hcan, -⟩ | ⟨-, timeout, hfi⟩
  · exact absurd (.inl ⟨hso, hcan⟩) hout
  · refine ⟨timeout, hfi.trans (answer_eq hopen v timeout fun hn c hc => ?_)⟩
    rw [← Bool.not_eq_false]
    exact fun hcan => hout (.inr ⟨hn, c, hc, hcan⟩)

theorem finish_badOut (hout : BadOut env a) (v : Look) :
    ∃ sets timeout, finish env a (kernelSets a) (polledAt env a v) = .returned (.error .EFAULT) sets timeout := by
  rcases finish_open hopen ht v with ⟨-, -, hfi⟩ | ⟨hcan, timeout, hfi⟩
  · exact ⟨_, _, hfi⟩
  · rcases hout with ⟨hso, hbad⟩ | ⟨hn, hbad⟩
    · rw [hcan hso] at hbad
      cases hbad
    · obtain ⟨sets, han⟩ := answer_bad v timeout hn hbad
      exact ⟨sets, timeout, hfi.trans han⟩

theorem finish_interrupted (v w : Look) (hw : w.interrupted = true) : some (finish env a (kernelSets a)
      ⟨.error .EINTR, (lookedAt env a v).pollfds.map fst, a.timeout.map timespecOf⟩) =
        interruptedBy env a w := by
  unfold finish interruptedBy
  rw [any_nval_false hopen v, if_neg Bool.false_ne_true, if_pos hw]
  cases hti : a.timeout with
  | none => rfl
  | some tv =>
    obtain ⟨tv', htv'⟩ := timevalOf_fraction (fraction_timespecOf (ht tv hti))
    simp only [Option.map_some]
    rw [htv']
    rfl

end

/-! ## The looks of the call -/

def decision (env : Env) (a : Args) (v : Look) : Option Reply :=
  if FilesFail env a then some (.returned (.error .ENOMEM) a.sets a.timeout)
  else if (unblockPoll (blocker env a) v).1 then some (finish env a (kernelSets a) (polledAt env a v)) else none

theorem unblockTasks_cons (b : PollBlocker) (v : Look) (visits : List Look) : unblockTasks b (v :: visits) =
    if v.interrupted then some (true, b, v, visits) else schedBlock b v visits := rfl

theorem decision_true (hfi : ¬ FilesFail env a) (h : (unblockPoll (blocker env a) v).1 = true) :
    decision env a v = some (finish env a (kernelSets a) (polledAt env a v)) := by
  rw [decision, if_neg hfi, if_pos h]

theorem decision_false (hfi : ¬ FilesFail env a) (h : (unblockPoll (blocker env a) v).1 = false) :
    decision env a v = none := by
  rw [decision, if_neg hfi, if_neg (by rw [h]; exact Bool.false_ne_true)]

theorem schedBlock_true (hb : unblockPoll b v = unblockPoll (blocker env a) v)
    (h : (unblockPoll (blocker env a) v).1 = true) (visits : List Look) :
    schedBlock b v visits = some (false, lookedAt env a v, v, visits) := by
  have heq : unblockPoll b v = (true, lookedAt env a v) := hb.trans (Prod.ext h (unblockPoll_snd v))
  simp only [schedBlock, heq]

theorem schedBlock_false (hb : unblockPoll b v = unblockPoll (blocker env a) v)
    (h : (unblockPoll (blocker env a) v).1 = false) (visits : List Look) :
    schedBlock b v visits = unblockTasks (lookedAt env a v) visits := by
  have heq : unblockPoll b v = (false, lookedAt env a v) := hb.trans (Prod.ext h (unblockPoll_snd v))
  simp only [schedBlock, heq]

theorem schedBlock_eq (hfi : ¬ FilesFail env a) (ht : ∀ tv ∈ a.timeout, tv.Nonneg) (visits : List Look)
    (hb : ∀ w, unblockPoll b w = unblockPoll (blocker env a) w) (v : Look) :
    (afterBlock (a.timeout.map timespecOf) (schedBlock b v visits)).map (map (finish env a (kernelSets a)) id) =
      blockOn (decision env a) (interruptedBy env a) v visits := by
  induction visits generalizing v b with
  | nil =>
    cases hu : (unblockPoll (blocker env a) v).1 with
    | true =>
      rw [schedBlock_true (hb v) hu, blockOn_some (decision_true hfi hu)]
      rfl
    | false =>
      rw [schedBlock_false (hb v) hu, blockOn, decision_false hfi hu]
      rfl
  | cons w visits ih =>
    cases hu : (unblockPoll (blocker env a) v).1 with
    | true =>
      rw [schedBlock_true (hb v) hu, blockOn_some (decision_true hfi hu)]
      rfl
    | false =>
      have hopen : AllOpen env a := by
        by_contra hcl
        rw [(unblockPoll_fst v).mpr (.inl hcl)] at hu
        cases hu
      rw [schedBlock_false (hb v) hu, blockOn_none (decision_false hfi hu), unblockTasks_cons]
      cases hw : w.interrupted with
      | true =>
        rw [if_pos rfl, ← finish_interrupted hopen ht v w hw]
        rfl
      | false =>
        have hnn : interruptedBy env a w = none := if_neg (by rw [hw]; exact Bool.false_ne_true)
        rw [if_neg Bool.false_ne_true, hnn, ih (fun x => ?_) w]
        rw [← unblockPoll_snd v, unblockPoll_again hu]

theorem compact_eq_nil_iff : compact a.n (kernelSets a) = [] ↔ ¬ 0 < numSelected a := by
  rw [← List.length_eq_zero_iff, length_compact, pos_iff_ne_zero, not_not]

theorem finish_noMemory :
    finish env a (kernelSets a) ⟨.error .ENOMEM, compact a.n (kernelSets a), a.timeout.map timespecOf⟩ =
      .returned (.error .ENOMEM) a.sets a.timeout := by
  have hany : ((compact a.n (kernelSets a)).any fun p => p.revents &&& POLLNVAL != 0) = false := by
    rw [compact_eq, List.any_map, List.any_eq_false]
    intro i _
    simp [POLLNVAL]
  unfold finish
  rw [hany, if_neg Bool.false_ne_true]
  cases a.timeout <;> rfl

theorem pollAndFinish_eq (ht : ∀ tv ∈ a.timeout, tv.Nonneg)
    (hsi : ∀ size, kmalloc env (4 * numSelected a) = some size → 4 * numSelected a ≤ size) (v : Look)
    (visits : List Look) :
    pollAndFinish env a (kernelSets a) (compact a.n (kernelSets a)) v visits =
      blockOn (decision env a) (interruptedBy env a) v visits := by
  unfold pollAndFinish
  dsimp only
  rw [length_compact]
  split_ifs with hnil
  · exact schedBlock_eq (fun h => compact_eq_nil_iff.mp hnil h.1) ht visits (fun _ => rfl) v
  · have hpos : 0 < numSelected a := not_not.mp fun h => hnil (compact_eq_nil_iff.mpr h)
    cases hk : kmalloc env (4 * numSelected a) with
    | none =>
      have hd : decision env a v = some (.returned (.error .ENOMEM) a.sets a.timeout) := if_pos ⟨hpos, hk⟩
      rw [blockOn_some hd, finish_noMemory]
    | some size =>
      dsimp only
      rw [if_neg (not_lt.mpr (hsi size hk))]
      refine schedBlock_eq (fun h => ?_) ht visits (fun _ => rfl) v
      rw [h.2] at hk
      cases hk

theorem decision_wakes (hfi : ¬ FilesFail env a) (h : ¬ AllOpen env a ∨ SomeReady a v ∨ Expired env a v) :
    decision env a v = some (finish env a (kernelSets a) (polledAt env a v)) :=
  decision_true hfi ((unblockPoll_fst v).mpr h)

theorem decision_sleeps (hfi : ¬ FilesFail env a) (h : ¬ (¬ AllOpen env a ∨ SomeReady a v ∨ Expired env a v)) :
    decision env a v = none :=
  decision_false hfi (by rw [← Bool.not_eq_true]; exact fun hu => h ((unblockPoll_fst v).mp hu))

theorem decision_none_iff (ht : ∀ tv ∈ a.timeout, tv.Nonneg) : decision env a v = none ↔ Waits env a v := by
  by_cases hfi : FilesFail env a
  · rw [decision, if_pos hfi]
    exact iff_of_false nofun fun h => h.2.2.2.2 hfi
  · by_cases hwa : ¬ AllOpen env a ∨ SomeReady a v ∨ Expired env a v
    · rw [decision_wakes hfi hwa]
      rw [expired_iff ht] at hwa
      refine iff_of_false nofun ?_
      rintro ⟨hopen, hre, hel, hov, -⟩
      rcases hwa with h | h | h | h
      · exact h hopen
      · exact hre h
      · exact hel h
      · exact hov h
    · rw [decision_sleeps hfi hwa]
      rw [expired_iff ht, not_or, not_or, not_or, not_not] at hwa
      exact iff_of_true rfl ⟨hwa.1, hwa.2.1, hwa.2.2.1, hwa.2.2.2, hfi⟩

theorem refused_of_kmalloc (h : kmalloc env size = none) (hpos : 0 < size) : Refused env size := by
  by_cases hbig : 2 ^ 32 - 4096 < size
  · exact .inl hbig
  · have hmod : size % 2 ^ 32 = size := mod_eq_of_lt (by omega)
    unfold kmalloc kmallocSize at h
    rw [hmod, if_neg hpos.ne'] at h
    split_ifs at h with hro
    exact .inr (Bool.eq_false_iff.mpr hro)

theorem FilesFail.noMemory (h : FilesFail env a) : NoMemory env a :=
  .inr ⟨h.1, .inr (refused_of_kmalloc h.2 (by have := h.1; omega))⟩

theorem mayReply_decision (hva : Valid a) : MayReply env a v (decision env a v) ↔ LookFits env a v := by
  have ht : ∀ tv ∈ a.timeout, tv.Nonneg := hva.2
  by_cases hfi : FilesFail env a
  · rw [decision, if_pos hfi]
    exact iff_of_true (.noMemory hfi.noMemory) fun _ => .inr (.inr (.inl hfi))
  by_cases hopen : AllOpen env a
  · by_cases hwa : SomeReady a v ∨ Expired env a v
    · rw [decision_wakes hfi (.inr hwa)]
      by_cases hout : BadOut env a
      · obtain ⟨sets, timeout, hfn⟩ := finish_badOut hopen ht hout v
        rw [hfn]
        exact iff_of_true (.badPointer (.inr (.inr hout))) fun _ => .inr (.inr (.inr hout))
      · obtain ⟨timeout, hfn⟩ := finish_good hopen ht hout v
        rw [hfn]
        constructor
        · intro h hov
          generalize hk : countBits a (output env a v) = k at h
          cases h with
          | answer _ _ hwhy _ => exact .inr (.inl (hwhy.resolve_right (not_elapsed hov)))
        · intro h
          refine .answer hva hopen ?_ (answers_output hopen v)
          rcases hwa with hre | hex
          · exact .inl hre
          · rcases (expired_iff ht).mp hex with hel | hov
            · exact .inr hel
            · rcases h hov with h | h | h | h
              · exact absurd hopen h
              · exact .inl h
              · exact absurd h hfi
              · exact absurd h hout
    · rw [decision_sleeps hfi (by rw [not_or]; exact ⟨not_not.mpr hopen, hwa⟩)]
      rw [expired_iff ht, not_or, not_or] at hwa
      exact iff_of_true (.wait hva hopen hwa.1 hwa.2.1) fun hov => absurd hov hwa.2.2
  · rw [decision_wakes hfi (.inl hopen), finish_closed hopen]
    exact iff_of_true (.badFd hva hopen) fun _ => .inl hopen

/-! ## Whole calls -/

theorem permits_pollAndFinish (hva : Valid a)
    (hsi : ∀ size, kmalloc env (4 * numSelected a) = some size → 4 * numSelected a ≤ size) (v : Look)
    (visits : List Look) :
    Permits env a v visits (pollAndFinish env a (kernelSets a) (compact a.n (kernelSets a)) v visits) ↔
      LooksFit (LookFits env a) (Waits env a) (interruptedBy env a) v visits := by
  rw [pollAndFinish_eq hva.2 hsi]
  exact allowed_blockOn_iff (fun _ => mayReply_decision hva) (fun _ => decision_none_iff hva.2) v visits

theorem kmalloc_zero : kmalloc env 0 = none := rfl

theorem kmalloc_size {got : Nat} (h : kmalloc env size = some got) (hsm : size ≤ 2 ^ 32 - 4096) :
    size ≤ got ∧ ¬ Refused env size := by
  have hmod : size % 2 ^ 32 = size := mod_eq_of_lt (by omega)
  unfold kmalloc kmallocSize at h
  rw [hmod] at h
  split_ifs at h with hze hro
  cases h
  refine ⟨?_, ?_⟩
  · unfold roundUp roundDown add32 PAGE_SIZE
    omega
  · rintro (hbig | hno)
    · omega
    · rw [hno] at hro
      cases hro

theorem kmalloc_le {got : Nat} (h : kmalloc env size = some got) : got ≤ 2 ^ 32 - 4096 := by
  unfold kmalloc kmallocSize at h
  split_ifs at h
  cases h
  unfold roundUp roundDown add32 PAGE_SIZE
  omega

theorem numFdLongs_small (a : Args) : 4 * numFdLongs a.n * 3 ≤ 2 ^ 32 - 4096 := by
  have hlt := a.nfds.toInt_lt
  unfold numFdLongs Args.n NUM_FD_BITS
  omega

theorem permits_error_iff {e : Errno} {visits : List Look} :
    Permits env a v visits (some (.returned (.error e) a.sets a.timeout, visits)) ↔
      MayReply env a v (some (.returned (.error e) a.sets a.timeout)) := allowed_finish_iff

theorem any_badIn_iff :
    (Class.all.any fun c => (a.sets c).isSome && !env.canCopy (.setIn c)) = true ↔ BadIn env a := by
  simp only [BadIn, List.any_eq_true, Class.mem_all, true_and, Bool.and_eq_true, Bool.not_eq_true']

theorem numSelected_zero (hn : a.n = 0) : numSelected a = 0 := by
  rw [numSelected, hn]
  rfl

theorem kernelSets_zero (hn : a.n = 0) : kernelSets a = fun _ _ => 0 := by
  funext c j
  rw [kernelSets, hn]
  cases a.sets c <;> rfl

theorem mayReply_noMemory_iff :
    MayReply env a v (some (.returned (.error .ENOMEM) a.sets a.timeout)) ↔ NoMemory env a := by
  constructor
  · intro h
    cases h with
    | noMemory h => exact h
  · exact .noMemory

theorem permits_prepared (hva : Valid a) (hn : 0 < a.n) (v : Look) (visits : List Look) : Permits env a v visits
      (match prepare env a with
        | .error .fault => some (.fault, visits)
        | .error (.errno e) => some (Reply.returned (.error e) a.sets a.timeout, visits)
        | .ok (sets, pollfds) => pollAndFinish env a sets pollfds v visits) ↔
    (InFails env a ∨ 0 < numSelected a) ∧
    (¬ (InFails env a ∨ kmalloc env (8 * numSelected a) = none) →
      (∀ size, kmalloc env (8 * numSelected a) = some size → 8 * numSelected a ≤ size) ∧
      LooksFit (LookFits env a) (Waits env a) (interruptedBy env a) v visits) := by
  unfold prepare
  cases hk : kmalloc env (4 * numFdLongs a.n * 3) with
  | none =>
    have hin : InFails env a := .inl hk
    refine iff_of_true (permits_error_iff.mpr (.noMemory (.inl ⟨hn, refused_of_kmalloc hk ?_⟩)))
      ⟨.inl hin, fun h => absurd (.inl hin) h⟩
    unfold numFdLongs NUM_FD_BITS
    omega
  | some got =>
    have hgot := kmalloc_size hk (numFdLongs_small a)
    dsimp only
    rw [if_neg (not_lt.mpr hgot.1)]
    by_cases hbad : BadIn env a
    · have hin : InFails env a := .inr hbad
      rw [if_pos (any_badIn_iff.mpr hbad)]
      exact iff_of_true (permits_error_iff.mpr (.badPointer (.inr (.inl ⟨hn, hbad⟩))))
        ⟨.inl hin, fun h => absurd (.inl hin) h⟩
    · have hin : ¬ InFails env a := by
        rintro (h | h)
        · rw [hk] at h
          cases h
        · exact hbad h
      rw [if_neg fun h => hbad (any_badIn_iff.mp h)]
      change Permits env a v visits (match (match kmalloc env (8 * numPollfds a.n (kernelSets a)) with
        | none => .error (.errno .ENOMEM)
        | some size => if size < 8 * numPollfds a.n (kernelSets a) then .error .fault
            else .ok (kernelSets a, compact a.n (kernelSets a)) : Except Stop ((Class → FdSet) × List Pollfd)) with
        | .error .fault => some (.fault, visits)
        | .error (.errno e) => some (Reply.returned (.error e) a.sets a.timeout, visits)
        | .ok (sets, pollfds) => pollAndFinish env a sets pollfds v visits) ↔ _
      rw [numPollfds_eq]
      simp only [hin, false_or]
      cases hk8 : kmalloc env (8 * numSelected a) with
      | none =>
        simp only [not_true, false_imp_iff, and_true]
        rw [permits_error_iff, mayReply_noMemory_iff]
        constructor
        · rintro (h | h)
          · exact absurd h.2 hgot.2
          · exact h.1
        · exact fun h => .inr ⟨h, .inl (refused_of_kmalloc hk8 (by omega))⟩
      | some size =>
        have hpos : 0 < numSelected a := by
          by_contra h
          rw [Nat.eq_zero_of_not_pos h, Nat.mul_zero, kmalloc_zero] at hk8
          cases hk8
        simp only [hpos, reduceCtorEq, not_false_eq_true, true_imp_iff, true_and, Option.some.injEq, forall_eq']
        by_cases hsi : size < 8 * numSelected a
        · rw [if_pos hsi]
          refine iff_of_false (fun h => ?_) fun h => absurd h.1 (not_le.mpr hsi)
          cases allowed_finish_iff.mp h
        · have hle := kmalloc_le hk8
          rw [if_neg hsi]
          rw [permits_pollAndFinish hva fun got h => (kmalloc_size h (by omega)).1]
          simp only [not_lt.mp hsi, true_and]

end

theorem sysSelect_permits_iff (env : Env) (a : Args) (first : Look) (visits : List Look) :
    Permits env a first visits (sysSelect env a first visits) ↔ Fits env a first visits := by
  unfold sysSelect Fits
  by_cases hneg : a.nfds < 0
  · rw [if_pos hneg]
    refine iff_of_true (permits_error_iff.mpr (.invalid fun h => ?_)) fun h => ?_
    · exact absurd h.1 (by rw [Int32.not_le]; exact hneg)
    · exact absurd h.1.1 (by rw [Int32.not_le]; exact hneg)
  rw [if_neg hneg]
  by_cases hco : a.timeout.isSome ∧ env.canCopy .timeoutIn = false
  · rw [if_pos hco]
    refine iff_of_true (permits_error_iff.mpr (.badPointer (.inl hco))) fun h => ?_
    rw [h.2 hco.1] at hco
    cases hco.2
  rw [if_neg hco]
  by_cases hti : ∃ tv ∈ a.timeout, tv.tvSec < 0 ∨ tv.tvUsec < 0
  · have hin : ¬ Valid a := by
      rintro ⟨-, h⟩
      obtain ⟨tv, htv, hlt⟩ := hti
      have hnn := h tv htv
      rw [← Int32.not_lt, ← Int32.not_lt] at hnn
      exact hlt.elim hnn.1 hnn.2
    rw [if_pos hti]
    exact iff_of_true (permits_error_iff.mpr (.invalid hin)) fun h => absurd h.1 hin
  rw [if_neg hti]
  have hva : Valid a := by
    refine ⟨Int32.not_lt.mp hneg, fun tv htv => ⟨Int32.not_lt.mp fun h => ?_, Int32.not_lt.mp fun h => ?_⟩⟩
    · exact hti ⟨tv, htv, .inl h⟩
    · exact hti ⟨tv, htv, .inr h⟩
  have hen : Entered env a := ⟨hva, fun h => by
    rw [← Bool.not_eq_false]
    exact fun hno => hco ⟨h, hno⟩⟩
  simp only [hen, true_imp_iff]
  by_cases hn : a.n = 0
  · have hze := numSelected_zero hn
    rw [if_pos hn, ← kernelSets_zero hn, show ([] : List Pollfd) = compact a.n (kernelSets a) by rw [hn]; rfl,
      permits_pollAndFinish hva (by rw [hze]; nofun), hze]
    simp [hn, kmalloc_zero]
  · have hpos : 0 < a.n := pos_of_ne_zero hn
    rw [if_neg hn]
    simp only [hpos, true_imp_iff, true_and]
    exact permits_prepared hva hpos first visits

def roomy : Env := ⟨fun _ => true, fun _ => true, fun _ => true, 0⟩

def quiet : Look := ⟨fun _ => ⟨false, false, false, false, false⟩, 0, 0, false⟩

def sleep (nfds : Int32) (tv : Timeval) : Args := ⟨nfds, fun _ => some fun _ => 0, some tv⟩

/-- With `nfds` 1 and empty sets the call does not sleep but fails; with 2147483647 seconds and 1000000 microseconds
it returns at once. -/
theorem select_breaks_contract : (sysSelect roomy (sleep 1 ⟨1, 0⟩) quiet [] =
        some (.returned (.error .ENOMEM) (sleep 1 ⟨1, 0⟩).sets (some ⟨1, 0⟩), []) ∧
      ¬ Permits roomy (sleep 1 ⟨1, 0⟩) quiet [] (sysSelect roomy (sleep 1 ⟨1, 0⟩) quiet [])) ∧
    (∃ timeout, sysSelect roomy (sleep 0 ⟨2147483647, 1000000⟩) quiet [] =
        some (.returned (.ok 0) (sleep 0 ⟨2147483647, 1000000⟩).sets timeout, [])) ∧
      ¬ Permits roomy (sleep 0 ⟨2147483647, 1000000⟩) quiet []
        (sysSelect roomy (sleep 0 ⟨2147483647, 1000000⟩) quiet []) := by
  have hfi : sysSelect roomy (sleep 1 ⟨1, 0⟩) quiet [] =
      some (.returned (.error .ENOMEM) (sleep 1 ⟨1, 0⟩).sets (some ⟨1, 0⟩), []) := rfl
  have hse : ∃ timeout, sysSelect roomy (sleep 0 ⟨2147483647, 1000000⟩) quiet [] =
      some (.returned (.ok 0) (sleep 0 ⟨2147483647, 1000000⟩).sets timeout, []) := ⟨_, rfl⟩
  refine ⟨⟨hfi, ?_⟩, hse, ?_⟩
  · intro h
    rcases mayReply_noMemory_iff.mp (allowed_finish_iff.mp h) with ⟨-, h⟩ | ⟨h, -⟩
    · rcases h with h | h
      · exact absurd h (by decide)
      · cases h
    · exact absurd h (by decide)
  · intro h
    obtain ⟨tv, htv, hle⟩ := (allowed_finish_iff.mp h).elapsed
    cases htv
    exact absurd hle (by decide)

end Select

end Yagura
