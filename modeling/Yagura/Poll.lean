import Yagura.Paging
import Yagura.Select

/-!
# Polling

`sys_poll`, what it reports, and where `sys_poll`, `sys_select` and `poll`
reach into the memory they allocate, with sizes and offsets in 32 bits.
-/

namespace Yagura

namespace Select

open List Nat

/-! ## The call -/

/-- A negative descriptor is a word with its top bit set. -/
structure PollCall where
  fds : List Pollfd
  small : fds.length < 2 ^ 32
  timeout : Int32
  userFds : Nat
  canRead : Bool
  canWrite : Bool

inductive PollReply
  | fault
  | failed (e : Errno)
  | returned (n : Nat) (fds : List Pollfd)

def PollCall.bytes (a : PollCall) : Nat := 8 * a.fds.length % 2 ^ 32

def isNegative (fd : Nat) : Bool := 2 ^ 31 ≤ fd

def pollGetFile (env : Env) (p : Pollfd) : Pollfd × Bool :=
  if isNegative p.fd then ({ p with revents := 0 }, false)
  else if env.isOpen p.fd then ({ p with revents := 0 }, true)
  else ({ p with revents := POLLNVAL }, false)

def polledFor (p : Pollfd) : Pollfd := { p with events := p.events ||| (POLLERR ||| POLLHUP) }

def pollTimeout (timeout : Int32) : Option Timespec :=
  if timeout < 0 then none else some ⟨timeout.toInt / 1000, timeout.toInt % 1000 * 1000000⟩

def pollBlocker (env : Env) (a : PollCall) : PollBlocker where
  pollfds := a.fds.map fun p => pollGetFile env (polledFor p)
  deadline := (pollTimeout a.timeout).map (timespecAdd (monotonic env.uptime))
  numEvents := a.fds.countP fun p => !isNegative p.fd && !env.isOpen p.fd

def pollAnswer (a : PollCall) (p : Polled) : PollReply :=
  match p.ret with
  | .error e => .failed e
  | .ok n => if a.fds = [] ∨ a.canWrite then .returned n p.pollfds else .failed .EFAULT

def pollStops (env : Env) (a : PollCall) : Option Stop :=
  if a.fds = [] then none
  else
    match kmalloc env a.bytes with
    | none => some (.errno .ENOMEM)
    | some size =>
      if isUserRange a.userFds a.bytes = false ∨ a.canRead = false then some (.errno .EFAULT)
      else if size < 8 * a.fds.length then some .fault
      else if kmalloc env (4 * a.fds.length) = none then some (.errno .ENOMEM)
      else none

def sysPoll (env : Env) (a : PollCall) (first : Look) (visits : List Look) : Option (PollReply × List Look) :=
  match pollStops env a with
  | some .fault => some (.fault, visits)
  | some (.errno e) => some (.failed e, visits)
  | none => (afterBlock (pollTimeout a.timeout) (schedBlock (pollBlocker env a) first visits)).map
      (Prod.map (pollAnswer a) id)

/-! ## What it reports -/

section
variable (env : Env) (a : PollCall) (v : Look)

def expected (p : Pollfd) : BitVec 16 :=
  if isNegative p.fd then 0
  else if env.isOpen p.fd then (v.ready p.fd).events &&& (p.events ||| (POLLERR ||| POLLHUP))
  else POLLNVAL

def TimedOut : Prop := 0 ≤ a.timeout ∧
  Clocks.nanos (monotonic env.uptime) + a.timeout.toInt * 1000000 ≤ Clocks.nanos (monotonic v.uptime)

/-- Array `out` and result `n` for the files as they are at `v`, with `back p` where entry `p` was. -/
structure Reports (back : Pollfd → Pollfd) (n : Nat) (out : List Pollfd) : Prop where
  array : out = a.fds.map fun p => { back p with revents := expected env v p }
  count : n = out.countP (·.revents != 0)
  timedOut : n = 0 → TimedOut env a v

end

section
variable {env : Env} {a : PollCall} {b b₀ b' : PollBlocker} {v w : Look} {visits rest : List Look} {n : Nat}
  {out : List Pollfd}

theorem schedBlock_cases (h : schedBlock b v visits = some (false, b', w, rest)) :
    (unblockPoll b v = (true, b') ∧ w = v ∧ rest = visits) ∨ ((unblockPoll b v).1 = false ∧ ∃ u later,
      visits = u :: later ∧ schedBlock (unblockPoll b v).2 u later = some (false, b', w, rest)) := by
  unfold schedBlock at h
  split at h
  · next b₁ hu =>
    cases h
    exact .inl ⟨hu, rfl, rfl⟩
  · next b₁ hu =>
    rw [hu]
    cases visits with
    | nil => cases h
    | cons u later =>
      rw [unblockTasks_cons] at h
      split at h
      · cases h
      · exact .inr ⟨rfl, u, later, rfl, h⟩

theorem schedBlock_ends (hb : ∀ u, unblockPoll b u = unblockPoll b₀ u)
    (h : schedBlock b v visits = some (false, b', w, rest)) :
    w :: rest <:+ v :: visits ∧ unblockPoll b₀ w = (true, b') := by
  induction visits generalizing b v with
  | nil =>
    rcases schedBlock_cases h with ⟨hu, rfl, rfl⟩ | ⟨-, _, _, hnil, -⟩
    · exact ⟨suffix_refl _, hb w ▸ hu⟩
    · cases hnil
  | cons u visits ih =>
    rcases schedBlock_cases h with ⟨hu, rfl, rfl⟩ | ⟨hu, _, _, hco, h⟩
    · exact ⟨suffix_refl _, hb w ▸ hu⟩
    · cases hco
      rw [hb v] at hu h
      obtain ⟨hsu, hw⟩ := ih (unblockPoll_again hu) h
      exact ⟨hsu.trans (suffix_cons v _), hw⟩

theorem pollFile_pollGetFile (v : Look) (p : Pollfd) : (pollFile v (pollGetFile env (polledFor p))).1 =
    { polledFor p with revents := expected env v p } := by
  unfold pollGetFile expected
  rw [show (polledFor p).fd = p.fd from rfl]
  split
  · rfl
  · split <;> rfl

theorem pollFiles_numEvents (v : Look) :
    (pollFiles (pollBlocker env a) v).numEvents = a.fds.countP fun p => expected env v p != 0 := by
  show a.fds.countP _ + ((a.fds.map _).map (pollFile v)).countP _ = _
  rw [map_map, countP_map]
  generalize a.fds = fds
  induction fds with
  | nil => rfl
  | cons p fds ih =>
    rw [countP_cons, countP_cons, countP_cons, ← ih, add_add_add_comm]
    by_cases hn : isNegative p.fd = true
    · simp [expected, pollGetFile, pollFile, polledFor, hn]
    · by_cases ho : env.isOpen p.fd = true <;>
        simp [expected, pollGetFile, pollFile, filePoll, polledFor, POLLNVAL, hn, ho]

theorem timedOut_of_expired (h : (pollBlocker env a).deadline.any
    (fun deadline => decide (0 ≤ timespecCompare (monotonic v.uptime) deadline)) = true) : TimedOut env a v := by
  unfold pollBlocker pollTimeout at h
  split at h
  · cases h
  · next hneg =>
    have hpos := Int32.not_lt.mp hneg
    have hnn : 0 ≤ a.timeout.toInt := Int32.le_iff_toInt_le.mp hpos
    have hlt := a.timeout.toInt_lt
    have hmo := monotonic_tvSec env.uptime
    have hfr : Clocks.Timespec.Fraction ⟨a.timeout.toInt / 1000, a.timeout.toInt % 1000 * 1000000⟩ := by
      unfold Clocks.Timespec.Fraction NANOS
      dsimp only
      omega
    obtain ⟨hde, hna⟩ := Clocks.timespecAdd_spec (fraction_monotonic env.uptime) hfr
      (by dsimp only; omega) (by dsimp only; omega)
    rw [Option.map_some, Option.any_some, decide_eq_true_iff, Clocks.compare_of_nanos hde (fraction_monotonic _),
      hna] at h
    refine ⟨hpos, le_trans (Int.add_le_add_left ?_ _) h⟩
    unfold Clocks.nanos NANOS
    dsimp only
    omega

theorem sysPoll_returned (h : sysPoll env a v visits = some (.returned n out, rest)) :
    ∃ w, w :: rest <:+ v :: visits ∧ Reports env a w polledFor n out := by
  unfold sysPoll at h
  split at h
  · cases h
  · cases h
  cases hs : schedBlock (pollBlocker env a) v visits with
  | none =>
    rw [hs] at h
    cases h
  | some ended =>
    obtain ⟨intr, b', w, rest'⟩ := ended
    rw [hs] at h
    cases intr with
    | true => cases h
    | false =>
      obtain ⟨hsu, hw⟩ := schedBlock_ends (fun _ => rfl) hs
      rw [unblockPoll_eq] at hw
      obtain ⟨hwhy, rfl⟩ := Prod.mk.inj hw
      simp only [afterBlock, pollAnswer, Option.map_some, Prod.map_apply, id, Option.some.injEq, Prod.mk.injEq] at h
      obtain ⟨hret, rfl⟩ := h
      split at hret
      · cases hret
        have hout : (pollFiles (pollBlocker env a) w).pollfds.map Prod.fst =
            a.fds.map fun p => { polledFor p with revents := expected env w p } := by
          show ((a.fds.map _).map (pollFile w)).map Prod.fst = _
          rw [map_map, map_map]
          exact map_congr_left fun p _ => pollFile_pollGetFile w p
        refine ⟨w, hsu, hout, ?_, fun hze => timedOut_of_expired ?_⟩
        · rw [pollFiles_numEvents, hout, countP_map]
          rfl
        · rw [hze] at hwhy
          exact hwhy
      · cases hret

theorem poll_reports_iff (h : sysPoll env a v visits = some (.returned n out, rest)) :
    (∃ w, w :: rest <:+ v :: visits ∧ Reports env a w id n out) ↔
      ∀ p ∈ a.fds, p.events ||| (POLLERR ||| POLLHUP) = p.events := by
  obtain ⟨w, hsu, hr⟩ := sysPoll_returned h
  constructor
  · rintro ⟨w', -, hr'⟩ p hp
    exact congrArg Pollfd.events (map_inj_left.mp (hr.array.symm.trans hr'.array) p hp)
  · intro hall
    refine ⟨w, hsu, hr.array.trans (map_congr_left fun p hp => ?_), hr.count, hr.timedOut⟩
    rw [polledFor, hall p hp]
    rfl

end

def readable : Look := { quiet with ready := fun _ => ⟨true, false, false, false, false⟩ }

def pollOne (events : BitVec 16) : PollCall := ⟨[⟨0, events, 0⟩], by simp, 0, 0x1000, true, true⟩

theorem poll_changes_events : sysPoll roomy (pollOne POLLIN) readable [] =
      some (.returned 1 [⟨0, POLLIN ||| (POLLERR ||| POLLHUP), POLLIN⟩], []) ∧
    ∀ w, ¬ Reports roomy (pollOne POLLIN) w id 1 [⟨0, POLLIN ||| (POLLERR ||| POLLHUP), POLLIN⟩] := by
  refine ⟨by with_unfolding_all rfl, fun w h => ?_⟩
  have hev : [POLLIN ||| (POLLERR ||| POLLHUP)] = [POLLIN] := congrArg (map Pollfd.events) h.array
  exact absurd hev (by decide)

theorem poll_reports_readable : ∃ n out, sysPoll roomy (pollOne 25) readable [] = some (.returned n out, []) ∧
    ((∃ w, [w] <:+ [readable] ∧ Reports roomy (pollOne 25) w id n out) ↔
      ∀ p ∈ (pollOne 25).fds, p.events ||| (POLLERR ||| POLLHUP) = p.events) :=
  ⟨1, [⟨0, 25, POLLIN⟩], by with_unfolding_all rfl, poll_reports_iff (by with_unfolding_all rfl)⟩

/-! ## Accesses to the arrays -/

structure Access where
  size : Nat
  offset : Nat
  len : Nat

def Access.Inside (x : Access) : Prop := x.offset + x.len ≤ x.size

def Within (log : List Access) : Prop := ∀ x ∈ log, x.Inside

def element (size width field len i : Nat) : Access := ⟨size, (width * i + field) % 2 ^ 32, len⟩

/-- `poll` on `n` entries in a block of `size` bytes, with `unblock_poll` called `looks` times. -/
def pollLog (env : Env) (size n looks : Nat) : List Access :=
  match kmalloc env (4 * n) with
  | none => []
  | some files =>
    (List.range n).map (element size 8 6 2) ++ (List.range n).map (element size 8 0 4) ++
      (List.range n).map (element files 4 0 4) ++
      (List.range looks).flatMap fun _ =>
        (List.range n).map (element files 4 0 4) ++ (List.range n).map (element size 8 4 4)

def sysPollLog (env : Env) (a : PollCall) (looks : Nat) : List Access :=
  match kmalloc env a.bytes with
  | none => []
  | some size =>
    if isUserRange a.userFds a.bytes = false then []
    else ⟨size, 0, a.bytes⟩ ::
      if a.canRead = false then []
      else (List.range a.fds.length).map (element size 8 4 2) ++ pollLog env size a.fds.length looks ++
        [⟨size, 0, a.bytes⟩]

def setWords (size n : Nat) (is : List Nat) : List Access :=
  is.flatMap fun i => (List.range 3).map fun k => ⟨size, 4 * (k * numFdLongs n + i / NUM_FD_BITS), 4⟩

def setCopies (size n : Nat) : List Access :=
  (List.range 3).map fun k => ⟨size, 4 * (k * numFdLongs n), 4 * numFdLongs n⟩

/-- An error in `poll` or behind it, and a set that the user does not give, shorten the list. -/
def sysSelectLog (env : Env) (a : Args) (looks : Nat) : List Access :=
  match kmalloc env (4 * numFdLongs a.n * 3) with
  | none => []
  | some size =>
    if ¬ Entered env a then []
    else ⟨size, 0, 4 * numFdLongs a.n * 3⟩ :: setCopies size a.n ++
      if Class.all.any fun c => (a.sets c).isSome && !env.canCopy (.setIn c) then []
      else setWords size a.n (List.range a.n) ++
        match kmalloc env (8 * numPollfds a.n (kernelSets a)) with
        | none => []
        | some size' =>
          (List.range (numPollfds a.n (kernelSets a))).map (element size' 8 0 8) ++
            pollLog env size' (numPollfds a.n (kernelSets a)) looks ++ setWords size a.n (polled a) ++
            setCopies size a.n

def PollFits (env : Env) (a : PollCall) : Prop :=
  kmalloc env a.bytes = none ∨ isUserRange a.userFds a.bytes = false ∨ a.canRead = false ∨ 8 * a.fds.length < 2 ^ 32

def SelectFits (env : Env) (a : Args) : Prop :=
  Entered env a → ¬ InFails env a →
    ∀ size, kmalloc env (8 * numSelected a) = some size → 8 * numSelected a ≤ size

section
variable {env : Env} {a : PollCall} {log log' : List Access} {size n width field len i looks : Nat}

theorem within_append : Within (log ++ log') ↔ Within log ∧ Within log' := forall_mem_append

theorem whole_inside (h : len ≤ size) : (⟨size, 0, len⟩ : Access).Inside := (zero_add len).le.trans h

theorem within_elements (h : width * n ≤ size) (hsi : size < 2 ^ 32) (hw : field + len ≤ width) :
    Within ((range n).map (element size width field len)) := by
  intro x hx
  obtain ⟨i, hi, rfl⟩ := mem_map.mp hx
  have hle := mul_le_mul_left width (succ_le_of_lt (mem_range.mp hi))
  rw [mul_succ] at hle
  unfold element Access.Inside
  dsimp only
  omega

theorem pollLog_within (h : 8 * n ≤ size) (hsi : size < 2 ^ 32) : Within (pollLog env size n looks) := by
  unfold pollLog
  split
  · exact nofun
  · next files hk =>
    have hfi := (kmalloc_size hk (by omega)).1
    have hle := kmalloc_le hk
    have hlo : Within ((range n).map (element files 4 0 4) ++ (range n).map (element size 8 4 4)) :=
      within_append.mpr ⟨within_elements hfi (by omega) le_rfl, within_elements h hsi le_rfl⟩
    refine within_append.mpr ⟨within_append.mpr ⟨within_append.mpr ⟨within_elements h hsi le_rfl,
      within_elements h hsi (by decide)⟩, within_elements hfi (by omega) le_rfl⟩, fun x hx => ?_⟩
    obtain ⟨_, -, hx⟩ := mem_flatMap.mp hx
    exact hlo x hx

theorem kmalloc_aligned (h : kmalloc env n = some size) : size % 8 = 0 := by
  unfold kmalloc kmallocSize at h
  split_ifs at h
  cases h
  unfold roundUp roundDown PAGE_SIZE
  omega

theorem within_entries_iff {k : Nat} (hk : kmalloc env k = some size) (hw : field + len ≤ 8) (hlen : 0 < len) :
    Within ((range n).map (element size 8 field len)) ↔ 8 * n ≤ size := by
  have hle := kmalloc_le hk
  have hal := kmalloc_aligned hk
  refine ⟨fun h => ?_, fun h => within_elements h (by omega) hw⟩
  by_contra hlt
  -- the entry behind the block
  have hst := h _ (mem_map_of_mem (mem_range.mpr (show size / 8 < n by omega)))
  unfold element Access.Inside at hst
  dsimp only at hst
  omega

theorem bytes_le (h : isUserRange a.userFds a.bytes = true) : a.bytes ≤ 2 ^ 32 - 4096 := by
  have hlt : a.bytes < 2 ^ 32 := mod_lt _ (by decide)
  simp only [isUserRange, isUserAddress, Bool.and_eq_true, decide_eq_true_eq] at h
  unfold add32 KERNEL_VIRT_ADDR at h
  omega

theorem sysPollLog_within_iff : Within (sysPollLog env a looks) ↔ PollFits env a := by
  unfold sysPollLog PollFits
  cases hk : kmalloc env a.bytes with
  | none => exact iff_of_true nofun (.inl rfl)
  | some size =>
    have hle := kmalloc_le hk
    cases hr : isUserRange a.userFds a.bytes with
    | false => exact iff_of_true nofun (.inr (.inl rfl))
    | true =>
      have hby := whole_inside (kmalloc_size hk (bytes_le hr)).1
      cases hre : a.canRead with
      | false => exact iff_of_true (forall_mem_singleton.mpr hby) (.inr (.inr (.inl rfl)))
      | true =>
        simp only [reduceCtorEq, Bool.true_eq_false, if_false, false_or]
        constructor
        · intro h
          have hfi := (within_entries_iff hk (by decide) (by decide)).mp
            (within_append.mp (within_append.mp (forall_mem_cons.mp h).2).1).1
          omega
        · intro h
          have hfi : 8 * a.fds.length ≤ size := by
            have := (kmalloc_size hk (bytes_le hr)).1
            rwa [PollCall.bytes, mod_eq_of_lt h] at this
          exact forall_mem_cons.mpr ⟨hby, within_append.mpr ⟨within_append.mpr
            ⟨within_elements hfi (by omega) (by decide), pollLog_within hfi (by omega)⟩,
            forall_mem_singleton.mpr hby⟩⟩

theorem setWords_within {is : List Nat} (h : 4 * numFdLongs n * 3 ≤ size) (his : ∀ i ∈ is, i < n) :
    Within (setWords size n is) := by
  intro x hx
  obtain ⟨i, hi, hx⟩ := mem_flatMap.mp hx
  obtain ⟨k, hk, rfl⟩ := mem_map.mp hx
  have hwo := word_copied (his i hi)
  have hle := mul_le_mul_right (numFdLongs n) (le_of_lt_succ (mem_range.mp hk))
  unfold Access.Inside
  dsimp only
  omega

theorem setCopies_within (h : 4 * numFdLongs n * 3 ≤ size) : Within (setCopies size n) := by
  intro x hx
  obtain ⟨k, hk, rfl⟩ := mem_map.mp hx
  have hle := mul_le_mul_right (numFdLongs n) (le_of_lt_succ (mem_range.mp hk))
  unfold Access.Inside
  dsimp only
  omega

theorem sysSelectLog_within_iff {a : Args} : Within (sysSelectLog env a looks) ↔ SelectFits env a := by
  unfold sysSelectLog SelectFits
  rw [numPollfds_eq]
  cases hk : kmalloc env (4 * numFdLongs a.n * 3) with
  | none => exact iff_of_true nofun fun _ hin => absurd (.inl hk) hin
  | some size =>
    have hsi := (kmalloc_size hk (numFdLongs_small a)).1
    have hwo := setWords_within hsi fun i hi => mem_range.mp hi
    have hin : Within (⟨size, 0, 4 * numFdLongs a.n * 3⟩ :: setCopies size a.n) :=
      forall_mem_cons.mpr ⟨whole_inside hsi, setCopies_within hsi⟩
    dsimp only
    by_cases hent : Entered env a
    · rw [if_neg (not_not.mpr hent), within_append, and_iff_right hin]
      by_cases hbad : BadIn env a
      · rw [if_pos (any_badIn_iff.mpr hbad)]
        exact iff_of_true nofun fun _ h => absurd (.inr hbad) h
      · rw [if_neg fun h => hbad (any_badIn_iff.mp h), within_append, and_iff_right hwo]
        have hgo : ¬ InFails env a := by
          rintro (h | h)
          · rw [hk] at h
            cases h
          · exact hbad h
        simp only [hent, hgo, not_false_eq_true, true_imp_iff]
        cases hk8 : kmalloc env (8 * numSelected a) with
        | none => exact iff_of_true nofun nofun
        | some size' =>
          have hle := kmalloc_le hk8
          simp only [Option.some.injEq, forall_eq']
          have hpo := setWords_within hsi fun i hi => lt_of_mem_polled (a := a) hi
          rw [within_append, within_append, within_append, within_entries_iff hk8 le_rfl (by decide),
            and_iff_left (setCopies_within hsi), and_iff_left hpo, and_iff_left_iff_imp]
          exact fun h => pollLog_within h (by omega)
    · rw [if_pos hent]
      exact iff_of_true nofun fun h => absurd h hent

theorem pollStops_fault_iff : pollStops env a = some .fault ↔ ¬ Within (sysPollLog env a looks) := by
  rw [sysPollLog_within_iff, PollFits]
  unfold pollStops
  by_cases hnil : a.fds = []
  · simp [hnil]
  rw [if_neg hnil]
  cases hk : kmalloc env a.bytes with
  | none => simp
  | some size =>
    have hle := kmalloc_le hk
    have hbig (hr : isUserRange a.userFds a.bytes = true) : size < 8 * a.fds.length ↔ 2 ^ 32 ≤ 8 * a.fds.length := by
      have hsi := (kmalloc_size hk (bytes_le hr)).1
      unfold PollCall.bytes at hsi
      omega
    cases hr : isUserRange a.userFds a.bytes <;> cases a.canRead <;> simp [hbig, hr]

theorem sysPoll_fault_iff {v : Look} {visits : List Look} :
    sysPoll env a v visits = some (.fault, visits) ↔ ¬ Within (sysPollLog env a looks) := by
  rw [← pollStops_fault_iff]
  unfold sysPoll
  split
  · next h => simp [h]
  · next h => simp [h]
  · next h =>
    simp only [h, reduceCtorEq, iff_false, Option.map_eq_some_iff, not_exists, not_and]
    intro p _ hp
    have hno := congrArg Prod.fst hp
    simp only [Prod.map_fst, pollAnswer] at hno
    split at hno
    · cases hno
    · split at hno <;> cases hno

theorem sysSelect_fault {a : Args} {v : Look} {visits : List Look} (h : ¬ Within (sysSelectLog env a looks)) :
    sysSelect env a v visits = some (.fault, visits) := by
  rw [sysSelectLog_within_iff] at h
  simp only [SelectFits, not_forall] at h
  obtain ⟨⟨⟨hnn, htv⟩, hco⟩, hin, size, hk, hlt⟩ := h
  have hn : a.n ≠ 0 := fun hn => by
    rw [numSelected_zero hn, kmalloc_zero] at hk
    cases hk
  have hpr : prepare env a = .error .fault := by
    unfold prepare
    cases hs : kmalloc env (4 * numFdLongs a.n * 3) with
    | none => exact absurd (.inl hs) hin
    | some got =>
      dsimp only
      rw [if_neg (not_lt.mpr (kmalloc_size hs (numFdLongs_small a)).1), if_neg fun h => hin (.inr (any_badIn_iff.mp h))]
      simp only [show numPollfds a.n (fun c => copiedIn a.n (a.sets c)) = _ from numPollfds_eq, hk]
      exact if_pos (not_le.mp hlt)
  unfold sysSelect
  rw [if_neg (Int32.not_lt.mpr hnn), if_neg fun h => by simp [hco h.1] at h, if_neg ?_, if_neg hn, hpr]
  rintro ⟨tv, htm, h | h⟩
  · exact Int32.not_lt.mpr (htv tv htm).1 h
  · exact Int32.not_lt.mpr (htv tv htm).2 h

end

theorem arrays_kept_iff (env : Env) (looks : Nat) : (∀ a, Within (sysPollLog env a looks) ↔ PollFits env a) ∧
    ∀ a, Within (sysSelectLog env a looks) ↔ SelectFits env a :=
  ⟨fun _ => sysPollLog_within_iff, fun _ => sysSelectLog_within_iff⟩

theorem poll_leaves_array : ∃ a : PollCall, a.fds.length = 2 ^ 29 + 1 ∧ kmalloc roomy a.bytes = some 4096 ∧
    ¬ Within (sysPollLog roomy a 0) := by
  obtain ⟨fds, hle⟩ : ∃ fds : List Pollfd, fds.length = 2 ^ 29 + 1 :=
    ⟨replicate _ ⟨0, 0, 0⟩, length_replicate⟩
  let a : PollCall := ⟨fds, by rw [hle]; decide, 0, 0x1000, true, true⟩
  have hby : a.bytes = 8 := by
    show 8 * fds.length % 2 ^ 32 = 8
    omega
  have hk : kmalloc roomy a.bytes = some 4096 := by
    rw [hby]
    decide +kernel
  refine ⟨a, hle, hk, fun h => ?_⟩
  rcases sysPollLog_within_iff.mp h with h | h | h | h
  · cases hk.symm.trans h
  · rw [hby] at h
    cases (show isUserRange 0x1000 8 = true by decide +kernel).symm.trans h
  · cases h
  · have hlt : 8 * fds.length < 2 ^ 32 := h
    omega

end Select

end Yagura
