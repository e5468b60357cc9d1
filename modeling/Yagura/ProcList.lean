import Yagura.Vfs

/-!
# Listing `/proc`

`proc_root_getdents` under `getdents`: the fixed items first, then the tasks of
`all_tasks`, which `sched_register` keeps in the order of their ids. The
position of the open file is the number of items passed or, behind them, the
last id listed. Between the calls of the reader, tasks are made, registered,
changed and reaped. `next_tid` is an `atomic_int` that wraps around.
-/

namespace Yagura

namespace ProcList

open Getdents Int List Nat Prog

/-! ## Tasks -/

structure Proc where
  tid : Int
  tgid : Int
  pgid : Int
  ppid : Int
  dead : Bool
  deriving DecidableEq

def schedRegister (task : Proc) : List Proc → List Proc
  | [] => [task]
  | it :: l => if it.tid < task.tid then it :: schedRegister task l else task :: it :: l

structure WaitpidBlocker where
  paramPid : Int
  currentTgid : Int
  currentPgid : Int

def WaitpidBlocker.isTarget (b : WaitpidBlocker) (it : Proc) : Bool :=
  waitTarget b.paramPid b.currentTgid b.currentPgid it.tgid it.pgid it.ppid

def unblockWaitpid (b : WaitpidBlocker) (l : List Proc) : List Proc := l.eraseP fun it => b.isTarget it && it.dead

/-! ## Names -/

def utoaLoop : (fuel : Nat) → Nat → List UInt8
  | 0, _ => []
  | k + 1, value => UInt8.ofNat (value % 10 + 48) :: if value / 10 = 0 then [] else utoaLoop k (value / 10)

def utoa (value : Nat) : List UInt8 := (utoaLoop 10 value).reverse

def nameOf (tid : Int) : List UInt8 := if tid < 0 then 45 :: utoa tid.natAbs else utoa tid.natAbs

theorem utoaLoop_digit (k value : Nat) : ∀ c ∈ utoaLoop k value, 48 ≤ c ∧ c ≤ 57 := by
  induction k generalizing value with
  | zero => exact nofun
  | succ k ih =>
    intro c hc
    rcases mem_cons.mp hc with rfl | hc
    · have hlt := mod_lt value (show 0 < 10 by decide)
      generalize value % 10 = d at hlt
      interval_cases d <;> decide
    · split at hc
      · cases hc
      · exact ih _ c hc

theorem utoaLoop_length (k value : Nat) : (utoaLoop k value).length ≤ k := by
  induction k generalizing value with
  | zero => exact le_rfl
  | succ k ih =>
    rw [utoaLoop, length_cons]
    split
    · exact succ_le_succ (zero_le k)
    · exact succ_le_succ (ih _)

theorem utoa_digit {value : Nat} : ∀ c ∈ utoa value, 48 ≤ c ∧ c ≤ 57 := fun c hc =>
  utoaLoop_digit 10 value c (mem_reverse.mp hc)

theorem nameOf_noNul (tid : Int) : 0 ∉ nameOf tid := by
  have hdi : 0 ∉ utoa tid.natAbs := fun h => absurd (utoa_digit 0 h).1 (by decide)
  unfold nameOf
  split
  · exact not_mem_cons_of_ne_of_not_mem (by decide) hdi
  · exact hdi

theorem nameOf_short (tid : Int) : (nameOf tid).length < PATH_MAX := by
  have hlen : (utoa tid.natAbs).length ≤ 10 := by
    rw [utoa, length_reverse]
    exact utoaLoop_length 10 _
  unfold nameOf PATH_MAX
  split
  · rw [length_cons]
    omega
  · omega

theorem strIsUint_utoa (value : Nat) : strIsUint (utoa value) = true := by
  unfold strIsUint
  rw [all_eq_true]
  intro c hc
  simpa using utoa_digit c hc

theorem atoi_utoa {value : Nat} (h : value < 10 ^ 10) : atoi (utoa value) = value % 2 ^ 32 := by
  have hlo : ∀ k v, v < 10 ^ k →
      (utoaLoop k v).foldr (fun c n => (n * 10 + (c.toNat - 48)) % 2 ^ 32) 0 = v % 2 ^ 32 := by
    intro k
    induction k with
    | zero =>
      intro v hv
      obtain rfl : v = 0 := by omega
      rfl
    | succ k ih =>
      intro v hv
      have hdi : (UInt8.ofNat (v % 10 + 48)).toNat - 48 = v % 10 := by
        have hlt := mod_lt v (show 0 < 10 by decide)
        generalize v % 10 = d at hlt
        interval_cases d <;> decide
      rw [utoaLoop, foldr_cons, hdi]
      split
      · rw [foldr_nil]
        omega
      · rw [ih (v / 10) (by rw [pow_succ] at hv; omega)]
        omega
  unfold atoi utoa
  rw [foldl_reverse]
  exact hlo 10 value h

/-! ## The directory -/

def NUM_ITEMS : Nat := 8

def children : List Dentry := Vfs.rootItems.pmap (fun d h => ⟨d.1, d.2, h.1, h.2⟩)
  (show ∀ d ∈ Vfs.rootItems, 0 ∉ d.1 ∧ d.1.length < PATH_MAX by decide)

/-- `file->offset` behind a task; the sum is an unsigned number of 32 bits. -/
def offsetBehind (tid : Int) : Nat := ((tid + NUM_ITEMS) % 2 ^ 32).toNat

def offsetPid (offset : Nat) : Int := Int.bmod (offset - NUM_ITEMS) (2 ^ 32)

section
variable {γ ε : Type} (callback : List UInt8 → UInt8 → Prog γ ε Bool)

def taskLoop : List Proc → Nat → Prog γ ε Nat
  | [], offset => pure offset
  | it :: l, offset => do
    if ← callback (nameOf it.tid) (modeToDirentType .dir) then taskLoop l (offsetBehind it.tid) else pure offset

/-- The first loop over the tasks starts at a task that is there: the caller is one. -/
def procRootGetdents (allTasks : List Proc) (offset : Nat) : Prog γ ε Nat := do
  let offset ← if offset % 2 ^ 32 < NUM_ITEMS then dentryGetdents callback children offset else pure offset
  if offset % 2 ^ 32 < NUM_ITEMS then return offset
  else taskLoop callback (allTasks.dropWhile fun it => it.tid ≤ offsetPid offset) offset

end

def getdents (allTasks : List Proc) (offset userBuf count : Nat) (fillDir : FillDirFn) (m : UserBytes) :
    Except Panic Listed :=
  match procRootGetdents (getdentsCallback fillDir) allTasks offset ⟨userBuf, count, 0, none, m⟩ with
  | .error e => .error e
  | .ok (offset', ctx) =>
    match ctx.rc with
    | some e => .ok ⟨.error e, offset', ctx.mem⟩
    | none => .ok ⟨.ok ctx.nwritten, offset', ctx.mem⟩

/-! ## What a call lists -/

def entry (t : Proc) : Dentry := ⟨nameOf t.tid, .dir, nameOf_noNul t.tid, nameOf_short t.tid⟩

theorem callback_total (f : Format) (d : Dentry) (c : FillDirCtx) :
    ∃ b c', getdentsCallback (fill f) d.name (modeToDirentType d.type) c = .ok (b, c') := by
  by_cases hro : c.nremaining < d.len f
  · exact ⟨_, _, callback_full hro⟩
  · have hle := not_lt.mp hro
    by_cases hco : Copies c.mem.writable c.userBuf (d.pieces f)
    · obtain ⟨m, hrun, -⟩ := callback_copied hle hco
      exact ⟨_, _, hrun⟩
    · obtain ⟨m, hrun, -⟩ := callback_fault hle hco
      exact ⟨_, _, hrun⟩

section
variable {f : Format} {c : FillDirCtx} {offset : Nat}

theorem dentryLoop_append (xs ys : List Dentry) (o o' : Nat) (c : FillDirCtx) :
    ∃ k c', k ≤ xs.length ∧ dentryLoop (getdentsCallback (fill f)) xs o c = .ok (o + k, c') ∧
      dentryLoop (getdentsCallback (fill f)) (xs ++ ys) o' c =
        if k < xs.length then .ok (o' + k, c') else dentryLoop (getdentsCallback (fill f)) ys (o' + k) c' := by
  induction xs generalizing o o' c with
  | nil => exact ⟨0, c, le_rfl, pure_run _, rfl⟩
  | cons d xs ih =>
    obtain ⟨b, c₁, hrun⟩ := callback_total f d c
    rw [cons_append, dentryLoop, dentryLoop, bind_run hrun, bind_run hrun]
    cases b with
    | false =>
      refine ⟨0, c₁, zero_le _, ?_, ?_⟩
      · rw [if_neg Bool.false_ne_true, pure_run, add_zero]
      · rw [if_neg Bool.false_ne_true, pure_run]
        exact (if_pos (succ_pos xs.length)).symm
    | true =>
      obtain ⟨k, c', hk, hxs, happ⟩ := ih (o + 1) (o' + 1) c₁
      refine ⟨k + 1, c', succ_le_succ hk, ?_, ?_⟩
      · rw [if_pos rfl, hxs, add_assoc, add_comm 1 k]
      · rw [if_pos rfl, happ, add_assoc, add_comm 1 k, length_cons]
        simp only [add_lt_add_iff_right]

def passed (offset : Nat) (l : List Proc) : Nat := l.foldl (fun _ t => offsetBehind t.tid) offset

theorem taskLoop_run (l : List Proc) (offset o : Nat) (c : FillDirCtx) :
    ∃ k c', k ≤ l.length ∧ dentryLoop (getdentsCallback (fill f)) (l.map entry) o c = .ok (o + k, c') ∧
      taskLoop (getdentsCallback (fill f)) l offset c = .ok (passed offset (l.take k), c') := by
  induction l generalizing offset o c with
  | nil => exact ⟨0, c, le_rfl, pure_run _, pure_run _⟩
  | cons t l ih =>
    obtain ⟨b, c₁, hrun⟩ := callback_total f (entry t) c
    have hrun' : getdentsCallback (fill f) (nameOf t.tid) (modeToDirentType .dir) c = .ok (b, c₁) := hrun
    rw [map_cons, dentryLoop, taskLoop, bind_run hrun, bind_run hrun']
    cases b with
    | false =>
      refine ⟨0, c₁, zero_le _, ?_, ?_⟩
      · rw [if_neg Bool.false_ne_true, pure_run, add_zero]
      · rw [if_neg Bool.false_ne_true, pure_run, take_zero]
        rfl
    | true =>
      obtain ⟨k, c', hk, hd, ht⟩ := ih (offsetBehind t.tid) (o + 1) c₁
      refine ⟨k + 1, c', succ_le_succ hk, ?_, ?_⟩
      · rw [if_pos rfl, hd, add_assoc, add_comm 1 k]
      · rw [if_pos rfl, ht, take_succ_cons]
        rfl

def reached (offset : Nat) : Int := (offset - NUM_ITEMS : Nat)

def due (allTasks : List Proc) (offset : Nat) : List Proc := allTasks.dropWhile fun it => it.tid ≤ reached offset

def remaining (allTasks : List Proc) (offset : Nat) : List Dentry :=
  children.drop offset ++ (due allTasks offset).map entry

theorem offsetPid_eq (hlow : NUM_ITEMS ≤ offset) (hhi : offset < 2 ^ 31 + NUM_ITEMS) :
    offsetPid offset = reached offset := by
  have hca : (offset : Int) - (NUM_ITEMS : Nat) = (offset - NUM_ITEMS : Nat) := (ofNat_sub hlow).symm
  unfold offsetPid reached
  rw [hca]
  refine bmod_eq_of_le ?_ ?_
  · omega
  · omega

theorem procRootGetdents_behind (allTasks : List Proc) (hlow : NUM_ITEMS ≤ offset)
    (hhi : offset < 2 ^ 31 + NUM_ITEMS) (c : FillDirCtx) :
    procRootGetdents (getdentsCallback (fill f)) allTasks offset c =
      taskLoop (getdentsCallback (fill f)) (due allTasks offset) offset c := by
  have hsm : offset % 2 ^ 32 = offset := mod_eq_of_lt (by unfold NUM_ITEMS at hhi; omega)
  unfold procRootGetdents
  rw [hsm, if_neg (not_lt.mpr hlow), bind_run (pure_run offset)]
  dsimp only
  rw [hsm, if_neg (not_lt.mpr hlow), offsetPid_eq hlow hhi]
  rfl

theorem procRootGetdents_run (allTasks : List Proc) (ho : offset < 2 ^ 31 + NUM_ITEMS) (c : FillDirCtx) :
    ∃ k c', dentryLoop (getdentsCallback (fill f)) (remaining allTasks offset) 0 c = .ok (k, c') ∧
      procRootGetdents (getdentsCallback (fill f)) allTasks offset c =
        .ok (passed (offset + min k (children.drop offset).length)
          ((due allTasks offset).take (k - (children.drop offset).length)), c') := by
  have hlen : (children.drop offset).length = NUM_ITEMS - offset := by
    rw [length_drop]
    rfl
  unfold remaining
  by_cases hit : offset < NUM_ITEMS
  · obtain ⟨k, c₁, hk, hrun, happ⟩ :=
      dentryLoop_append (f := f) (children.drop offset) ((due allTasks offset).map entry) offset 0 c
    have hsm : offset % 2 ^ 32 = offset := Nat.mod_eq_of_lt (by unfold NUM_ITEMS at hit; omega)
    have hst : dentryGetdents (getdentsCallback (fill f)) children offset c = .ok (offset + k, c₁) := hrun
    have hsm' : (offset + k) % 2 ^ 32 = offset + k := Nat.mod_eq_of_lt (by unfold NUM_ITEMS at hit hlen; omega)
    have hbi : procRootGetdents (getdentsCallback (fill f)) allTasks offset c =
        if offset + k < NUM_ITEMS then .ok (offset + k, c₁)
        else taskLoop (getdentsCallback (fill f)) (allTasks.dropWhile fun it => it.tid ≤ offsetPid (offset + k))
          (offset + k) c₁ := by
      unfold procRootGetdents
      rw [hsm, if_pos hit, bind_run hst]
      dsimp only
      rw [hsm']
      split
      · exact pure_run _
      · rfl
    rw [hbi, happ]
    by_cases hfew : k < (children.drop offset).length
    · refine ⟨k, c₁, ?_, ?_⟩
      · rw [if_pos hfew, Nat.zero_add]
      · rw [if_pos (by omega), Nat.min_eq_left hk, Nat.sub_eq_zero_of_le hk, take_zero]
        rfl
    · obtain rfl : k = (children.drop offset).length := by omega
      have hend : offset + (children.drop offset).length = NUM_ITEMS := by omega
      have hdue : (allTasks.dropWhile fun it => it.tid ≤ offsetPid NUM_ITEMS) = due allTasks offset := by
        have hre : reached offset = offsetPid NUM_ITEMS := by
          unfold reached
          rw [Nat.sub_eq_zero_of_le hit.le]
          rfl
        rw [due, hre]
      obtain ⟨k', c', hk', hd, ht⟩ :=
        taskLoop_run (f := f) (due allTasks offset) NUM_ITEMS (0 + (children.drop offset).length) c₁
      refine ⟨0 + (children.drop offset).length + k', c', ?_, ?_⟩
      · rw [if_neg hfew, hd]
      · rw [hend, if_neg (Nat.lt_irrefl _), hdue, ht, Nat.zero_add, Nat.min_eq_right (Nat.le_add_right _ _), hend,
          Nat.add_sub_cancel_left]
  · have hnn : children.drop offset = [] := drop_eq_nil_of_le (Nat.not_lt.mp hit)
    obtain ⟨k, c', hk, hd, ht⟩ := taskLoop_run (f := f) (due allTasks offset) offset 0 c
    refine ⟨k, c', ?_, ?_⟩
    · rw [hnn, nil_append, hd, Nat.zero_add]
    · rw [procRootGetdents_behind allTasks (Nat.not_lt.mp hit) ho, ht, hnn, length_nil, Nat.min_zero,
        Nat.add_zero, Nat.sub_zero]

end

/-! ## The system -/

structure Listing where
  tasks : List Proc
  records : List Record
  returned : Nat

def tidOf (r : Record) : Option Int := if strIsUint r.name then some (atoi r.name) else none

def Listing.tids (c : Listing) : List Int := c.records.filterMap tidOf

/-- `clones` are tasks that `sys_clone` has not registered yet. -/
structure State where
  nextTid : Int
  clones : List Proc
  allTasks : List Proc
  offset : Nat
  calls : List Listing

/-- A task may change everything but its id, in `exit`, `setpgid` and when it is adopted. -/
inductive Event
  | clone (current : Nat) (thread : Bool) (ok : Bool)
  | register (i : Nat)
  | change (i : Nat) (t : Proc)
  | reap (b : WaitpidBlocker)
  | getdents (c : Call)

namespace State

def listed (s : State) : List Int := s.calls.flatMap Listing.tids

/-- `task_generate_next_tid` wraps around. -/
def drawTid (s : State) : State := { s with nextTid := afterDraw s.nextTid }

def cloned (s : State) (current : Proc) (thread : Bool) : Proc :=
  if thread then ⟨s.nextTid, current.tgid, current.pgid, current.ppid, false⟩
  else ⟨s.nextTid, s.nextTid, current.pgid, current.tgid, false⟩

/-- Only the calls of `getdents` that succeed are steps. -/
def exec (s : State) : Event → Option State
  | .clone i thread ok =>
    match s.allTasks[i]? with
    | none => none
    | some current => some { s.drawTid with clones := if ok then s.clones ++ [s.cloned current thread] else s.clones }
  | .register i =>
    match s.clones[i]? with
    | none => none
    | some t => some { s with clones := s.clones.eraseIdx i, allTasks := schedRegister t s.allTasks }
  | .change i t =>
    match s.allTasks[i]? with
    | none => none
    | some it => some { s with allTasks := s.allTasks.set i { t with tid := it.tid } }
  | .reap b => some { s with allTasks := unblockWaitpid b s.allTasks }
  | .getdents c =>
    match ProcList.getdents s.allTasks s.offset c.userBuf.toNat c.count.toNat (fill c.format) c.mem with
    | .ok ⟨.ok n, offset, mem⟩ =>
      some { s with
        offset := offset
        calls := s.calls ++ [⟨s.allTasks, readRecords c.format mem.byte n c.userBuf.toNat n, n⟩] }
    | _ => none

def Step (s : State) (e : Event) (s' : State) : Prop := s.exec e = some s'

def boot : State := ⟨2, [], [⟨1, 1, 1, 0, false⟩], 0, []⟩

def Distinct (s : State) : Event → Prop
  | .register i => ∀ t ∈ s.clones[i]?, ∀ u ∈ s.allTasks, u.tid ≠ t.tid
  | _ => True

instance (s : State) : (e : Event) → Decidable (s.Distinct e)
  | .register i => inferInstanceAs (Decidable (∀ t ∈ s.clones[i]?, _))
  | .clone .. | .change .. | .reap _ | .getdents _ => .isTrue trivial

end State

/-! ## One call -/

section
variable {s s' : State} {l : List Proc} {t : Proc}

theorem getdents_step {c : Call} (ho : s.offset < 2 ^ 31 + NUM_ITEMS) (h : s.Step (.getdents c) s') :
    ∃ k n, s' = { s with
        offset := passed (s.offset + min k (children.drop s.offset).length)
          ((due s.allTasks s.offset).take (k - (children.drop s.offset).length))
        calls := s.calls ++
          [⟨s.allTasks, ((remaining s.allTasks s.offset).take k).map (Dentry.record c.format), n⟩] } ∧
      (n = 0 → remaining s.allTasks s.offset = []) := by
  obtain ⟨k, ctx, hlo, hrun⟩ := procRootGetdents_run (f := c.format) s.allTasks ho
    ⟨c.userBuf.toNat, c.count.toNat, 0, none, c.mem⟩
  obtain ⟨k', ctx', hlo', hf⟩ := dentryLoop_run c.format (remaining s.allTasks s.offset) 0
    ⟨c.userBuf.toNat, c.count.toNat, 0, none, c.mem⟩ rfl
  obtain ⟨hk, hctx⟩ := Prod.mk.inj (Except.ok.inj (hlo'.symm.trans hlo))
  obtain rfl : k' = k := by omega
  subst hctx
  have hn : ctx'.nwritten = span c.format ((remaining s.allTasks s.offset).take k') := by simpa using hf.nwritten
  have hre := readRecords_of_holds (n := ctx'.nwritten) hf.holds (by rw [hn])
  rw [← hn] at hre
  unfold State.Step at h
  simp only [State.exec, ProcList.getdents, hrun] at h
  cases hrc : ctx'.rc with
  | some e =>
    simp only [hrc] at h
    cases h
  | none =>
    simp only [hrc, Option.some.injEq] at h
    refine ⟨k', ctx'.nwritten, ?_, fun hze => ?_⟩
    · rw [← h, hre]
    · rw [hze] at hn
      have hst := hf.stops
      generalize hr : ctx'.rc = r at hst
      rw [hrc] at hr
      cases hst with
      | atEnd hk =>
        have := span_eq_zero hn.symm
        rwa [hk, take_length] at this
      | full hk hlt =>
        rw [← hn, if_pos rfl] at hr
        cases hr
      | fault => cases hr

theorem mem_due (hl : l.Pairwise (·.tid < ·.tid)) (offset : Nat) :
    t ∈ due l offset ↔ t ∈ l ∧ reached offset < t.tid := by
  unfold due
  induction hl with
  | nil => simp
  | @cons u l hu hl ih =>
    by_cases hle : u.tid ≤ reached offset
    · rw [dropWhile_cons_of_pos (by simpa using hle), ih, mem_cons]
      constructor
      · exact fun h => ⟨.inr h.1, h.2⟩
      · rintro ⟨rfl | h, hlt⟩
        · omega
        · exact ⟨h, hlt⟩
    · rw [dropWhile_cons_of_neg (by simpa using hle), mem_cons]
      constructor
      · rintro (rfl | h)
        · exact ⟨.inl rfl, by omega⟩
        · have := hu t h
          exact ⟨.inr h, by omega⟩
      · exact fun h => h.1

theorem due_sorted {offset : Nat} (hl : l.Pairwise (·.tid < ·.tid)) :
    (due l offset).Pairwise (·.tid < ·.tid) := hl.sublist (dropWhile_sublist _)

theorem tidOf_item {d : Dentry} (hd : d ∈ children) (f : Format) : tidOf (d.record f) = none := by
  have hall : ∀ d ∈ children, strIsUint d.name = false := by decide
  have hna : (d.record f).name = d.name := rfl
  unfold tidOf
  rw [hna, hall d hd]
  rfl

theorem tidOf_task (hlow : 0 ≤ t.tid) (hhi : t.tid < 2 ^ 31) (f : Format) :
    tidOf ((entry t).record f) = some t.tid := by
  have hna : ((entry t).record f).name = utoa t.tid.natAbs := if_neg (by show ¬t.tid < 0; omega)
  unfold tidOf
  rw [hna, strIsUint_utoa, if_pos rfl, atoi_utoa (by omega)]
  congr 1
  omega

theorem tids_remaining (hl : l.Pairwise (·.tid < ·.tid)) (hsm : ∀ t ∈ l, t.tid < 2 ^ 31) (offset k : Nat)
    (f : Format) :
    (((remaining l offset).take k).map (Dentry.record f)).filterMap tidOf =
      ((due l offset).take (k - (children.drop offset).length)).map Proc.tid := by
  unfold remaining
  rw [take_append, map_append, filterMap_append]
  have hit : (((children.drop offset).take k).map (Dentry.record f)).filterMap tidOf = [] := by
    rw [filterMap_map, filterMap_eq_nil_iff]
    intro d hd
    exact tidOf_item (mem_of_mem_drop (mem_of_mem_take hd)) f
  rw [hit, nil_append, ← map_take, map_map, filterMap_map, ← filterMap_eq_map]
  refine filterMap_congr fun t ht => ?_
  obtain ⟨hmem, hlt⟩ := (mem_due hl offset).mp (mem_of_mem_take ht)
  have hpos : 0 ≤ reached offset := natCast_nonneg _
  exact tidOf_task (by omega) (hsm t hmem) f

theorem reached_passed (offset : Nat) (l : List Proc) (hlow : 0 ≤ t.tid) (hhi : t.tid < 2 ^ 31) :
    reached (passed offset (l ++ [t])) = t.tid ∧ passed offset (l ++ [t]) < 2 ^ 31 + NUM_ITEMS := by
  have hpa : passed offset (l ++ [t]) = offsetBehind t.tid := foldl_append.trans rfl
  rw [hpa]
  unfold reached offsetBehind NUM_ITEMS
  omega

theorem reached_after {rest : List Proc} {offset k : Nat} (ho : offset < 2 ^ 31 + NUM_ITEMS)
    (hso : (l ++ rest).Pairwise (·.tid < ·.tid)) (hl : ∀ t ∈ l, reached offset < t.tid ∧ t.tid < 2 ^ 31) :
    let o := passed (offset + min k (children.drop offset).length) l
    o < 2 ^ 31 + NUM_ITEMS ∧ reached offset ≤ reached o ∧ (∀ t ∈ l, t.tid ≤ reached o) ∧
      (l = [] → reached o = reached offset) ∧ ∀ t ∈ rest, l ≠ [] → reached o < t.tid := by
  rcases eq_nil_or_concat l with rfl | ⟨front, t, rfl⟩
  · have hlen : (children.drop offset).length = NUM_ITEMS - offset := by
      rw [length_drop]
      rfl
    have hsa : reached (offset + min k (children.drop offset).length) = reached offset := by
      unfold reached
      omega
    refine ⟨?_, hsa.ge, nofun, fun _ => hsa, fun _ _ h => absurd rfl h⟩
    show offset + min k (children.drop offset).length < 2 ^ 31 + NUM_ITEMS
    omega
  · rw [concat_eq_append] at hso hl ⊢
    obtain ⟨hlt, hsm⟩ := hl t (by simp)
    have hpos : 0 ≤ reached offset := natCast_nonneg _
    have hfr := (pairwise_append.mp hso).1
    obtain ⟨hre, hbo⟩ :=
      reached_passed (offset + min k (children.drop offset).length) front (hpos.trans hlt.le) hsm
    refine ⟨hbo, by omega, fun u hu => ?_, by simp, fun u hu _ => ?_⟩
    · rw [hre]
      rcases mem_append.mp hu with hu | hu
      · exact ((pairwise_append.mp hfr).2.2 u hu t (by simp)).le
      · rw [mem_singleton.mp hu]
    · rw [hre]
      exact (pairwise_append.mp hso).2.2 t (by simp) u hu

/-! ## Registered tasks -/

theorem mem_schedRegister {task : Proc} : t ∈ schedRegister task l ↔ t = task ∨ t ∈ l := by
  induction l with
  | nil => exact mem_cons
  | cons it l ih =>
    rw [schedRegister]
    split
    · rw [mem_cons, ih, mem_cons]
      tauto
    · exact mem_cons

theorem schedRegister_sorted {task : Proc} (hl : l.Pairwise (·.tid < ·.tid)) (hnew : ∀ u ∈ l, u.tid ≠ task.tid) :
    (schedRegister task l).Pairwise (·.tid < ·.tid) := by
  induction hl with
  | nil => exact pairwise_singleton _ _
  | @cons it l hit hl ih =>
    rw [schedRegister]
    split
    · rename_i hlt
      refine .cons (fun t ht => ?_) (ih fun u hu => hnew u (.tail _ hu))
      rcases mem_schedRegister.mp ht with rfl | ht
      · exact hlt
      · exact hit t ht
    · have hne := hnew it (.head _)
      refine .cons (fun t ht => ?_) (.cons hit hl)
      rcases mem_cons.mp ht with rfl | ht
      · omega
      · have := hit t ht
        omega

/-! ## The invariant -/

def Listing.Has (c : Listing) (tid : Int) : Prop := ∃ t ∈ c.tasks, t.tid = tid

structure State.Inv (s : State) : Prop where
  sorted : s.allTasks.Pairwise (·.tid < ·.tid)
  small : ∀ t ∈ s.allTasks, t.tid < 2 ^ 31
  smallClones : ∀ t ∈ s.clones, t.tid < 2 ^ 31
  smallNext : s.nextTid < 2 ^ 31
  position : s.offset < 2 ^ 31 + NUM_ITEMS
  increasing : s.listed.Pairwise (· < ·)
  below : ∀ tid ∈ s.listed, tid ≤ reached s.offset
  registered : ∀ c ∈ s.calls, ∀ tid ∈ c.tids, c.Has tid
  seen : ∀ tid, 1 ≤ tid → tid ≤ reached s.offset → (∀ c ∈ s.calls, c.Has tid) → tid ∈ s.listed
  ended : ∀ c ∈ s.calls.getLast?, c.returned = 0 → ∀ t ∈ c.tasks, t.tid ≤ reached s.offset

theorem boot_inv : State.boot.Inv where
  sorted := by decide
  small := by decide
  smallClones := nofun
  smallNext := by decide
  position := by decide
  increasing := .nil
  below := nofun
  registered := nofun
  seen tid hlow hhi := by
    have : reached State.boot.offset = 0 := rfl
    omega
  ended := nofun

theorem State.Inv.of_tasks (h : s.Inv) (hso : s'.allTasks.Pairwise (·.tid < ·.tid))
    (hsm : ∀ t ∈ s'.allTasks, t.tid < 2 ^ 31) (hcl : ∀ t ∈ s'.clones, t.tid < 2 ^ 31)
    (hnx : s'.nextTid < 2 ^ 31) (hof : s'.offset = s.offset) (hca : s'.calls = s.calls) : s'.Inv := by
  have hli : s'.listed = s.listed := by
    unfold State.listed
    rw [hca]
  refine ⟨hso, hsm, hcl, hnx, ?_, ?_, ?_, ?_, ?_, ?_⟩
  · exact hof ▸ h.position
  · exact hli ▸ h.increasing
  · rw [hli, hof]
    exact h.below
  · exact hca ▸ h.registered
  · rw [hli, hof, hca]
    exact h.seen
  · rw [hca, hof]
    exact h.ended

theorem State.Inv.clone (h : s.Inv) (current : Proc) (thread ok : Bool) :
    State.Inv { s.drawTid with clones := if ok then s.clones ++ [s.cloned current thread] else s.clones } := by
  refine h.of_tasks h.sorted h.small (fun t ht => ?_) (afterDraw_lt _) rfl rfl
  split at ht
  · rcases mem_append.mp ht with ht | ht
    · exact h.smallClones t ht
    · have htid : (s.cloned current thread).tid = s.nextTid := by
        unfold State.cloned
        split <;> rfl
      rw [mem_singleton.mp ht, htid]
      exact h.smallNext
  · exact h.smallClones t ht

theorem State.Inv.register (h : s.Inv) {i : Nat} (ht : s.clones[i]? = some t) (hd : ∀ u ∈ s.allTasks, u.tid ≠ t.tid) :
    State.Inv { s with clones := s.clones.eraseIdx i, allTasks := schedRegister t s.allTasks } := by
  refine h.of_tasks (schedRegister_sorted h.sorted hd) (fun u hu => ?_)
    (fun u hu => h.smallClones u ((eraseIdx_sublist ..).subset hu)) h.smallNext rfl rfl
  rcases mem_schedRegister.mp hu with rfl | hu
  · exact h.smallClones u (mem_of_getElem? ht)
  · exact h.small u hu

theorem State.Inv.change (h : s.Inv) {i : Nat} {it : Proc} (hi : s.allTasks[i]? = some it) (t : Proc) :
    State.Inv { s with allTasks := s.allTasks.set i { t with tid := it.tid } } := by
  obtain ⟨hlt, rfl⟩ := List.getElem?_eq_some_iff.mp hi
  have hti : (s.allTasks.set i { t with tid := s.allTasks[i].tid }).map Proc.tid = s.allTasks.map Proc.tid := by
    have hlt' : i < (s.allTasks.map Proc.tid).length := by rwa [List.length_map]
    have hse : (s.allTasks.map Proc.tid).set i (s.allTasks.map Proc.tid)[i] = s.allTasks.map Proc.tid :=
      List.set_getElem_self hlt'
    rw [List.getElem_map] at hse
    rw [List.map_set]
    exact hse
  have hso : ((s.allTasks.map Proc.tid).Pairwise (· < ·)) := List.pairwise_map.mpr h.sorted
  refine h.of_tasks (List.pairwise_map.mp (hti ▸ hso)) (fun u hu => ?_) h.smallClones h.smallNext rfl rfl
  have hu : u.tid ∈ s.allTasks.map Proc.tid := hti ▸ List.mem_map_of_mem (f := Proc.tid) hu
  obtain ⟨v, hv, htid⟩ := List.mem_map.mp hu
  exact htid ▸ h.small v hv

theorem State.Inv.reap (h : s.Inv) (b : WaitpidBlocker) :
    State.Inv { s with allTasks := unblockWaitpid b s.allTasks } :=
  h.of_tasks (h.sorted.sublist eraseP_sublist) (fun t ht => h.small t (eraseP_sublist.subset ht))
    h.smallClones h.smallNext rfl rfl

theorem State.Inv.getdents (h : s.Inv) {c : Call} (hs : s.Step (.getdents c) s') : s'.Inv := by
  obtain ⟨k, n, rfl, hze⟩ := getdents_step h.position hs
  have hti := tids_remaining h.sorted h.small s.offset k c.format
  -- `l` are the tasks listed by this call, `rest` the others that were due
  generalize hl : (due s.allTasks s.offset).take (k - (children.drop s.offset).length) = l at hti ⊢
  obtain ⟨rest, hre⟩ : ∃ rest, due s.allTasks s.offset = l ++ rest :=
    ⟨_, (hl ▸ (take_append_drop _ _)).symm⟩
  have hso : (l ++ rest).Pairwise (·.tid < ·.tid) := hre ▸ due_sorted h.sorted
  have hmem : ∀ t ∈ l, t ∈ s.allTasks ∧ reached s.offset < t.tid := fun t ht =>
    (mem_due h.sorted s.offset).mp (hre ▸ mem_append_left rest ht)
  obtain ⟨hpo, hmo, hle, hsa, haf⟩ := reached_after (k := k) h.position hso fun t ht =>
    ⟨(hmem t ht).2, h.small t (hmem t ht).1⟩
  generalize passed (s.offset + min k (children.drop s.offset).length) l = o at *
  have hli : State.listed { s with
      offset := o
      calls := s.calls ++ [⟨s.allTasks, ((remaining s.allTasks s.offset).take k).map (Dentry.record c.format), n⟩] } =
      s.listed ++ l.map Proc.tid := by
    unfold State.listed
    rw [flatMap_append, flatMap_singleton]
    exact congrArg _ hti
  refine ⟨h.sorted, h.small, h.smallClones, h.smallNext, hpo, ?_, ?_, ?_, fun tid hlow hhi hall => ?_, ?_⟩
  · rw [hli]
    refine pairwise_append.mpr ⟨h.increasing, ?_, fun a ha b hb => ?_⟩
    · exact pairwise_map.mpr (pairwise_append.mp hso).1
    · obtain ⟨t, ht, rfl⟩ := mem_map.mp hb
      have := h.below a ha
      have := (hmem t ht).2
      omega
  · rw [hli]
    intro tid htid
    rcases mem_append.mp htid with htid | htid
    · exact (h.below tid htid).trans hmo
    · obtain ⟨t, ht, rfl⟩ := mem_map.mp htid
      exact hle t ht
  · intro c' hc' tid htid
    rcases mem_append.mp hc' with hc' | hc'
    · exact h.registered c' hc' tid htid
    · obtain rfl := mem_singleton.mp hc'
      have htid : tid ∈ l.map Proc.tid := hti ▸ htid
      obtain ⟨t, ht, rfl⟩ := mem_map.mp htid
      exact ⟨t, (hmem t ht).1, rfl⟩
  · rw [hli]
    by_cases hold : tid ≤ reached s.offset
    · exact mem_append_left _ (h.seen tid hlow hold fun c' hc' => hall c' (mem_append_left _ hc'))
    · -- the task is due; had it not been listed, the position would be before it
      obtain ⟨t, ht, rfl⟩ := hall _ (mem_append_right _ (.head _))
      have hdue : t ∈ l ++ rest := hre ▸ (mem_due h.sorted s.offset).mpr ⟨ht, not_le.mp hold⟩
      rcases mem_append.mp hdue with hdue | hdue
      · exact mem_append_right _ (mem_map_of_mem hdue)
      · by_cases hnil : l = []
        · rw [hsa hnil] at hhi
          exact absurd hhi hold
        · exact absurd hhi (not_le.mpr (haf t hdue hnil))
  · intro c' hc' hrt t ht
    rw [getLast?_append, getLast?_singleton, Option.some_or] at hc'
    obtain rfl := Option.some.inj hc'
    have hnil : due s.allTasks s.offset = [] := by
      have := (append_eq_nil_iff.mp (hze hrt)).2
      exact map_eq_nil_iff.mp this
    have hl : l = [] := (append_eq_nil_iff.mp (hre.symm.trans hnil)).1
    rw [hsa hl]
    refine not_lt.mp fun hlt => ?_
    have hdue := (mem_due h.sorted s.offset).mpr ⟨ht, hlt⟩
    rw [hnil] at hdue
    cases hdue

theorem State.Inv.step (h : s.Inv) {e : Event} (hs : s.Step e s') (hd : s.Distinct e) : s'.Inv := by
  cases e with
  | clone i thread ok =>
    simp only [State.Step, State.exec] at hs
    split at hs
    · cases hs
    · cases hs
      exact h.clone _ thread ok
  | register i =>
    simp only [State.Step, State.exec] at hs
    split at hs
    · cases hs
    · rename_i t ht
      cases hs
      exact h.register ht (hd t ht)
  | change i t =>
    simp only [State.Step, State.exec] at hs
    split at hs
    · cases hs
    · rename_i it hit
      cases hs
      exact h.change hit t
  | reap b =>
    simp only [State.Step, State.exec, Option.some.injEq] at hs
    subst hs
    exact h.reap b
  | getdents c => exact h.getdents hs

end

/-! ## Runs -/

structure State.Exact (s : State) : Prop where
  increasing : s.listed.Pairwise (· < ·)
  once : s.listed.Nodup
  registered : ∀ c ∈ s.calls, ∀ tid ∈ c.tids, c.Has tid
  complete : ∀ c ∈ s.calls.getLast?, c.returned = 0 → ∀ tid, 1 ≤ tid → (∀ c ∈ s.calls, c.Has tid) → tid ∈ s.listed

/-- `/proc` lists each task once and in order as long as no task gets the id of a registered one. -/
theorem proc_listing_exact {s : State} (h : Run State.Step State.Distinct State.boot s) : s.Exact := by
  have hinv : s.Inv := h.invariant boot_inv fun _ _ _ h hs hd => h.step hs hd
  refine ⟨hinv.increasing, hinv.increasing.imp fun hlt => Int.ne_of_lt hlt, hinv.registered, ?_⟩
  intro c hc hre tid hlow hall
  obtain ⟨t, ht, rfl⟩ := hall c (mem_of_getLast? hc)
  exact hinv.seen t.tid hlow (hinv.ended c hc hre t ht) hall

def wholeBuffer : Call := ⟨.dirent64, 0x1000, 1024, ⟨fun _ => true, fun _ => 0⟩⟩

theorem proc_listing_exact_two :
    ∃ s, Run State.Step State.Distinct State.boot s ∧ (s.listed = [1, 3] ∧ s.calls.length = 3) ∧ s.Exact := by
  obtain ⟨s, hrun, hs⟩ := exists_follow State.exec State.Distinct
    [.clone 0 false true, .clone 0 true true, .register 1, .getdents wholeBuffer, .register 0,
      .getdents wholeBuffer, .getdents wholeBuffer] State.boot
    (fun s => s.listed = [1, 3] ∧ s.calls.length = 3) (by decide +kernel)
  exact ⟨s, hrun, hs, proc_listing_exact hrun⟩

theorem run_draws (n : Nat) :
    Run State.Step (fun _ _ => True) State.boot { State.boot with nextTid := bmod (2 + n) (2 ^ 32) } := by
  induction n with
  | zero => exact .refl _
  | succ n ih =>
    have hex : ∀ x, State.exec { State.boot with nextTid := x } (.clone 0 false false) =
        some { State.boot with nextTid := bmod (x + 1) (2 ^ 32) } := fun _ => rfl
    have hnx : bmod (bmod (2 + n) (2 ^ 32) + 1) (2 ^ 32) = bmod (2 + (n + 1 : Nat)) (2 ^ 32) := by
      rw [bmod_add_bmod, natCast_succ, add_assoc]
    exact .tail (e := .clone 0 false false) ih ((hex _).trans (by rw [hnx])) trivial

/-- All ids have been drawn once: a task gets the id of init, and `/proc` lists it twice. -/
theorem proc_lists_tid_twice :
    ∃ s, Run State.Step (fun _ _ => True) State.boot s ∧ s.listed = [1, 1] ∧ ¬s.listed.Pairwise (· < ·) := by
  have hdr := run_draws (2 ^ 32 - 1)
  obtain ⟨s, hrun, hs⟩ := exists_follow State.exec (fun _ _ => True)
    [.clone 0 false true, .register 0, .getdents wholeBuffer] { State.boot with nextTid := 1 }
    (fun s => s.listed = [1, 1]) (by decide +kernel)
  exact ⟨s, hdr.trans hrun, hs, by rw [hs]; decide⟩

end ProcList

end Yagura
