import Yagura.ThreadGroups

/-!
# Exit notices

The last running thread of a process tells the parent with `exit_signal`.
`sys_clone` stores that signal in the leader of a new process and in no thread
that joins it, so the parent hears of the end of a process exactly when the
leader is the last to exit.
-/

namespace Yagura

open Function List Nat Sys

/-! ## The record of what exits send -/

def Sys.told (s s' : Sys) (t : Nat) : Option (Int × Nat) :=
  match s.phase t with
  | .notify pid => if s'.phase t = .exiting then some (pid, (s.task t).exitSignal) else none
  | _ => none

def Sys.Telling (s : Sys) (g t : Nat) (pid : Int) : Prop := (s.task t).threadGroup = g ∧ s.phase t = .notify pid

/-- `created g` is the exit signal `sys_clone` was given for the process that `g`
leads, `sent g` what the threads of group `g` have sent in `exit`, in order. -/
structure Notices where
  sys : Sys
  created : Nat → Option Nat
  sent : Nat → List (Int × Nat)

namespace Notices

def next (s : Notices) (e : Ev) (s' : Sys) : Notices where
  sys := s'
  created := match e with
    | .clone _ flags =>
      if cloneThread flags then s.created else update s.created s.sys.nextTask (some (flags % 256))
    | _ => s.created
  sent g := s.sent g ++ (List.range s.sys.nextTask).filterMap fun t =>
    if (s.sys.task t).threadGroup = g then s.sys.told s' t else none

def Step (n : Nat) (s : Notices) (e : Ev) (t : Notices) : Prop := ∃ s', Yagura.Step n s.sys e s' ∧ t = s.next e s'

def boot (n : Nat) : Notices := ⟨Yagura.boot n, fun _ => none, fun _ => []⟩

def Quiet (s : Notices) (g : Nat) : Prop := s.sent g = [] ∧ ∀ t pid, ¬ s.sys.Telling g t pid

/-- The parent of `g` has been sent `signal` once and nobody is about to send another,
or a single thread is about to send it. -/
def Told (s : Notices) (g signal : Nat) : Prop :=
  (∃ pid, s.sent g = [(pid, signal)] ∧ ∀ t pid, ¬ s.sys.Telling g t pid) ∨
  s.sent g = [] ∧ ∃ t pid, s.sys.Telling g t pid ∧ (s.sys.task t).exitSignal = signal ∧
    ∀ u pid, s.sys.Telling g u pid → u = t

end Notices

variable {n : Nat} {s s' : Sys} {e : Ev} {t u : Nat}

theorem filterMap_range_single {α : Type} {f : Nat → Option α} {N : Nat} {x : α} (ht : t < N) (hx : f t = some x)
    (hf : ∀ u, u ≠ t → f u = none) : (range N).filterMap f = [x] := by
  induction N with
  | zero => omega
  | succ N ih =>
    rw [range_succ, filterMap_append]
    by_cases he : t = N
    · subst he
      have hnil : (range t).filterMap f = [] := by
        rw [filterMap_eq_nil_iff]
        intro u hu
        exact hf u (by have := mem_range.mp hu; omega)
      simp [hnil, hx]
    · have hN : f N = none := hf N (by omega)
      simp [ih (by omega), hN]

/-! ## One notice for each process -/

def lastTells (s : Sys) : Ev → Prop
  | .exit t => s.numRunning (s.task t).threadGroup = 1 →
      (s.task t).exitSignal = (s.task (s.task t).threadGroup).exitSignal
  | _ => True

instance (s : Sys) : ∀ e, Decidable (lastTells s e)
  | .exit _ => inferInstanceAs (Decidable (_ → _))
  | .tau | .wake _ | .wakeReap .. | .reap _ | .clone .. | .link _ | .reparent _ => .isTrue trivial

def noticed (n : Nat) (s : Notices) (e : Ev) : Prop := answered n s.sys e ∧ lastTells s.sys e
  deriving Decidable

structure NoticeInv (n g signal : Nat) (s : Notices) : Prop where
  groups : GroupInv n s.sys
  leader : n < g ∧ g < s.sys.nextTask
  exitSignal : (s.sys.task g).exitSignal = signal
  running : 0 < s.sys.numRunning g → s.Quiet g
  unborn : ∀ v, s.sys.phase v = .clone g → s.Quiet g ∧ s.sys.numRunning g = 0
  told : s.sys.numRunning g = 0 → (∃ u, (s.sys.task u).threadGroup = g ∧ s.sys.Exited u) → s.Told g signal

section
variable {g signal : Nat} {s : Notices} {s' : Sys}

theorem sent_next (ht : ∀ t < s.sys.nextTask, (s.sys.task t).threadGroup = g → s.sys.told s' t = none) :
    (s.next e s').sent g = s.sent g := by
  have : (range s.sys.nextTask).filterMap (fun t =>
      if (s.sys.task t).threadGroup = g then s.sys.told s' t else none) = [] := by
    rw [filterMap_eq_nil_iff]
    intro t hlt
    split_ifs with hg
    · exact ht t (mem_range.mp hlt) hg
    · rfl
  simp only [Notices.next, this, append_nil]

theorem told_of_not_telling {t : Nat} (hg : (s.sys.task t).threadGroup = g) (ht : ∀ pid, ¬ s.sys.Telling g t pid) :
    s.sys.told s' t = none := by
  unfold Sys.told
  split
  · rename_i pid hp
    exact absurd ⟨hg, hp⟩ (ht pid)
  · rfl

theorem next_sent (ht : ∀ t pid, s'.Telling g t pid ↔ s.sys.Telling g t pid) : (s.next e s').sent g = s.sent g := by
  refine sent_next fun t _ hg => ?_
  unfold Sys.told
  split
  · rename_i pid hp
    simp [((ht t pid).mpr ⟨hg, hp⟩).2]
  · rfl

theorem Notices.Quiet.next (hq : s.Quiet g) (ht : ∀ t pid, s'.Telling g t pid ↔ s.sys.Telling g t pid) :
    (s.next e s').Quiet g :=
  ⟨(next_sent ht).trans hq.1, fun t pid h => hq.2 t pid ((ht t pid).mp h)⟩

theorem Notices.Told.next (hq : s.Told g signal) (ht : ∀ t pid, s'.Telling g t pid ↔ s.sys.Telling g t pid)
    (hs : ∀ t pid, s.sys.Telling g t pid → (s'.task t).exitSignal = (s.sys.task t).exitSignal) :
    (s.next e s').Told g signal := by
  obtain ⟨pid, hse, hn⟩ | ⟨hse, t, pid, hte, hsig, hun⟩ := hq
  · exact .inl ⟨pid, (next_sent ht).trans hse, fun t pid h => hn t pid ((ht t pid).mp h)⟩
  · exact .inr ⟨(next_sent ht).trans hse, t, pid, (ht t pid).mpr hte, (hs t pid hte).trans hsig,
      fun u pid h => hun u pid ((ht u pid).mp h)⟩

namespace NoticeInv

variable {t : Nat}

section
variable (hi : NoticeInv n g signal s)
include hi

theorem telling_lt {pid : Int} (ht : s.sys.Telling g t pid) : t < s.sys.nextTask :=
  (hi.groups.thread_lt (by simp [ht.2])).2

theorem exited_lt {u : Nat} (hu : s.sys.Exited u) : u < s.sys.nextTask :=
  (hi.groups.tree.ids.known_bounds (.inr hu)).2

theorem telling_iff (h : Step n s.sys e s') {p : Phase} (ht : t < s.sys.nextTask)
    (hph : s'.phase = update s.sys.phase t p)
    (hg : (s.sys.task t).threadGroup = g → ∀ pid, p = .notify pid ↔ s.sys.phase t = .notify pid) :
    ∀ u pid, s'.Telling g u pid ↔ s.sys.Telling g u pid := by
  intro u pid
  by_cases hu : u = t
  · subst hu
    rw [Sys.Telling, Sys.Telling, hph, update_self, (step_sameId h ht).threadGroup]
    exact and_congr_right fun h => hg h pid
  · rw [Sys.Telling, Sys.Telling, hph, update_of_ne hu]
    refine and_congr_left fun hp => ?_
    rw [hi.groups.same_group h (by simp [hp])]

theorem after (h : Step n s.sys e s') (hok : answered n s.sys e) (hrun : 0 < s'.numRunning g → (s.next e s').Quiet g)
    (hun : ∀ v, s.sys.phase v = .clone g → s'.phase v = .clone g → (s.next e s').Quiet g ∧ s'.numRunning g = 0)
    (hto : s'.numRunning g = 0 → (∃ u, (s'.task u).threadGroup = g ∧ s'.Exited u) → (s.next e s').Told g signal) :
    NoticeInv n g signal (s.next e s') := by
  have hlt := hi.leader.2
  refine ⟨hi.groups.step h hok, ⟨hi.leader.1, Nat.lt_of_lt_of_le hlt (nextTask_le h)⟩,
    (step_sameId h hlt).exitSignal.trans hi.exitSignal, hrun, fun v hv => hun v ?_ hv, hto⟩
  exact (step_clone h hv).resolve_right fun hg => Nat.ne_of_lt hlt hg.1

theorem last_tells (hsig : signal ≠ 0) (ht : n ≤ t ∧ t < s.sys.nextTask) (hg : (s.sys.task t).threadGroup = g)
    (hla : lastTells s.sys (.exit t)) (hone : s.sys.numRunning g = 1) :
    (s.sys.task t).exitSignal = signal ∧ s.sys.notifiesParent t = true := by
  have hsa : (s.sys.task t).exitSignal = signal := by rw [hla (hg ▸ hone), hg, hi.exitSignal]
  have hpp := hi.groups.parent t ht.1 ht.2 (by have := hi.leader.1; omega)
  exact ⟨hsa, by simp [notifiesParent, hg, hone, hpp, hsa, hsig]⟩

theorem of_telling_iff (h : Step n s.sys e s') (hok : answered n s.sys e)
    (hnum : s'.numRunning g = s.sys.numRunning g)
    (ht : ∀ t pid, s'.Telling g t pid ↔ s.sys.Telling g t pid)
    (hx : ∀ u, (s'.task u).threadGroup = g → s'.Exited u → s.sys.Exited u) : NoticeInv n g signal (s.next e s') := by
  refine hi.after h hok (fun hr => ?_) (fun v hv _ => ?_) fun hr ⟨u, hgu, hxu⟩ => ?_
  · exact (hi.running (hnum ▸ hr)).next ht
  · obtain ⟨hq, h0⟩ := hi.unborn v hv
    exact ⟨hq.next ht, hnum.trans h0⟩
  · have hxs := hx u hgu hxu
    have hgs := (step_sameId h (hi.exited_lt hxs)).threadGroup ▸ hgu
    exact (hi.told (hnum ▸ hr) ⟨u, hgs, hxs⟩).next ht fun t pid h' => (step_sameId h (hi.telling_lt h')).exitSignal

theorem register (h : Step n s.sys e s') (hok : answered n s.sys e) {c k : Nat}
    (hc : c < n) (hp : s.sys.pc c = .run t) (hph : s.sys.phase t = .clone k) (hk : (s.sys.task k).threadGroup = g)
    (hnum : s'.numRunning g = s.sys.numRunning g + 1) (hph' : s'.phase = update s.sys.phase t (.register k)) :
    NoticeInv n g signal (s.next e s') := by
  have htl := hi.groups.thread_lt (v := t) (by simp [hph])
  have hiff := hi.telling_iff h htl.2 hph' fun _ pid => by simp [hph]
  have hca : k = g ∨ 0 < s.sys.numRunning g := by
    obtain hj | hj := hi.groups.joins t k hph
    · exact .inl (hj.symm.trans hk)
    · have hrun := hi.groups.runner hc hp htl.1 (by simp [Sys.Exited, hph])
      exact .inr (hk ▸ hj ▸ hi.groups.running_pos hrun)
  refine hi.after h hok (fun _ => ?_) (fun v hv hv' => ?_) fun h0 => by omega
  · obtain rfl | hpos := hca
    · exact (hi.unborn t hph).1.next hiff
    · exact (hi.running hpos).next hiff
  · obtain rfl | hpos := hca
    · have hvt := hi.groups.builder v t k (by simp [hv]) (by simp [hph])
      rw [hvt, hph', update_self] at hv'
      cases hv'
    · have := (hi.unborn v hv).2
      omega

theorem exit {c : Nat} (h : Step n s.sys (.exit t) s') (hok : noticed n s (.exit t))
    (hsig : signal ≠ 0) (hc : c < n) (hp : s.sys.pc c = .run t) (ht : n ≤ t) (hph : s.sys.phase t = .user)
    (hg : (s.sys.task t).threadGroup = g) (hpos : 0 < s.sys.numRunning g)
    (hnum : s'.numRunning g = s.sys.numRunning g - 1)
    (hph' : s'.phase =
      update s.sys.phase t (if s.sys.notifiesParent t then .notify (s.sys.task t).ppid else .exiting)) :
    NoticeInv n g signal (s.next (.exit t) s') := by
  have htl := hi.groups.runner_bounds hc hp ht
  have hgt := (step_sameId h htl).threadGroup.trans hg
  obtain ⟨hse, hnn⟩ := hi.running hpos
  have hse' : (s.next (.exit t) s').sent g = [] :=
    (sent_next fun u _ hgu => told_of_not_telling hgu (hnn u)).trans hse
  have hot : ∀ u pid, u ≠ t → ¬ s'.Telling g u pid := by
    rintro u pid hu ⟨hgu, hpu⟩
    rw [hph', update_of_ne hu] at hpu
    rw [hi.groups.same_group h (by simp [hpu])] at hgu
    exact hnn u pid ⟨hgu, hpu⟩
  refine hi.after h hok.1 (fun hr => ⟨hse', fun u pid hu => ?_⟩) (fun v hv _ => ?_) fun h0 _ => ?_
  · by_cases he : u = t
    · subst he
      have hnot : s.sys.notifiesParent u = false := by
        have : s.sys.numRunning g ≠ 1 := by omega
        simp [notifiesParent, hg, this]
      have hpu : s'.phase u = .notify pid := hu.2
      rw [hph', update_self, hnot] at hpu
      cases hpu
    · exact hot u pid he hu
  · have := (hi.unborn v hv).2
    omega
  · obtain ⟨hsa, hnot⟩ := hi.last_tells hsig ⟨ht, htl⟩ hg hok.2 (by omega)
    refine .inr ⟨hse', t, (s.sys.task t).ppid, ⟨hgt, by simp [Notices.next, hph', hnot]⟩,
      (step_sameId h htl).exitSignal.trans hsa, fun u pid hu => ?_⟩
    by_contra he
    exact hot u pid he hu

theorem notify (h : Step n s.sys e s') (hok : answered n s.sys e) {pid : Int}
    (hte : s.sys.Telling g t pid) (hnum : s'.numRunning g = s.sys.numRunning g)
    (hph' : s'.phase = update s.sys.phase t .exiting) : NoticeInv n g signal (s.next e s') := by
  have hze : s.sys.numRunning g = 0 := by
    by_contra h0
    exact (hi.running (pos_of_ne_zero h0)).2 t pid hte
  have hto := hi.told hze ⟨t, hte.1, .inr ⟨pid, hte.2⟩⟩
  obtain ⟨hse, hsig, hun⟩ : s.sent g = [] ∧ (s.sys.task t).exitSignal = signal ∧
      ∀ u pid, s.sys.Telling g u pid → u = t := by
    obtain ⟨_, _, hn⟩ | ⟨hse, t', pid', _, hsig, hun⟩ := hto
    · exact absurd hte (hn t pid)
    · obtain rfl := hun t pid hte
      exact ⟨hse, hsig, hun⟩
  have hse' : (s.next e s').sent g = [(pid, signal)] := by
    simp only [Notices.next, hse, nil_append]
    refine filterMap_range_single (hi.telling_lt hte) ?_ fun u hu => ?_
    · simp [hte.1, Sys.told, hte.2, hph', hsig]
    · split_ifs with hgu
      · exact told_of_not_telling hgu fun pid' h => hu (hun u pid' h)
      · rfl
  have hnn : ∀ u pid, ¬ s'.Telling g u pid := by
    rintro u pid' ⟨hgu, hpu⟩
    by_cases he : u = t
    · subst he
      rw [hph', update_self] at hpu
      cases hpu
    · rw [hph', update_of_ne he] at hpu
      rw [hi.groups.same_group h (by simp [hpu])] at hgu
      exact he (hun u pid' ⟨hgu, hpu⟩)
  refine hi.after h hok (fun hr => by omega) (fun v hv _ => ?_) fun _ _ => .inl ⟨pid, hse', hnn⟩
  exact absurd hte ((hi.unborn v hv).1.2 t pid)

theorem step (h : Step n s.sys e s') (hok : noticed n s e) (hsig : signal ≠ 0) :
    NoticeInv n g signal (s.next e s') := by
  obtain ⟨hnum, hx, hn⟩ | ⟨c, t, k, hc, hp, hph, hnum, hph'⟩ | ⟨c, t, hc, hp, ht, rfl, hph, hpos, hnum, hph'⟩ |
    ⟨t, pid, hph, hnum, hph'⟩ := step_notice h
  · refine hi.of_telling_iff h hok.1 (congrFun hnum g) (fun u pid => ?_) fun u _ hu => (hx u).mp hu
    rw [Sys.Telling, Sys.Telling, hn]
    refine and_congr_left fun hp => ?_
    rw [hi.groups.same_group h (by simp [hp])]
  · by_cases hg : (s.sys.task k).threadGroup = g
    · exact hi.register h hok.1 hc hp hph hg (by rw [hnum, hg, update_self]) hph'
    · have htl := hi.groups.thread_lt (v := t) (by simp [hph])
      exact hi.of_telling_iff h hok.1 (by rw [hnum, update_of_ne (Ne.symm hg)])
        (hi.telling_iff h htl.2 hph' fun _ pid => by simp [hph]) fun u _ hu => exited_register hph' hu
  · have htl := hi.groups.runner_bounds hc hp ht
    by_cases hg : (s.sys.task t).threadGroup = g
    · exact hi.exit h hok hsig hc hp ht hph hg (hg ▸ hpos) (by rw [hnum, hg, update_self]) hph'
    · refine hi.of_telling_iff h hok.1 (by rw [hnum, update_of_ne (Ne.symm hg)])
        (hi.telling_iff h htl hph' fun h => absurd h hg) fun u hgu hu => exited_update hph' ?_ hu
      rintro rfl
      exact absurd ((step_sameId h htl).threadGroup ▸ hgu) hg
  · by_cases hg : (s.sys.task t).threadGroup = g
    · exact hi.notify h hok.1 ⟨hg, hph⟩ (congrFun hnum g) hph'
    · have htl := hi.groups.thread_lt (v := t) (by simp [hph])
      exact hi.of_telling_iff h hok.1 (congrFun hnum g) (hi.telling_iff h htl.2 hph' fun h => absurd h hg)
        fun u _ hu => exited_notified hph hph' hu

end

end NoticeInv

structure RecordInv (n : Nat) (s : Notices) : Prop where
  groups : GroupInv n s.sys
  unused : ∀ g, s.sys.nextTask ≤ g → s.sent g = [] ∧ s.created g = none
  created : ∀ g signal, s.created g = some signal → signal ≠ 0 → NoticeInv n g signal s

namespace RecordInv

theorem unused_sent (hi : RecordInv n s) (hg : s.sys.nextTask ≤ g) : (s.next e s').sent g = [] := by
  refine (sent_next fun t hlt hgt => told_of_not_telling hgt fun pid ht => ?_).trans (hi.unused g hg).1
  have hn := (hi.groups.thread_lt (v := t) (by simp [ht.2])).1
  have := hi.groups.group t hn hlt
  omega

theorem clone (hi : RecordInv n s) {t flags : Nat} (h : Step n s.sys (.clone t flags) s')
    (hok : answered n s.sys (.clone t flags)) (hf : cloneThread flags = false) :
    NoticeInv n s.sys.nextTask (flags % 256) (s.next (.clone t flags) s') := by
  have hex : ∀ u, (s'.task u).threadGroup = s.sys.nextTask → ¬ s'.Exited u := by
    intro u hgu hxu
    have hub : n ≤ u ∧ u < s.sys.nextTask := by
      obtain hxu | ⟨c, hc, hp, hnu⟩ := exited_of_step h hxu
      · exact hi.groups.tree.ids.known_bounds (.inr hxu)
      · exact ⟨hnu, hi.groups.runner_bounds hc hp hnu⟩
    have := hi.groups.group u hub.1 hub.2
    rw [(step_sameId h hub.2).threadGroup] at hgu
    omega
  have hqu : (s.next (.clone t flags) s').Quiet s.sys.nextTask :=
    ⟨hi.unused_sent le_rfl, fun u pid hu => hex u hu.1 (.inr ⟨pid, hu.2⟩)⟩
  have hnum : s'.numRunning s.sys.nextTask = 0 := by
    cases h with
    | clone => exact hi.groups.unused _ le_rfl
  refine ⟨hi.groups.step h hok, ⟨hi.groups.tree.ids.bound, ?_⟩, ?_, fun hr => ?_, fun v hv => ⟨hqu, hnum⟩,
    fun _ ⟨u, hgu, hxu⟩ => absurd hxu (hex u hgu)⟩
  · cases h with
    | clone => exact lt_succ_self _
  · cases h with
    | clone => simp [Notices.next, setPhase, cloneTask, hf]
  · omega

theorem step (hi : RecordInv n s) (h : Step n s.sys e s') (hok : noticed n s e) : RecordInv n (s.next e s') := by
  have hold : ∀ g signal, s.created g = some signal → signal ≠ 0 → NoticeInv n g signal (s.next e s') :=
    fun g signal hg hsig => (hi.created g signal hg hsig).step h hok hsig
  refine ⟨hi.groups.step h hok.1, fun g hg => ?_, ?_⟩
  · have hg : s'.nextTask ≤ g := hg
    obtain ⟨hN, _⟩ | ⟨_, t, flags, _, _, _, rfl, hN, _⟩ := step_task h
    · have hlt : s.sys.nextTask ≤ g := by omega
      refine ⟨hi.unused_sent hlt, ?_⟩
      have hcl : ∀ t flags, e ≠ .clone t flags := by
        rintro t flags rfl
        cases h with
        | clone =>
          have hN : s.sys.nextTask + 1 = s.sys.nextTask := hN
          omega
      simp only [Notices.next]
      exact (hi.unused g hlt).2
    · refine ⟨hi.unused_sent (by omega), ?_⟩
      have hnn := (hi.unused g (by omega)).2
      simp only [Notices.next]
      split_ifs
      · exact hnn
      · rw [update_of_ne (by omega), hnn]
  · intro g signal hg hsig
    simp only [Notices.next] at hg
    split at hg
    · split_ifs at hg with hf
      · exact hold g signal hg hsig
      · by_cases he : g = s.sys.nextTask
        · subst he
          rw [update_self, Option.some_inj] at hg
          subst hg
          exact hi.clone h hok.1 (Bool.eq_false_iff.mpr hf)
        · rw [update_of_ne he] at hg
          exact hold g signal hg hsig
    · exact hold g signal hg hsig

end RecordInv

end

structure NoticeOk (n : Nat) (s : Notices) (g signal : Nat) : Prop where
  running : (∃ u, s.sys.Running u ∧ (s.sys.task u).threadGroup = g) → s.Quiet g
  exit : ∀ t s', Step n s.sys (.exit t) s' → lastTells s.sys (.exit t) → (s.sys.task t).threadGroup = g →
    ((∀ u, s.sys.Running u → (s.sys.task u).threadGroup = g → u = t) ↔ s'.phase t = .notify (s.sys.task t).ppid)
  ended : (∃ u, s.sys.Exited u ∧ (s.sys.task u).threadGroup = g) →
    (∀ u, s.sys.Running u → (s.sys.task u).threadGroup ≠ g) → s.Told g signal
  accepted : ∀ t pid, s.sys.Telling g t pid → s.sys.sendSignalOk pid (s.sys.task t).exitSignal

theorem NoticeInv.noticeOk {g signal : Nat} {s : Notices} (hi : NoticeInv n g signal s) (hsig : signal ≠ 0) :
    NoticeOk n s g signal := by
  refine ⟨fun ⟨u, hu, hg⟩ => ?_, fun t s' h hla hg => ?_, fun ⟨u, hu, hg⟩ hnn => ?_, fun t pid ht => ?_⟩
  · exact hi.running (hg ▸ hi.groups.running_pos hu)
  · cases h with
    | exit hc hp ht hph _ hpos =>
      have hrun := hi.groups.runner hc hp ht (by simp [Sys.Exited, hph])
      have hpa : ((s.sys.setPhase t (if s.sys.notifiesParent t then Phase.notify (s.sys.task t).ppid else
          .exiting)).phase t = .notify (s.sys.task t).ppid) ↔ s.sys.notifiesParent t = true := by
        simp only [setPhase, update_self]
        split_ifs with hn <;> simp [hn]
      refine Iff.trans ?_ hpa.symm
      constructor
      · intro hon
        obtain ⟨S, hS, hca⟩ := hi.groups.counted g
        have hsub : S ⊆ {t} := fun u hu => Finset.mem_singleton.mpr (hon u (hS u hu).1 (hS u hu).2)
        have hle := Finset.card_le_card hsub
        rw [Finset.card_singleton] at hle
        rw [hg] at hpos
        exact (hi.last_tells hsig ⟨ht, hi.groups.runner_bounds hc hp ht⟩ hg hla (by omega)).2
      · intro hn u hu hgu
        by_contra hne
        have hone : s.sys.numRunning g = 1 := by
          simp only [notifiesParent, Bool.and_eq_true, beq_iff_eq] at hn
          rw [← hg]
          exact hn.1.1
        have hco := hi.groups.tree.count g {u, t} fun v hv => by
          obtain rfl | hv := Finset.mem_insert.mp hv
          · exact ⟨hu, hgu⟩
          · rw [Finset.mem_singleton.mp hv]
            exact ⟨hrun, hg⟩
        rw [Finset.card_pair hne] at hco
        omega
  · refine hi.told ?_ ⟨u, hg, hu⟩
    obtain ⟨S, hS, hca⟩ := hi.groups.counted g
    have hem : S = ∅ := Finset.eq_empty_of_forall_notMem fun u hu => hnn u (hS u hu).1 (hS u hu).2
    rw [hem] at hca
    simpa using hca
  · exact hi.groups.tree.sendSignalOk t pid ht.2

theorem RecordInv.boot (n : Nat) : RecordInv n (Notices.boot n) :=
  ⟨GroupInv.boot n, fun _ _ => ⟨rfl, rfl⟩, nofun⟩

theorem one_notice_of_noticed {s : Notices} {g signal : Nat}
    (h : Run (Notices.Step n) (noticed n) (Notices.boot n) s) (hg : s.created g = some signal) (hs : signal ≠ 0) :
    NoticeOk n s g signal := by
  have hi := h.invariant (RecordInv.boot n) fun s e t hi ⟨s', hst, ht⟩ hok => ht ▸ hi.step hst hok
  exact (hi.created g signal hg hs).noticeOk hs

/-! ## Schedules -/

def Notices.nextMove (n : Nat) (s : Notices) (i : Nat × Move) :
    Option { p : Ev × Notices // Notices.Step n s p.1 p.2 } :=
  (Yagura.nextMove n s.sys i).map fun p => ⟨(p.1.1, s.next p.1.1 p.1.2), p.1.2, p.2, rfl⟩

theorem Notices.schedule_reaches (n : Nat) (ok : Notices → Ev → Prop) [∀ s e, Decidable (ok s e)] (s : Notices)
    (l : List (Nat × Move)) (P : Notices → Prop) [DecidablePred P]
    (h : (schedule (nextMove n) ok s l).any (fun r => decide (P r.1)) = true) :
    ∃ s', Run (Notices.Step n) ok s s' ∧ P s' := exists_schedule _ ok s l P h

theorem one_notice_of_fork : ∃ s, Run (Notices.Step 2) (noticed 2) (Notices.boot 2) s ∧ s.created 3 = some 17 ∧
    s.sent 3 = [(1, 17)] ∧ NoticeOk 2 s 3 17 := by
  obtain ⟨s, hr, hc, hs⟩ := Notices.schedule_reaches 2 (noticed 2) (Notices.boot 2)
    (forkRuns 1 ++ [(1, .exit), (1, .exit)]) (fun s => s.created 3 = some 17 ∧ s.sent 3 = [(1, 17)])
    (by decide +kernel)
  exact ⟨s, hr, hc, hs, one_notice_of_noticed hr hc (by decide)⟩

/-- The leader of process 4 exits, then its thread 5, and the parent is never told. -/
theorem leader_exits_first : ∃ s, Run (Notices.Step 3) (fun s e => answered 3 s.sys e) (Notices.boot 3) s ∧
    s.created 4 = some 17 ∧ s.sys.Exited 4 ∧ (s.sys.task 4).threadGroup = 4 ∧
    (∀ u, s.sys.Running u → (s.sys.task u).threadGroup ≠ 4) ∧ s.sent 4 = [] ∧ ∀ t pid, ¬ s.sys.Telling 4 t pid := by
  obtain ⟨s, hr, ⟨hc, hs, hnum⟩, hg, hx, hph⟩ := Notices.schedule_reaches 3 (fun s e => answered 3 s.sys e)
    (Notices.boot 3) (threadRuns [] 8 ++ [(1, .exit), (2, .exit)])
    (fun s => (s.created 4 = some 17 ∧ s.sent 4 = [] ∧ s.sys.numRunning 4 = 0) ∧
      (s.sys.task 4).threadGroup = 4 ∧ s.sys.phase 4 = .exiting ∧
      ∀ t < s.sys.nextTask, s.sys.phase t = .user ∨ s.sys.phase t = .exiting) (by decide +kernel)
  have hi := hr.invariant (I := fun s => GroupInv 3 s.sys) (GroupInv.boot 3)
    fun s e t hi ⟨s', hst, ht⟩ hok => ht ▸ hi.step hst hok
  refine ⟨s, hr, hc, .inl hx, hg, fun u hu hgu => ?_, hs, fun t pid ht => ?_⟩
  · have := hi.running_pos hu
    rw [hgu] at this
    omega
  · have htp := ht.2
    have hlt := (hi.thread_lt (v := t) (by simp [htp])).2
    obtain h | h := hph t hlt <;> rw [h] at htp <;> cases htp

end Yagura
