import Yagura.TaskLife

/-!
# The process tree

A task records its parent as a thread group id, `ppid`. Every exiting thread
gives the children of its thread group to init, whether or not other threads
of the group still run, and a thread that outlives its group's leader goes on
to fork with a `ppid` nobody answers to. As long as neither happens, a parent
is there for as long as a child may signal it.
-/

namespace Yagura

open Function List Sys

/-! ## Threads that run -/

namespace Sys

def Exited (s : Sys) (u : Nat) : Prop := s.phase u = .exiting ∨ ∃ pid, s.phase u = .notify pid

def Enrolled (s : Sys) (u : Nat) : Prop := u ∈ s.allTasks ∨ ∃ v, s.phase v = .register u

def Running (s : Sys) (u : Nat) : Prop := s.Enrolled u ∧ ¬ s.Exited u

def Adopts (n : Nat) (s : Sys) (u : Nat) : Prop :=
  u ∈ s.allTasks ∧ (s.task u).state ≠ .dead ∧ ∀ c < n, s.pc c ≠ .bury u

end Sys

def Pc.tasks : Pc → List Nat
  | .run t | .exit t | .bury t | .leave t | .save t _ | .enter t => [t]
  | .switch _ p | .dequeue _ p => p.toList
  | .unblock _ p l => p.toList ++ l
  | .wake _ p w l | .enqueue _ p w l => p.toList ++ w :: l
  | .load _ p t => p.toList ++ [t]
  | .requeue p t => [p, t]

/-! ## What a step does -/

inductive Phase.Next (n : Nat) (s : Sys) (t : Nat) : Phase → Phase → Prop
  | clone : n ≤ t → Next n s t .user (.clone s.nextTask)
  | cloneFail {k} : Next n s t (.clone k) .user
  | register {k} : Next n s t (.clone k) (.register k)
  | link {k} : Next n s t (.register k) (.enqueue k)
  | enqueue {k} : Next n s t (.enqueue k) .user
  | exit : n ≤ t → (s.task t).tid ≠ 1 → ¬ s.notifiesParent t → Next n s t .user .exiting
  | exitNotify : n ≤ t → (s.task t).tid ≠ 1 → s.notifiesParent t → Next n s t .user (.notify (s.task t).ppid)
  | notified {pid} : Next n s t (.notify pid) .exiting

variable {n : Nat} {s s' : Sys} {e : Ev}

theorem Phase.Next.of_notify {t : Nat} {pid : Int} {q : Phase} (h : Phase.Next n s t q (.notify pid)) :
    q = .user ∧ n ≤ t ∧ s.notifiesParent t ∧ pid = (s.task t).ppid := by
  cases h with
  | exitNotify ht _ hn => exact ⟨rfl, ht, hn, rfl⟩

theorem Phase.Next.of_clone {t k : Nat} {q : Phase} (h : Phase.Next n s t q (.clone k)) : k = s.nextTask := by
  cases h with
  | clone => rfl

theorem Phase.Next.builds {t k : Nat} {q p : Phase} (h : Phase.Next n s t q p) (hk : p.builds k ≠ 0) :
    q.builds k ≠ 0 ∨ p = .clone k := by
  cases h with
  | clone _ =>
    simp only [Phase.builds, ne_eq, ite_eq_right_iff, one_ne_zero, imp_false, not_not] at hk
    exact .inr (hk ▸ rfl)
  | register | link => exact .inl hk
  | _ => exact absurd rfl hk

theorem mem_insertByTid {task : Nat → Task} {k u : Nat} {l : List Nat} :
    u ∈ insertByTid task k l ↔ u = k ∨ u ∈ l := by
  rw [← count_pos_iff, count_insertByTid, ← count_pos_iff]
  split_ifs <;> omega

theorem step_phase (h : Step n s e s') : s'.phase = s.phase ∨
    ∃ c t p, c < n ∧ s.pc c = .run t ∧ Phase.Next n s t (s.phase t) p ∧ s'.phase = update s.phase t p ∧
      (∀ k, p = .enqueue k → k ∈ s'.allTasks) ∧ ∀ k, p = .clone k → s'.nextTask = s.nextTask + 1 := by
  cases h with
  | clone flags hc hp ht hph _ => exact .inr ⟨_, _, _, hc, hp, hph ▸ .clone ht, rfl, nofun, fun _ _ => rfl⟩
  | cloneFail hc hp hph => exact .inr ⟨_, _, _, hc, hp, hph ▸ .cloneFail, rfl, nofun, nofun⟩
  | registerRef hc hp hph => exact .inr ⟨_, _, _, hc, hp, hph ▸ .register, rfl, nofun, nofun⟩
  | registerLink hc hp hph _ =>
    refine .inr ⟨_, _, _, hc, hp, hph ▸ .link, rfl, fun k hk => ?_, nofun⟩
    cases hk
    exact mem_insertByTid.mpr (.inl rfl)
  | registerEnqueue hc hp hph _ _ => exact .inr ⟨_, _, _, hc, hp, hph ▸ .enqueue, rfl, nofun, nofun⟩
  | @exit c t hc hp ht hph htid _ =>
    refine .inr ⟨_, _, _, hc, hp, ?_, rfl, fun k hk => ?_, fun k hk => ?_⟩
    · rw [hph]
      split_ifs with h
      · exact .exitNotify ht htid h
      · exact .exit ht htid h
    · split_ifs at hk
    · split_ifs at hk
  | exitNotify hc hp hph _ _ => exact .inr ⟨_, _, _, hc, hp, hph ▸ .notified, rfl, nofun, nofun⟩
  | _ => exact .inl rfl

theorem step_thread (h : Step n s e s') (v : Nat) : s'.phase v = s.phase v ∨
    ∃ c < n, s.pc c = .run v ∧ Phase.Next n s v (s.phase v) (s'.phase v) ∧
      (∀ k, s'.phase v = .enqueue k → k ∈ s'.allTasks) ∧
      ∀ k, s'.phase v = .clone k → s'.nextTask = s.nextTask + 1 := by
  obtain hph | ⟨c, t, p, hc, hp, hn, hph, hre⟩ := step_phase h
  · exact .inl (congrFun hph v)
  · by_cases he : v = t
    · subst he
      rw [hph, update_self]
      exact .inr ⟨c, hc, hp, hn, hre⟩
    · exact .inl (by rw [hph, update_of_ne he])

theorem linked_of_step (h : Step n s e s') {u : Nat} (hu : u ∈ s'.allTasks) :
    u ∈ s.allTasks ∨ e = .link u ∧ ∃ t, s.phase t = .register u := by
  cases h with
  | registerLink _ _ hph _ =>
    obtain rfl | hu := mem_insertByTid.mp hu
    · exact .inr ⟨rfl, _, hph⟩
    · exact .inl hu
  | visitReap | reap => exact .inl (mem_of_mem_erase hu)
  | _ => exact .inl hu

theorem linked_step (h : Step n s e s') {u : Nat} (hu : u ∈ s.allTasks) :
    u ∈ s'.allTasks ∨ (s.task u).state = .dead ∧ ((∃ w, e = .wakeReap w u) ∨ e = .reap u) := by
  cases h with
  | registerLink => exact .inl (mem_insertByTid.mpr (.inr hu))
  | visitReap _ _ _ _ hd =>
    refine or_iff_not_imp_right.mpr fun hx => (mem_erase_of_ne ?_).mpr hu
    rintro rfl
    exact hx ⟨(findDead_spec hd).2, .inl ⟨_, rfl⟩⟩
  | reap _ _ _ _ _ _ hd =>
    refine or_iff_not_imp_right.mpr fun hx => (mem_erase_of_ne ?_).mpr hu
    rintro rfl
    exact hx ⟨(findDead_spec hd).2, .inr rfl⟩
  | _ => exact .inl hu

structure Task.SameId (a b : Task) : Prop where
  tid : b.tid = a.tid
  tgid : b.tgid = a.tgid
  threadGroup : b.threadGroup = a.threadGroup
  exitSignal : b.exitSignal = a.exitSignal

theorem sameId_update {f : Nat → Task} {t : Nat} {a : Task} (h : (f t).SameId a) (u : Nat) :
    (f u).SameId (update f t a u) := by
  by_cases hu : u = t
  · subst hu; simpa using h
  · simpa [hu] using ⟨rfl, rfl, rfl, rfl⟩

theorem ppid_update {f : Nat → Task} {t : Nat} {a : Task} (h : a.ppid = (f t).ppid) (u : Nat) :
    (update f t a u).ppid = (f u).ppid := by
  by_cases hu : u = t
  · subst hu; simpa using h
  · simp [hu]

theorem step_task (h : Step n s e s') :
    (s'.nextTask = s.nextTask ∧ s'.nextTid = s.nextTid ∧ (∀ u, (s.task u).SameId (s'.task u)) ∧
      ∀ u, (s'.task u).ppid = (s.task u).ppid ∨
        ∃ t, e = .reparent t ∧ u ∈ s.allTasks ∧ (s.task u).ppid = (s.task t).tgid ∧ (s'.task u).ppid = 1) ∨
    ∃ c t flags, c < n ∧ s.pc c = .run t ∧ n ≤ t ∧ e = .clone t flags ∧ s'.nextTask = s.nextTask + 1 ∧
      s'.nextTid = afterDraw s.nextTid ∧
      s'.task = update s.task s.nextTask (s.cloneTask t (cloneThread flags) (flags % 256)) := by
  have same : ∀ {s₁ : Sys} {t : Nat} {a : Task}, s₁.task = update s.task t a → (s.task t).SameId a →
      a.ppid = (s.task t).ppid → s₁.nextTask = s.nextTask → s₁.nextTid = s.nextTid →
      (s₁.nextTask = s.nextTask ∧ s₁.nextTid = s.nextTid ∧ (∀ u, (s.task u).SameId (s₁.task u)) ∧
      ∀ u, (s₁.task u).ppid = (s.task u).ppid ∨
        ∃ t, e = .reparent t ∧ u ∈ s.allTasks ∧ (s.task u).ppid = (s.task t).tgid ∧ (s₁.task u).ppid = 1) := by
    intro s₁ t a ht hid hp h1 h2
    rw [ht]
    exact ⟨h1, h2, sameId_update hid, fun u => .inl (ppid_update hp u)⟩
  cases h with
  | block | leave | save | wake | enter | cloneFail | registerRef | find | setpgid | unref
  | unrefFree | exitDead => exact .inl (same rfl ⟨rfl, rfl, rfl, rfl⟩ rfl rfl rfl)
  | clone flags hc hp ht hph _ => exact .inr ⟨_, _, flags, hc, hp, ht, rfl, rfl, rfl, rfl⟩
  | @exitReparent c t hc hp _ =>
    refine .inl ⟨rfl, rfl, fun u => ?_, fun u => ?_⟩
    · simp only [setPc, Sys.reparent]
      split_ifs <;> exact ⟨rfl, rfl, rfl, rfl⟩
    · simp only [setPc, Sys.reparent]
      split_ifs with hu
      · exact .inr ⟨t, rfl, hu.1, hu.2, rfl⟩
      · exact .inl rfl
  | _ => exact .inl ⟨rfl, rfl, fun _ => ⟨rfl, rfl, rfl, rfl⟩, fun _ => .inl rfl⟩

theorem state_update {f : Nat → Task} {t : Nat} {a : Task} {u : Nat}
    (hd : (update f t a u).state = .dead) (h : a.state = .dead → (f t).state = .dead) :
    (f u).state = .dead := by
  by_cases hu : u = t
  · subst hu; simp_all
  · simpa [hu] using hd

theorem step_dead (h : Step n s e s') {u : Nat} (hd : (s'.task u).state = .dead) :
    (s.task u).state = .dead ∨ ∃ c < n, s.pc c = .bury u := by
  cases h with
  | block b st hc hp ht _ hb _ => exact .inl (state_update hd (by rintro rfl; cases hb))
  | leave | save | enter | cloneFail | registerRef | find | setpgid | unref | unrefFree =>
    exact .inl (state_update hd id)
  | wake hc hp => exact .inl (state_update hd (by simp))
  | clone flags hc hp ht hph _ => exact .inl (state_update hd (by simp [Sys.cloneTask]))
  | @exitDead c t hc hp =>
    by_cases hu : u = t
    · exact .inr ⟨c, hc, hu ▸ hp⟩
    · simp only [setPc, Sys.setTask, update_of_ne hu] at hd
      exact .inl hd
  | exitReparent hc hp _ =>
    simp only [setPc, Sys.reparent] at hd
    split_ifs at hd <;> exact .inl hd
  | _ => exact .inl hd

theorem pc_update {g : Nat → Pc} {c d : Nat} {q : Pc} {P : Pc → Prop} (h : P (update g c q d)) :
    P (g d) ∨ c = d ∧ P q := by
  by_cases hd : d = c
  · subst hd; exact .inr ⟨rfl, by simpa using h⟩
  · exact .inl (by simpa [hd] using h)

theorem step_exits (h : Step n s e s') {c u : Nat} (hx : s'.pc c = .exit u ∨ s'.pc c = .bury u) :
    (s.pc c = .exit u ∨ s.pc c = .bury u) ∨ s.phase u = .exiting := by
  cases h with
  | exitCli hc hp hph =>
    obtain h | ⟨_, h⟩ := pc_update (P := fun p => p = .exit u ∨ p = .bury u) hx
    · exact .inl h
    · simp at h; exact .inr (h ▸ hph)
  | exitReparent hc hp _ =>
    obtain h | ⟨e, h⟩ := pc_update (P := fun p => p = .exit u ∨ p = .bury u) hx
    · exact .inl h
    · simp at h; exact .inl (.inl (e ▸ h ▸ hp))
  | _ =>
    first
    | exact .inl hx
    | obtain h | ⟨_, h⟩ := pc_update (P := fun p => p = .exit u ∨ p = .bury u) hx
      · exact .inl h
      · simp at h

theorem tasks_update {g : Nat → Pc} {c d u : Nat} {q : Pc} {R : Prop} (h : u ∈ (update g d q c).tasks)
    (hq : u ∈ q.tasks → u ∈ (g d).tasks ∨ R) : u ∈ (g c).tasks ∨ R := by
  obtain h | ⟨e, h⟩ := pc_update (P := fun p => u ∈ p.tasks) h
  · exact .inl h
  · exact e ▸ hq h

theorem step_cpu (h : Step n s e s') {c u : Nat} (hu : u ∈ (s'.pc c).tasks) :
    u ∈ (s.pc c).tasks ∨ u ∈ s.allTasks ∨ u ∈ s.readyQueue ∨ u < n := by
  cases h with
  | @save c t rq hc hp =>
    refine tasks_update hu fun h => .inl ?_
    split_ifs at h <;> simp_all [Pc.tasks]
  | visitReap hc hp hb _ hd =>
    refine tasks_update hu fun h => .inl ?_
    simp only [hp, Pc.tasks, mem_append, mem_cons] at h ⊢
    exact h.imp_right (Or.imp_right mem_of_mem_erase)
  | dequeueIdle hc hp _ _ =>
    exact tasks_update hu (by simp only [hp, Pc.tasks, mem_append, mem_singleton]; grind)
  | dequeue hc hp hq _ =>
    exact tasks_update hu (by simp only [hp, hq, Pc.tasks, mem_append, mem_cons]; tauto)
  | tick | block | leave | unlockAllTasks | loadRequeue | load | enter | exitCli | exitReparent | exitDead =>
    exact tasks_update hu fun h => .inl (by simp_all [Pc.tasks])
  | lockAllTasks hc hp | visitOther hc hp | visitStay hc hp | visitStayWaitpid hc hp | visitInterrupted hc hp
  | visitUnblock hc hp | visitNoTarget hc hp | wake hc hp | enqueue hc hp | requeue hc hp =>
    exact tasks_update hu (by simp only [hp, Pc.tasks, mem_append, mem_cons]; tauto)
  | _ => exact .inl hu

theorem step_queue (h : Step n s e s') {u : Nat} (hu : u ∈ s'.readyQueue) :
    u ∈ s.readyQueue ∨ (∃ c < n, u ∈ (s.pc c).tasks) ∨ ∃ v, s.phase v = .enqueue u := by
  cases h with
  | dequeue hc hp hq _ => exact .inl (hq ▸ .tail _ hu)
  | enqueue hc hp | requeue hc hp =>
    refine (mem_append.mp hu).imp_right fun h => .inl ⟨_, hc, ?_⟩
    simp [hp, Pc.tasks, mem_singleton.mp h]
  | @registerEnqueue _ t _ hc hp hph _ _ =>
    refine (mem_append.mp hu).imp_right fun h => .inr ⟨t, ?_⟩
    rw [mem_singleton.mp h]
    exact hph
  | _ => exact .inl hu

/-! ## Registered tasks -/

def Sys.Known (s : Sys) (u : Nat) : Prop := u ∈ s.allTasks ∨ s.Exited u

theorem exited_step (h : Step n s e s') {u : Nat} (hu : s.Exited u) : s'.Exited u := by
  obtain hph | ⟨_, _, _, hn, _⟩ := step_thread h u
  · rwa [Sys.Exited, hph]
  · generalize hq : s'.phase u = q at hn
    obtain hu | ⟨pid, hu⟩ := hu <;> rw [hu] at hn <;> cases hn
    exact .inl hq

theorem known_step (hd : ∀ u, (s.task u).state = .dead → s.phase u = .exiting) (h : Step n s e s') {u : Nat}
    (hu : s.Known u) : s'.Known u := by
  obtain hu | hu := hu
  · exact (linked_step h hu).imp_right fun hde => exited_step h (.inl (hd u hde.1))
  · exact .inr (exited_step h hu)

structure KnownInv (n : Nat) (s : Sys) : Prop where
  dead : ∀ u, (s.task u).state = .dead → s.phase u = .exiting
  exits : ∀ c < n, ∀ u, s.pc c = .exit u ∨ s.pc c = .bury u → s.phase u = .exiting
  cpu : ∀ c < n, ∀ u ∈ (s.pc c).tasks, n ≤ u → s.Known u
  queue : ∀ u ∈ s.readyQueue, n ≤ u → s.Known u
  enqueue : ∀ v k, s.phase v = .enqueue k → s.Known k

theorem exiting_step (h : Step n s e s') {u : Nat} (hu : s.phase u = .exiting) : s'.phase u = .exiting := by
  obtain hph | ⟨_, _, _, hn, _⟩ := step_thread h u
  · rw [hph, hu]
  · rw [hu] at hn
    cases hn

theorem KnownInv.step (hi : KnownInv n s) (h : Step n s e s') : KnownInv n s' := by
  have known := @known_step n s s' e hi.dead h
  refine ⟨fun u hd => ?_, fun c hc u hx => ?_, fun c hc u hu hnu => ?_, fun u hu hnu => ?_, fun v k hv => ?_⟩
  · obtain hd | ⟨c, hc, hp⟩ := step_dead h hd
    · exact exiting_step h (hi.dead u hd)
    · exact exiting_step h (hi.exits c hc u (.inr hp))
  · obtain hx | hx := step_exits h hx
    · exact exiting_step h (hi.exits c hc u hx)
    · exact exiting_step h hx
  · obtain hu | hu | hu | hu := step_cpu h hu
    · exact known (hi.cpu c hc u hu hnu)
    · exact known (.inl hu)
    · exact known (hi.queue u hu hnu)
    · omega
  · obtain hu | ⟨c, hc, hu⟩ | ⟨v, hv⟩ := step_queue h hu
    · exact known (hi.queue u hu hnu)
    · exact known (hi.cpu c hc u hu hnu)
    · exact known (hi.enqueue v u hv)
  · obtain hph | ⟨_, _, _, _, hl, _⟩ := step_thread h v
    · exact known (hi.enqueue v k (hph ▸ hv))
    · exact .inl (hl k hv)

/-! ## Identities -/

structure IdInv (n : Nat) (s : Sys) : Prop where
  bound : n < s.nextTask
  small : s.nextTid < 2 ^ 31
  linked : ∀ u ∈ s.allTasks, n ≤ u ∧ u < s.nextTask
  user : ∀ u, u < n ∨ s.nextTask ≤ u → s.phase u = .user
  builds : ∀ v k, (s.phase v).builds k ≠ 0 → n ≤ k ∧ k < s.nextTask
  ids : ∀ u, n ≤ u → u < s.nextTask → 0 < (s.task u).tid ∧ 0 < (s.task u).tgid ∧ 0 ≤ (s.task u).ppid ∧
    (s.task u).exitSignal < NSIG
  drawn : 0 < s.nextTid → ∀ u, n ≤ u → u < s.nextTask → (s.task u).tid < s.nextTid ∧
    (s.task u).tgid < s.nextTid ∧ (s.task u).ppid < s.nextTid
  unique : ∀ u v, n ≤ u → u < s.nextTask → n ≤ v → v < s.nextTask → (s.task u).tid = (s.task v).tid → u = v
  /-- A task whose `tid` is a thread group id or a `ppid` leads its group. -/
  leader : ∀ k u, n ≤ k → k < s.nextTask → n ≤ u → u < s.nextTask →
    (s.task u).tid = (s.task k).tgid ∨ (s.task u).tid = (s.task k).ppid → (s.task u).tgid = (s.task u).tid
  group : ∀ u v, n ≤ u → u < s.nextTask → n ≤ v → v < s.nextTask → (s.task u).tgid = (s.task v).tgid →
    (s.task u).threadGroup = (s.task v).threadGroup
  init : (s.task n).tid = 1 ∧ (s.task n).tgid = 1

theorem IdInv.known_bounds (hi : IdInv n s) {u : Nat} (hu : s.Known u) : n ≤ u ∧ u < s.nextTask := by
  obtain hu | hu := hu
  · exact hi.linked u hu
  · by_contra h
    have hph := hi.user u (by omega)
    obtain hu | ⟨_, hu⟩ := hu <;> rw [hph] at hu <;> cases hu

theorem IdInv.run_bounds (hi : IdInv n s) (hk : KnownInv n s) {c t : Nat} (hc : c < n) (hp : s.pc c = .run t)
    (ht : n ≤ t) : t < s.nextTask :=
  (hi.known_bounds (hk.cpu c hc t (by simp [hp, Pc.tasks]) ht)).2

section
variable (hi : IdInv n s) (hlinked : ∀ u ∈ s'.allTasks, n ≤ u ∧ u < s'.nextTask)
  (huser : ∀ u, u < n ∨ s'.nextTask ≤ u → s'.phase u = .user)
  (hbuilds : ∀ v k, (s'.phase v).builds k ≠ 0 → n ≤ k ∧ k < s'.nextTask)
include hi hlinked huser hbuilds

theorem IdInv.clone {t flags : Nat} (ht : n ≤ t) (ht' : t < s.nextTask)
    (hsig : cloneThread flags = true ∨ flags % 256 < NSIG) (hpos : 0 < s.nextTid)
    (hN : s'.nextTask = s.nextTask + 1) (hT : s'.nextTid = afterDraw s.nextTid)
    (hta : s'.task = update s.task s.nextTask (s.cloneTask t (cloneThread flags) (flags % 256))) : IdInv n s' := by
  have hb := hi.bound
  have hids := hi.ids
  have hdr := hi.drawn hpos
  have hold : ∀ u, u ≠ s.nextTask → s'.task u = s.task u := fun u hu => by rw [hta, update_of_ne hu]
  have hnew : s'.task s.nextTask = s.cloneTask t (cloneThread flags) (flags % 256) := by rw [hta, update_self]
  refine { hi with
    bound := by omega, small := hT ▸ afterDraw_lt _, linked := hlinked, user := huser, builds := hbuilds,
    ids := fun u hu hu' => ?_, drawn := fun hp u hu hu' => ?_, unique := fun u v hu hu' hv hv' he => ?_,
    leader := fun k u hk hk' hu hu' he => ?_, group := fun u v hu hu' hv hv' he => ?_, init := ?_ }
  · by_cases hN : u = s.nextTask
    · rw [hN, hnew]
      simp only [Sys.cloneTask]
      grind [NSIG]
    · rw [hold u hN]
      exact hids u hu (by omega)
  · rw [hT] at hp ⊢
    rw [afterDraw_of_pos hpos hi.small hp]
    by_cases hN : u = s.nextTask
    · rw [hN, hnew]
      simp only [Sys.cloneTask]
      grind
    · rw [hold u hN]
      have := hdr u hu (by omega)
      omega
  · have huq := hi.unique
    simp only [hta, update_apply, Sys.cloneTask] at he
    split_ifs at he <;> grind
  · have hle := hi.leader
    simp only [hta, update_apply, Sys.cloneTask] at he ⊢
    split_ifs at he ⊢ <;> grind
  · have hgr := hi.group
    simp only [hta, update_apply, Sys.cloneTask] at he ⊢
    split_ifs at he ⊢ <;> grind
  · rw [hold n (by omega)]
    exact hi.init

theorem IdInv.sameId (hN : s'.nextTask = s.nextTask) (hT : s'.nextTid = s.nextTid)
    (hid : ∀ u, (s.task u).SameId (s'.task u))
    (hpp : ∀ u, (s'.task u).ppid = (s.task u).ppid ∨ (s'.task u).ppid = 1) : IdInv n s' := by
  have hb := hi.bound
  refine { hi with
    bound := by omega, small := hT ▸ hi.small, linked := hlinked, user := huser, builds := hbuilds,
    ids := fun u hu hu' => ?_, drawn := fun hp u hu hu' => ?_, unique := fun u v hu hu' hv hv' he => ?_,
    leader := fun k u hk hk' hu hu' he => ?_, group := fun u v hu hu' hv hv' he => ?_, init := ?_ }
  · obtain ⟨h1, h2, h3, h4⟩ := hi.ids u hu (by omega)
    rw [(hid u).tid, (hid u).tgid, (hid u).exitSignal]
    refine ⟨h1, h2, ?_, h4⟩
    obtain hp | hp := hpp u <;> omega
  · rw [hT] at hp ⊢
    obtain ⟨h1, h2, h3⟩ := hi.drawn hp u hu (by omega)
    have h1n := (hi.drawn hp n le_rfl hb).1
    rw [hi.init.1] at h1n
    rw [(hid u).tid, (hid u).tgid]
    refine ⟨h1, h2, ?_⟩
    obtain hp | hp := hpp u <;> omega
  · rw [(hid u).tid, (hid v).tid] at he
    exact hi.unique u v hu (by omega) hv (by omega) he
  · rw [(hid u).tid, (hid u).tgid]
    rw [(hid u).tid, (hid k).tgid] at he
    -- a task that was given to init has the leader of init's group as its parent
    obtain hp | hp := hpp k
    · exact hi.leader k u hk (by omega) hu (by omega) (hp ▸ he)
    · rw [hp] at he
      obtain he | he := he
      · exact hi.leader k u hk (by omega) hu (by omega) (.inl he)
      · obtain rfl := hi.unique u n hu (by omega) le_rfl (by omega) (he.trans hi.init.1.symm)
        rw [hi.init.1, hi.init.2]
  · rw [(hid u).tgid, (hid v).tgid] at he
    rw [(hid u).threadGroup, (hid v).threadGroup]
    exact hi.group u v hu (by omega) hv (by omega) he
  · rw [(hid n).tid, (hid n).tgid]
    exact hi.init

end

theorem IdInv.step (hi : IdInv n s) (hk : KnownInv n s) (h : Step n s e s')
    (hcl : ∀ t flags, e = .clone t flags → (cloneThread flags = true ∨ flags % 256 < NSIG) ∧ 0 < s.nextTid) :
    IdInv n s' := by
  have hN : s.nextTask ≤ s'.nextTask := by
    obtain ⟨h, _⟩ | ⟨_, _, _, _, _, _, _, h, _⟩ := step_task h <;> omega
  have hlinked : ∀ u ∈ s'.allTasks, n ≤ u ∧ u < s'.nextTask := by
    intro u hu
    have : n ≤ u ∧ u < s.nextTask := by
      obtain hu | ⟨_, t, ht⟩ := linked_of_step h hu
      · exact hi.linked u hu
      · exact hi.builds t u (by simp [ht])
    omega
  have hb := hi.bound
  have huser : ∀ u, u < n ∨ s'.nextTask ≤ u → s'.phase u = .user := by
    intro u hu
    have huu := hi.user u (by omega)
    obtain hph | ⟨c, hc, hp, hn, _⟩ := step_thread h u
    · rw [hph, huu]
    · have := hi.run_bounds hk hc hp
      rw [huu] at hn
      generalize s'.phase u = q at hn ⊢
      cases hn <;> omega
  have hbuilds : ∀ v k, (s'.phase v).builds k ≠ 0 → n ≤ k ∧ k < s'.nextTask := by
    intro v k hv
    obtain hph | ⟨_, _, _, hn, _, hcl⟩ := step_thread h v
    · rw [hph] at hv
      have := hi.builds v k hv
      omega
    · obtain hold | hnew := hn.builds hv
      · have := hi.builds v k hold
        omega
      · have := (hnew ▸ hn).of_clone
        have := hcl k hnew
        omega
  obtain ⟨h1, h2, h3, h4⟩ | ⟨c, t, flags, hc, hp, ht, he, h1, h2, h3⟩ := step_task h
  · exact hi.sameId hlinked huser hbuilds h1 h2 h3 fun u => (h4 u).imp_right fun ⟨_, h⟩ => h.2.2.2
  · exact hi.clone hlinked huser hbuilds ht (hi.run_bounds hk hc hp ht) (hcl t flags he).1 (hcl t flags he).2
      h1 h2 h3

/-! ## Running threads -/

theorem step_numRunning (h : Step n s e s') :
    (s'.numRunning = s.numRunning ∧ ∀ v u, s'.phase v = .register u → s.phase v = .register u) ∨
    (∃ t k, s.phase t = .clone k ∧ s'.numRunning = update s.numRunning (s.task k).threadGroup
        (s.numRunning (s.task k).threadGroup + 1) ∧
      ∀ v u, s'.phase v = .register u → s.phase v = .register u ∨ u = k) ∨
    ∃ c t, c < n ∧ s.pc c = .run t ∧ n ≤ t ∧ s.phase t = .user ∧ s'.Exited t ∧
      s'.numRunning = update s.numRunning (s.task t).threadGroup
        (s.numRunning (s.task t).threadGroup - 1) ∧
      ∀ v u, s'.phase v = .register u → s.phase v = .register u := by
  have upd : ∀ {t p}, (∀ k, p ≠ .register k) →
      ∀ v u, update s.phase t p v = .register u → s.phase v = .register u := by
    intro t p hp v u hv
    by_cases ht : v = t
    · subst ht
      exact absurd (by simpa using hv) (hp u)
    · simpa [ht] using hv
  cases h with
  | clone | cloneFail | registerLink | registerEnqueue | exitNotify => exact .inl ⟨rfl, upd (by simp)⟩
  | @registerRef c t k hc hp hph =>
    refine .inr (.inl ⟨t, k, hph, rfl, fun v u hv => ?_⟩)
    by_cases ht : v = t
    · subst ht
      simp only [Sys.setPhase, update_self, Phase.register.injEq] at hv
      exact .inr hv.symm
    · simp only [Sys.setPhase, update_of_ne ht] at hv
      exact .inl hv
  | @exit c t hc hp ht hph htid _ =>
    refine .inr (.inr ⟨c, t, hc, hp, ht, hph, ?_, rfl, upd fun k => ?_⟩)
    · simp only [Sys.Exited, Sys.setPhase, update_self]
      split_ifs
      · exact .inr ⟨_, rfl⟩
      · exact .inl rfl
    · split_ifs <;> simp
  | _ => exact .inl ⟨rfl, fun _ _ h => h⟩

theorem running_of_step (h : Step n s e s') {u : Nat} (hu : s'.Running u)
    (hr : ∀ v, s'.phase v = .register u → s.phase v = .register u) : s.Running u := by
  refine ⟨?_, fun hx => hu.2 (exited_step h hx)⟩
  obtain hu | ⟨v, hv⟩ := hu.1
  · exact (linked_of_step h hu).imp_right And.right
  · exact .inr ⟨v, hr v hv⟩

theorem IdInv.running_bounds (hi : IdInv n s) {u : Nat} (hu : s.Running u) : n ≤ u ∧ u < s.nextTask := by
  obtain hu | ⟨v, hv⟩ := hu.1
  · exact hi.linked u hu
  · exact hi.builds v u (by simp [hv])

def CountInv (s : Sys) : Prop :=
  ∀ g (S : Finset Nat), (∀ u ∈ S, s.Running u ∧ (s.task u).threadGroup = g) → S.card ≤ s.numRunning g

theorem step_sameId (h : Step n s e s') {u : Nat} (hu : u < s.nextTask) : (s.task u).SameId (s'.task u) := by
  obtain ⟨_, _, h3, _⟩ | ⟨_, _, _, _, _, _, _, _, _, h3⟩ := step_task h
  · exact h3 u
  · rw [h3, update_of_ne (by omega)]
    exact ⟨rfl, rfl, rfl, rfl⟩

theorem CountInv.step (hc : CountInv s) (hi : IdInv n s) (hk : KnownInv n s) (h : Step n s e s') : CountInv s' := by
  intro g S hS
  -- what runs in `g` after the step, apart from a thread it registers, ran in `g` before
  have hold : ∀ u ∈ S, (∀ v, s'.phase v = .register u → s.phase v = .register u) →
      s.Running u ∧ (s.task u).threadGroup = g := by
    intro u hu hreg
    have hr := running_of_step h (hS u hu).1 hreg
    exact ⟨hr, (step_sameId h (hi.running_bounds hr).2).threadGroup ▸ (hS u hu).2⟩
  obtain ⟨hnum, hreg⟩ | ⟨t, k, hph, hnum, hreg⟩ | ⟨c, t, hcn, hp, ht, hph, hx, hnum, hreg⟩ := step_numRunning h
  · rw [hnum]
    exact hc g S fun u hu => hold u hu fun v => hreg v u
  · rw [hnum]
    by_cases hg : g = (s.task k).threadGroup
    · have hca := hc g (S.erase k) fun u hu => by
        obtain ⟨hne, hu⟩ := Finset.mem_erase.mp hu
        exact hold u hu fun v hv => (hreg v u hv).resolve_right hne
      have hpr := Finset.pred_card_le_card_erase (s := S) (a := k)
      rw [← hg, update_self]
      omega
    · rw [update_of_ne hg]
      refine hc g S fun u hu => hold u hu fun v hv => (hreg v u hv).resolve_right ?_
      rintro rfl
      have hlt := (hi.builds t u (by simp [hph])).2
      exact hg ((hS u hu).2.symm.trans (step_sameId h hlt).threadGroup)
  · rw [hnum]
    have hS' : ∀ u ∈ S, s.Running u ∧ (s.task u).threadGroup = g := fun u hu => hold u hu fun v => hreg v u
    by_cases hg : g = (s.task t).threadGroup
    · have htS : t ∉ S := fun hu => (hS t hu).1.2 hx
      have hrun : s.Running t := by
        have hnx : ¬ s.Exited t := by simp [Sys.Exited, hph]
        exact ⟨.inl ((hk.cpu c hcn t (by simp [hp, Pc.tasks]) ht).resolve_right hnx), hnx⟩
      have hca := hc g (insert t S) fun u hu => by
        obtain rfl | hu := Finset.mem_insert.mp hu
        · exact ⟨hrun, hg.symm⟩
        · exact hS' u hu
      rw [Finset.card_insert_of_notMem htS] at hca
      rw [← hg, update_self]
      omega
    · rw [update_of_ne hg]
      exact hc g S hS'

/-! ## Parents -/

/-- Tasks are made, registered and reaped while somebody answers for them: an
exit signal is a signal; `next_tid` has not wrapped around; a task is
registered while the leader it calls its parent can still hand it on; nobody is
reaped whom an exiting child is about to signal. -/
def answered (n : Nat) (s : Sys) : Ev → Prop
  | .clone _ flags => (cloneThread flags = true ∨ flags % 256 < NSIG) ∧ 0 < s.nextTid
  | .link k => (s.task k).ppid = 0 ∨ ∃ u ∈ s.allTasks, (s.task u).tid = (s.task k).ppid ∧
      (s.task u).state ≠ .dead ∧ ∀ c < n, s.pc c ≠ .bury u
  | .reap x | .wakeReap _ x => ∀ t < s.nextTask, s.phase t ≠ .notify (s.task x).tid
  | _ => True

instance (n : Nat) (s : Sys) : ∀ e, Decidable (answered n s e)
  | .clone .. => inferInstanceAs (Decidable (_ ∧ _))
  | .link _ => inferInstanceAs (Decidable (_ ∨ _))
  | .reap _ | .wakeReap .. => inferInstanceAs (Decidable (∀ t < s.nextTask, _))
  | .tau | .wake _ | .exit _ | .reparent _ => .isTrue trivial

theorem step_bury (h : Step n s e s') {c u : Nat} (hb : s'.pc c = .bury u) :
    s.pc c = .bury u ∨ e = .reparent u ∧ s.pc c = .exit u ∧
      ∀ k ∈ s.allTasks, (s.task k).ppid = (s.task u).tgid → (s'.task k).ppid = 1 := by
  cases h with
  | @exitReparent d t hc hp _ =>
    obtain h | ⟨e, h⟩ := pc_update (P := fun p => p = .bury u) hb
    · exact .inl h
    · cases h
      refine .inr ⟨rfl, e ▸ hp, fun k hk hkp => ?_⟩
      simp [setPc, Sys.reparent, hk, hkp]
  | _ =>
    first
    | exact .inl hb
    | obtain h | ⟨_, h⟩ := pc_update (P := fun p => p = .bury u) hb
      · exact .inl h
      · simp at h

structure TreeInv (n : Nat) (s : Sys) : Prop where
  known : KnownInv n s
  ids : IdInv n s
  count : CountInv s
  init : n ∈ s.allTasks ∧ (s.task n).state ≠ .dead ∧ ¬ s.Exited n
  parent : ∀ k ∈ s.allTasks, (s.task k).ppid ≠ 0 → ∃ u, s.Adopts n u ∧ (s.task u).tid = (s.task k).ppid
  notify : ∀ t pid, s.phase t = .notify pid → ∃ u ∈ s.allTasks, (s.task u).tid = pid

theorem adopts_step (h : Step n s e s') {u : Nat} (hu : s.Adopts n u) (hne : e ≠ .reparent u) : s'.Adopts n u := by
  obtain ⟨hmem, hst, hpc⟩ := hu
  refine ⟨(linked_step h hmem).resolve_right fun hde => hst hde.1, fun hd => ?_, fun c hc hb => ?_⟩
  · obtain hd | ⟨c, hc, hb⟩ := step_dead h hd
    · exact hst hd
    · exact hpc c hc hb
  · obtain hb | ⟨he, _⟩ := step_bury h hb
    · exact hpc c hc hb
    · exact hne he

theorem TreeInv.init_adopts (hi : TreeInv n s) : s.Adopts n n := by
  refine ⟨hi.init.1, hi.init.2.1, fun c hc hb => hi.init.2.2 (.inl (hi.known.exits c hc n (.inr hb)))⟩

theorem TreeInv.init_not_reparent (hi : TreeInv n s) (h : Step n s (.reparent n) s') : False := by
  cases h with
  | exitReparent hc hp _ => exact hi.init.2.2 (.inl (hi.known.exits _ hc n (.inl hp)))

section
variable (hi : TreeInv n s) (h : Step n s e s')
include hi h

theorem TreeInv.init_step : n ∈ s'.allTasks ∧ (s'.task n).state ≠ .dead ∧ ¬ s'.Exited n := by
  obtain ⟨hmem, hst, _⟩ := adopts_step h hi.init_adopts (by rintro rfl; exact hi.init_not_reparent h)
  refine ⟨hmem, hst, fun hx => ?_⟩
  have hin := hi.ids.init.1
  have hnx := hi.init.2.2
  obtain hph | ⟨_, _, _, hn, _⟩ := step_thread h n
  · exact hnx (by rwa [Sys.Exited, hph] at hx)
  · generalize hq' : s'.phase n = q at hn
    cases hq : s.phase n <;> rw [hq] at hn <;> cases hn <;> simp_all [Sys.Exited]

theorem TreeInv.parent_step (hok : answered n s e) :
    ∀ k ∈ s'.allTasks, (s'.task k).ppid ≠ 0 → ∃ u, s'.Adopts n u ∧ (s'.task u).tid = (s'.task k).ppid := by
  have hin : s'.Adopts n n := adopts_step h hi.init_adopts (by rintro rfl; exact hi.init_not_reparent h)
  have hit : (s'.task n).tid = 1 := (step_sameId h hi.ids.bound).tid.trans hi.ids.init.1
  intro k hk hne
  -- the parent of `k` before the step
  have hbe : k < s.nextTask ∧ ((s.task k).ppid ≠ 0 → ∃ u, s.Adopts n u ∧ (s.task u).tid = (s.task k).ppid) := by
    obtain hk | ⟨rfl, t, ht⟩ := linked_of_step h hk
    · exact ⟨(hi.ids.linked k hk).2, hi.parent k hk⟩
    · refine ⟨(hi.ids.builds t k (by simp [ht])).2, fun hne => ?_⟩
      obtain h0 | ⟨u, hu, htid, hst, hpc⟩ := hok
      · exact absurd h0 hne
      · exact ⟨u, ⟨hu, hst, hpc⟩, htid⟩
  obtain ⟨hlt, hpar⟩ := hbe
  have hpp : (s'.task k).ppid = (s.task k).ppid ∨ (s'.task k).ppid = 1 := by
    obtain ⟨_, _, _, h4⟩ | ⟨_, _, _, _, _, _, _, _, _, h3⟩ := step_task h
    · exact (h4 k).imp_right fun ⟨_, h⟩ => h.2.2.2
    · rw [h3, update_of_ne (by omega)]
      exact .inl rfl
  obtain hp | hp := hpp
  · obtain ⟨u, hu, htid⟩ := hpar (hp ▸ hne)
    have hub := hi.ids.linked u hu.1
    have htid' := (step_sameId h hub.2).tid
    by_cases he : e = .reparent u
    · -- `u` leads the group `k` names, so `k` goes to init
      subst he
      have hone : (s'.task k).ppid = 1 := by
        cases h with
        | exitReparent hc hpc _ =>
          have hkb := hi.ids.linked k hk
          have hle := hi.ids.leader k u hkb.1 hkb.2 hub.1 hub.2 (.inr htid)
          have hkp : (s.task k).ppid = (s.task u).tgid := by rw [hle, htid]
          have hk : k ∈ s.allTasks := hk
          simp [setPc, Sys.reparent, hk, hkp]
      exact ⟨n, hin, by rw [hit, hone]⟩
    · exact ⟨u, adopts_step h hu he, by rw [htid', htid, hp]⟩
  · exact ⟨n, hin, by rw [hit, hp]⟩

theorem TreeInv.notify_step (hok : answered n s e) :
    ∀ t pid, s'.phase t = .notify pid → ∃ u ∈ s'.allTasks, (s'.task u).tid = pid := by
  intro t pid ht
  -- somebody answers to `pid` before the step
  have hbe : ∃ u ∈ s.allTasks, (s.task u).tid = pid ∧
      ((s.task u).state ≠ .dead ∨ s.phase t = .notify pid ∧ t < s.nextTask) := by
    obtain hph | ⟨c, hc, hp, hn, _⟩ := step_thread h t
    · rw [hph] at ht
      obtain ⟨u, hu, htid⟩ := hi.notify t pid ht
      exact ⟨u, hu, htid, .inr ⟨ht, (hi.ids.known_bounds (.inr (.inr ⟨pid, ht⟩))).2⟩⟩
    · obtain ⟨hq, hnt, hny, rfl⟩ := (ht ▸ hn).of_notify
      have hmem := (hi.known.cpu c hc t (by simp [hp, Pc.tasks]) hnt).resolve_right (by simp [Sys.Exited, hq])
      have hpp : (s.task t).ppid ≠ 0 := by
        simp only [notifiesParent, Bool.and_eq_true, bne_iff_ne] at hny
        exact hny.1.2
      obtain ⟨u, hu, htid⟩ := hi.parent t hmem hpp
      exact ⟨u, hu.1, htid, .inl hu.2.1⟩
  obtain ⟨u, hu, htid, hal⟩ := hbe
  refine ⟨u, (linked_step h hu).resolve_right fun ⟨hde, he⟩ => ?_, (step_sameId h (hi.ids.linked u hu).2).tid.trans htid⟩
  obtain hst | ⟨hph, hlt⟩ := hal
  · exact hst hde
  · have hnot : ∀ t < s.nextTask, s.phase t ≠ .notify (s.task u).tid := by
      obtain ⟨w, rfl⟩ | rfl := he <;> exact hok
    exact hnot t hlt (htid ▸ hph)

theorem TreeInv.step (hok : answered n s e) : TreeInv n s' := by
  refine ⟨hi.known.step h, hi.ids.step hi.known h ?_, hi.count.step hi.ids hi.known h, hi.init_step h,
    hi.parent_step h hok, hi.notify_step h hok⟩
  rintro t flags rfl
  exact hok

end

theorem TreeInv.boot (n : Nat) : TreeInv n (boot n) := by
  have hN : (Yagura.boot n).nextTask = n + 1 := rfl
  have hT : (Yagura.boot n).nextTid = 2 := rfl
  have hph : ∀ u, (Yagura.boot n).phase u = .user := fun _ => rfl
  have hmem : ∀ u, u ∈ (Yagura.boot n).allTasks ↔ u = n := by simp [Yagura.boot]
  have htn : (Yagura.boot n).task n = initTask n := if_pos rfl
  have hst : ∀ u, ((Yagura.boot n).task u).state = .running := by
    intro u
    simp only [Yagura.boot]
    split_ifs <;> rfl
  have heq : ∀ u, n ≤ u → u < (Yagura.boot n).nextTask → u = n := fun u h1 h2 => by omega
  refine ⟨⟨fun u h => ?_, fun c _ u h => ?_, fun c _ u h _ => ?_, fun u h _ => ?_, by simp [hph]⟩,
    ⟨by omega, by omega, fun u h => ?_, fun u _ => rfl, fun v k h => ?_, fun u h h' => ?_, fun _ u h h' => ?_,
      fun u v h h' k k' _ => ?_, fun k u h h' hu hu' he => ?_, fun u v h h' k k' _ => ?_, by simp [htn, initTask]⟩, fun g S hS => ?_, ?_,
    fun k hk h0 => ?_, by simp [hph]⟩
  · rw [hst] at h; cases h
  · simp [Yagura.boot] at h
  · simp [Yagura.boot, Pc.tasks] at h
  · exact .inl ((hmem u).mpr (by simpa [Yagura.boot] using h))
  · obtain rfl := (hmem u).mp h; omega
  · simp [hph] at h
  · obtain rfl := heq u h h'
    rw [htn]
    simp [initTask, idleTask, NSIG]
  · obtain rfl := heq u h h'
    rw [htn, hT]
    simp [initTask, idleTask]
  · rw [heq u h h', heq v k k']
  · obtain rfl := heq u hu hu'
    simp [htn, initTask]
  · rw [heq u h h', heq v k k']
  · have hsub : S ⊆ {n} := fun u hu => by
      obtain h | ⟨_, h⟩ := (hS u hu).1.1
      · exact Finset.mem_singleton.mpr ((hmem u).mp h)
      · cases h
    have hle := Finset.card_le_card hsub
    by_cases hS0 : S = ∅
    · simp [hS0]
    · obtain ⟨u, hu⟩ := Finset.nonempty_iff_ne_empty.mpr hS0
      have hg := (hS u hu).2
      rw [Finset.mem_singleton.mp (hsub hu), htn] at hg
      simpa [Yagura.boot, ← hg, initTask] using hle
  · refine ⟨(hmem n).mpr rfl, by simp [hst], ?_⟩
    simp [Sys.Exited, hph]
  · obtain rfl := (hmem k).mp hk
    rw [htn] at h0
    exact absurd rfl h0

theorem TreeInv.sendSignalOk (hi : TreeInv n s) (t : Nat) (pid : Int) (ht : s.phase t = .notify pid) :
    s.sendSignalOk pid (s.task t).exitSignal := by
  have htb := hi.ids.known_bounds (.inr (.inr ⟨pid, ht⟩))
  obtain ⟨u, hu, htid⟩ := hi.notify t pid ht
  have hub := hi.ids.linked u hu
  have hpos := (hi.ids.ids u hub.1 hub.2).1
  exact ⟨by omega, (hi.ids.ids t htb.1 htb.2).2.2.2, u, hu, htid⟩

def forkRuns (c : Nat) : List (Nat × Move) :=
  List.replicate 6 (0, .go) ++ [(0, .clone 17), (0, .register), (0, .register), (0, .register)] ++
    List.replicate 7 (c, .go)

def parentExits : List (Nat × Move) :=
  forkRuns 1 ++ [(1, .clone 17), (1, .register), (1, .register), (1, .register), (1, .exit), (1, .exit), (1, .go),
    (1, .go)]

/-- Until `next_tid` wraps around, no tid is used twice, a tgid has one group, and the group counts at
least the threads that run. -/
theorem ids_unique {ok : Sys → Ev → Prop} (h : Run (Step n) ok (boot n) s)
    (hok : ∀ s t flags, ok s (.clone t flags) → (cloneThread flags = true ∨ flags % 256 < NSIG) ∧ 0 < s.nextTid) :
    IdInv n s ∧ CountInv s := by
  have h0 := TreeInv.boot n
  refine (h.invariant (I := fun s => KnownInv n s ∧ IdInv n s ∧ CountInv s) ⟨h0.known, h0.ids, h0.count⟩ ?_).2
  rintro s e s' ⟨hk, hi, hc⟩ hst he
  refine ⟨hk.step hst, hi.step hk hst ?_, hc.step hi hk hst⟩
  rintro t flags rfl
  exact hok s t flags he

theorem ids_unique_orphan : ∃ s, (s.task 4).ppid = 1 ∧ IdInv 2 s := by
  obtain ⟨s, hr, hp⟩ := schedule_reaches 2 (answered 2) (boot 2) parentExits (fun s => (s.task 4).ppid = 1)
    (by decide +kernel)
  exact ⟨s, hp, (ids_unique hr fun _ _ _ h => h).1⟩

end Yagura
