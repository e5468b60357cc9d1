import Yagura.ProcTree

/-!
# Thread groups and their children

`num_running` of a thread group counts its running threads, and once it is
zero it stays so. Every exiting thread gives the children of its group to init,
whether or not other threads of the group still run. If a thread exits as the
last of its group or while the group has no child, and the group makes no
child after that, children are given away only when nobody runs in the group.
-/

namespace Yagura

open Function List Nat Sys

variable {n : Nat} {s s' : Sys} {e : Ev} {t u : Nat}

/-! ## What a step does -/

theorem step_notice (h : Step n s e s') : (s'.numRunning = s.numRunning ∧ (∀ u, s'.Exited u ↔ s.Exited u) ∧
      ∀ u pid, s'.phase u = .notify pid ↔ s.phase u = .notify pid) ∨
    (∃ c t k, c < n ∧ s.pc c = .run t ∧ s.phase t = .clone k ∧
      s'.numRunning = update s.numRunning (s.task k).threadGroup
        (s.numRunning (s.task k).threadGroup + 1) ∧
      s'.phase = update s.phase t (.register k)) ∨
    (∃ c t, c < n ∧ s.pc c = .run t ∧ n ≤ t ∧ e = .exit t ∧ s.phase t = .user ∧
      0 < s.numRunning (s.task t).threadGroup ∧
      s'.numRunning = update s.numRunning (s.task t).threadGroup
        (s.numRunning (s.task t).threadGroup - 1) ∧
      s'.phase = update s.phase t (if s.notifiesParent t then .notify (s.task t).ppid else .exiting)) ∨
    ∃ t pid, s.phase t = .notify pid ∧ s'.numRunning = s.numRunning ∧ s'.phase = update s.phase t .exiting := by
  have still : ∀ {t p}, (∀ pid, s.phase t ≠ .notify pid) → s.phase t ≠ .exiting → (∀ pid, p ≠ .notify pid) →
      p ≠ .exiting → (∀ u, (s.setPhase t p).Exited u ↔ s.Exited u) ∧
        ∀ u pid, (s.setPhase t p).phase u = .notify pid ↔ s.phase u = .notify pid := by
    intro t p h1 h2 h3 h4
    refine ⟨fun u => ?_, fun u pid => ?_⟩ <;> by_cases hu : u = t
    · subst hu; simp [Sys.Exited, setPhase, h1, h2, h3, h4]
    · simp [Sys.Exited, setPhase, hu]
    · subst hu; simp [setPhase, h1, h3]
    · simp [setPhase, hu]
  cases h with
  | clone _ _ _ _ hph | cloneFail _ _ hph | registerLink _ _ hph | registerEnqueue _ _ hph =>
    exact .inl ⟨rfl, still (by simp [hph]) (by simp [hph]) (by simp) (by simp)⟩
  | registerRef hc hp hph => exact .inr (.inl ⟨_, _, _, hc, hp, hph, rfl, rfl⟩)
  | exit hc hp ht hph _ hpos => exact .inr (.inr (.inl ⟨_, _, hc, hp, ht, rfl, hph, hpos, rfl, rfl⟩))
  | exitNotify hc hp hph _ _ => exact .inr (.inr (.inr ⟨_, _, hph, rfl, rfl⟩))
  | _ => exact .inl ⟨rfl, fun _ => Iff.rfl, fun _ _ => Iff.rfl⟩

theorem nextTask_le (h : Step n s e s') : s.nextTask ≤ s'.nextTask := by
  obtain ⟨hN, _⟩ | ⟨_, _, _, _, _, _, _, hN, _⟩ := step_task h <;> omega

theorem exited_update {p : Phase} (hph : s'.phase = update s.phase t p) (ht : u = t → s.Exited u)
    (hu : s'.Exited u) : s.Exited u := by
  by_cases he : u = t
  · exact ht he
  · simpa [Sys.Exited, hph, he] using hu

theorem exited_register {k : Nat} (hph : s'.phase = update s.phase t (.register k)) (hu : s'.Exited u) :
    s.Exited u := by
  refine exited_update hph ?_ hu
  rintro rfl
  simp [Sys.Exited, hph] at hu

theorem exited_notified {pid : Int} (ht : s.phase t = .notify pid) (hph : s'.phase = update s.phase t .exiting)
    (hu : s'.Exited u) : s.Exited u :=
  exited_update hph (fun he => .inr ⟨pid, he ▸ ht⟩) hu

theorem exited_of_step (h : Step n s e s') (hu : s'.Exited u) : s.Exited u ∨ ∃ c < n, s.pc c = .run u ∧ n ≤ u := by
  obtain ⟨_, hx, _⟩ | ⟨_, t, k, _, _, _, _, hph⟩ | ⟨c, t, hc, hp, ht, _, _, _, _, hph⟩ | ⟨t, pid, htp, _, hph⟩ :=
    step_notice h
  · exact .inl ((hx u).mp hu)
  · exact .inl (exited_register hph hu)
  · by_cases he : u = t
    · subst he
      exact .inr ⟨c, hc, hp, ht⟩
    · exact .inl (exited_update hph (absurd · he) hu)
  · exact .inl (exited_notified htp hph hu)

theorem running_step (hk : KnownInv n s) (h : Step n s e s') (hu : s.Running u) (hx : ¬ s'.Exited u) :
    s'.Running u := by
  refine ⟨?_, hx⟩
  obtain hu' | ⟨v, hv⟩ := hu.1
  · exact .inl ((linked_step h hu').resolve_right fun hde => hu.2 (.inl (hk.dead u hde.1)))
  · obtain hph | ⟨_, _, _, hn, hl, _⟩ := step_thread h v
    · exact .inr ⟨v, hph.trans hv⟩
    · rw [hv] at hn
      generalize hq : s'.phase v = q at hn
      cases hn
      exact .inl (hl u hq)

theorem step_clone (h : Step n s e s') {v k : Nat} (hv : s'.phase v = .clone k) :
    s.phase v = .clone k ∨ k = s.nextTask ∧ s'.nextTask = s.nextTask + 1 := by
  obtain hph | ⟨_, _, _, hn, _, hN⟩ := step_thread h v
  · exact .inl (hph ▸ hv)
  · exact .inr ⟨(hv ▸ hn).of_clone, hN k hv⟩

/-! ## Thread groups -/

/-- Thread groups are named by their leaders; `num_running` counts no more than the running threads. -/
structure GroupInv (n : Nat) (s : Sys) : Prop where
  tree : TreeInv n s
  group : ∀ u, n ≤ u → u < s.nextTask → (s.task u).threadGroup < s.nextTask
  parent : ∀ u, n ≤ u → u < s.nextTask → (s.task u).threadGroup ≠ n → (s.task u).ppid ≠ 0
  builder : ∀ v w k, (s.phase v).builds k ≠ 0 → (s.phase w).builds k ≠ 0 → v = w
  fresh : ∀ v k, s.phase v = .clone k → k ∉ s.allTasks ∧ ¬ s.Exited k
  joins : ∀ v k, s.phase v = .clone k →
    (s.task k).threadGroup = k ∨ (s.task k).threadGroup = (s.task v).threadGroup
  unused : ∀ g, s.nextTask ≤ g → s.numRunning g = 0
  counted : ∀ g, ∃ S : Finset Nat, (∀ u ∈ S, s.Running u ∧ (s.task u).threadGroup = g) ∧ s.numRunning g ≤ S.card

namespace GroupInv

section
variable (hi : GroupInv n s)
include hi

theorem thread_lt {v : Nat} (hv : s.phase v ≠ .user) : n ≤ v ∧ v < s.nextTask := by
  by_contra h
  exact hv (hi.tree.ids.user v (by omega))

theorem runner_bounds {c t : Nat} (hc : c < n) (hp : s.pc c = .run t) (ht : n ≤ t) : t < s.nextTask :=
  hi.tree.ids.run_bounds hi.tree.known hc hp ht

theorem runner {c t : Nat} (hc : c < n) (hp : s.pc c = .run t) (ht : n ≤ t) (hx : ¬ s.Exited t) : s.Running t :=
  ⟨.inl ((hi.tree.known.cpu c hc t (by simp [hp, Pc.tasks]) ht).resolve_right hx), hx⟩

theorem running_pos {u : Nat} (hu : s.Running u) : 0 < s.numRunning (s.task u).threadGroup := by
  have := hi.tree.count _ {u} fun v hv => by
    rw [Finset.mem_singleton.mp hv]
    exact ⟨hu, rfl⟩
  rwa [Finset.card_singleton] at this

section
variable (h : Step n s e s')
include h

theorem same_group (hu : s.phase u ≠ .user) : (s'.task u).threadGroup = (s.task u).threadGroup :=
  (step_sameId h (hi.thread_lt hu).2).threadGroup

theorem group_step : ∀ u, n ≤ u → u < s'.nextTask → (s'.task u).threadGroup < s'.nextTask := by
  intro u hu hlt
  obtain ⟨h1, _, h3, _⟩ | ⟨c, t, flags, hc, hp, ht, _, h1, _, h3⟩ := step_task h
  · rw [(h3 u).threadGroup, h1]
    exact hi.group u hu (h1 ▸ hlt)
  · rw [h3, h1]
    by_cases he : u = s.nextTask
    · subst he
      have := hi.group t ht (hi.runner_bounds hc hp ht)
      simp only [update_self, cloneTask]
      split_ifs <;> omega
    · rw [update_of_ne he]
      have := hi.group u hu (by omega)
      omega

theorem parent_step : ∀ u, n ≤ u → u < s'.nextTask → (s'.task u).threadGroup ≠ n → (s'.task u).ppid ≠ 0 := by
  intro u hu hlt hg
  obtain ⟨h1, _, h3, h4⟩ | ⟨c, t, flags, hc, hp, ht, _, h1, _, h3⟩ := step_task h
  · obtain hpp | ⟨_, _, _, _, hpp⟩ := h4 u
    · rw [hpp]
      exact hi.parent u hu (h1 ▸ hlt) ((h3 u).threadGroup ▸ hg)
    · omega
  · rw [h3] at hg ⊢
    by_cases he : u = s.nextTask
    · subst he
      have htl := hi.runner_bounds hc hp ht
      simp only [update_self, cloneTask] at hg ⊢
      split_ifs at hg ⊢
      · exact hi.parent t ht htl hg
      · exact (hi.tree.ids.ids t ht htl).2.1.ne'
    · rw [update_of_ne he] at hg ⊢
      exact hi.parent u hu (by omega) hg

theorem builder_step : ∀ v w k, (s'.phase v).builds k ≠ 0 → (s'.phase w).builds k ≠ 0 → v = w := by
  intro v w k hv hw
  obtain hph | ⟨c, t, p, _, _, hn, hph, _⟩ := step_phase h
  · rw [hph] at hv hw
    exact hi.builder v w k hv hw
  · have old : ∀ v, (s'.phase v).builds k ≠ 0 → (s.phase v).builds k ≠ 0 ∨ v = t ∧ k = s.nextTask := by
      intro v hv
      by_cases he : v = t
      · subst he
        rw [hph, update_self] at hv
        exact (hn.builds hv).imp_right fun h => ⟨rfl, (h ▸ hn).of_clone⟩
      · exact .inl (by simpa [hph, he] using hv)
    obtain hv | ⟨rfl, hk⟩ := old v hv <;> obtain hw | ⟨rfl, hk'⟩ := old w hw
    · exact hi.builder v w k hv hw
    · have := (hi.tree.ids.builds v k hv).2
      omega
    · have := (hi.tree.ids.builds w k hw).2
      omega
    · rfl

theorem fresh_step : ∀ v k, s'.phase v = .clone k → k ∉ s'.allTasks ∧ ¬ s'.Exited k := by
  intro v k hv
  have hnew : ∀ k, (k ∉ s.allTasks ∧ ¬ s.Exited k) → n ≤ k → (∀ t, s.phase t ≠ .register k) →
      k ∉ s'.allTasks ∧ ¬ s'.Exited k := by
    intro k ⟨hl, hx⟩ hnk hreg
    refine ⟨fun hl' => ?_, fun hx' => ?_⟩
    · obtain hl' | ⟨_, t, ht⟩ := linked_of_step h hl'
      · exact hl hl'
      · exact hreg t ht
    · obtain hx' | ⟨c, hc, hp, _⟩ := exited_of_step h hx'
      · exact hx hx'
      · obtain hl' | hx' := hi.tree.known.cpu c hc k (by simp [hp, Pc.tasks]) hnk
        · exact hl hl'
        · exact hx hx'
  obtain hv | ⟨rfl, _⟩ := step_clone h hv
  · refine hnew k (hi.fresh v k hv) (hi.tree.ids.builds v k (by simp [hv])).1 fun t ht => ?_
    have := hi.builder v t k (by simp [hv]) (by simp [ht])
    rw [this, ht] at hv
    cases hv
  · have hout : ¬ s.Known s.nextTask := fun hk => by
      have := (hi.tree.ids.known_bounds hk).2
      omega
    refine hnew _ ⟨fun h => hout (.inl h), fun h => hout (.inr h)⟩ (by have := hi.tree.ids.bound; omega) fun t ht => ?_
    have := (hi.tree.ids.builds t s.nextTask (by simp [ht])).2
    omega

theorem joins_step : ∀ v k, s'.phase v = .clone k →
    (s'.task k).threadGroup = k ∨ (s'.task k).threadGroup = (s'.task v).threadGroup := by
  intro v k hv
  have hold : s.phase v = .clone k →
      (s'.task k).threadGroup = k ∨ (s'.task k).threadGroup = (s'.task v).threadGroup := by
    intro hv
    have hk := (hi.tree.ids.builds v k (by simp [hv])).2
    rw [(step_sameId h hk).threadGroup, hi.same_group h (by simp [hv])]
    exact hi.joins v k hv
  obtain hv' | ⟨_, hN'⟩ := step_clone h hv
  · exact hold hv'
  · obtain ⟨hN, _⟩ | ⟨_, t, flags, _, _, _, rfl, _⟩ := step_task h
    · omega
    · cases h with
      | clone _ hc hp ht _ _ =>
        by_cases he : v = t
        · subst he
          have hvl := hi.runner_bounds hc hp ht
          simp only [setPhase, update_self, Phase.clone.injEq] at hv
          subst hv
          simp only [setPhase, update_self, update_of_ne (Nat.ne_of_lt hvl), cloneTask]
          split_ifs
          · exact .inr rfl
          · exact .inl rfl
        · exact hold (by simpa [setPhase, he] using hv)

theorem unused_step : ∀ g, s'.nextTask ≤ g → s'.numRunning g = 0 := by
  intro g hg
  have hN := nextTask_le h
  have h0 := hi.unused g (by omega)
  obtain ⟨hnum, _⟩ | ⟨_, t, k, _, _, hph, hnum, _⟩ | ⟨c, t, hc, hp, ht, _, _, _, hnum, _⟩ | ⟨t, pid, _, hnum, _⟩ :=
    step_notice h <;> rw [hnum]
  · exact h0
  · have hk := hi.tree.ids.builds t k (by simp [hph])
    have := hi.group k hk.1 hk.2
    rw [update_of_ne (by omega), h0]
  · have := hi.group t ht (hi.runner_bounds hc hp ht)
    rw [update_of_ne (by omega), h0]
  · exact h0

theorem counted_step : ∀ g, ∃ S : Finset Nat,
    (∀ u ∈ S, s'.Running u ∧ (s'.task u).threadGroup = g) ∧ s'.numRunning g ≤ S.card := by
  intro g
  obtain ⟨S, hS, hca⟩ := hi.counted g
  have keep : ∀ u ∈ S, ¬ s'.Exited u → s'.Running u ∧ (s'.task u).threadGroup = g := by
    intro u hu hx
    obtain ⟨hr, hg⟩ := hS u hu
    exact ⟨running_step hi.tree.known h hr hx, (step_sameId h (hi.tree.ids.running_bounds hr).2).threadGroup.trans hg⟩
  obtain ⟨hnum, hx, _⟩ | ⟨c, t, k, _, _, hph, hnum, hph'⟩ | ⟨c, t, hc, hp, ht, _, hph, _, hnum, hph'⟩ |
    ⟨t, pid, hph, hnum, hph'⟩ := step_notice h <;> rw [hnum]
  · exact ⟨S, fun u hu => keep u hu fun h => (hS u hu).1.2 ((hx u).mp h), hca⟩
  · have hS' : ∀ u ∈ S, s'.Running u ∧ (s'.task u).threadGroup = g :=
      fun u hu => keep u hu fun h => (hS u hu).1.2 (exited_register hph' h)
    by_cases hg : g = (s.task k).threadGroup
    · -- `k` joins the threads that were running
      obtain ⟨hl, hxk⟩ := hi.fresh t k hph
      have hkS : k ∉ S := by
        intro hk
        obtain hl' | ⟨v, hv⟩ := (hS k hk).1.1
        · exact hl hl'
        · have := hi.builder t v k (by simp [hph]) (by simp [hv])
          rw [← this, hph] at hv
          cases hv
      have hk := (hi.tree.ids.builds t k (by simp [hph])).2
      refine ⟨insert k S, fun u hu => ?_, ?_⟩
      · obtain rfl | hu := Finset.mem_insert.mp hu
        · exact ⟨⟨.inr ⟨t, by simp [hph']⟩, fun h => hxk (exited_register hph' h)⟩, (step_sameId h hk).threadGroup.trans hg.symm⟩
        · exact hS' u hu
      · rw [← hg, update_self, Finset.card_insert_of_notMem hkS]
        omega
    · rw [update_of_ne hg]
      exact ⟨S, hS', hca⟩
  · have hx : ∀ u, u ≠ t → s'.Exited u → s.Exited u := fun u he hu => exited_update hph' (absurd · he) hu
    by_cases hg : g = (s.task t).threadGroup
    · refine ⟨S.erase t, fun u hu => ?_, ?_⟩
      · obtain ⟨hne, hu⟩ := Finset.mem_erase.mp hu
        exact keep u hu fun h => (hS u hu).1.2 (hx u hne h)
      · have hpr := Finset.pred_card_le_card_erase (s := S) (a := t)
        rw [← hg, update_self]
        omega
    · rw [update_of_ne hg]
      refine ⟨S, fun u hu => keep u hu fun h => (hS u hu).1.2 (hx u ?_ h), hca⟩
      rintro rfl
      exact hg (hS u hu).2.symm
  · exact ⟨S, fun u hu => keep u hu fun h => (hS u hu).1.2 (exited_notified hph hph' h), hca⟩

theorem step (hok : answered n s e) : GroupInv n s' where
  tree := hi.tree.step h hok
  group := hi.group_step h
  parent := hi.parent_step h
  builder := hi.builder_step h
  fresh := hi.fresh_step h
  joins := hi.joins_step h
  unused := hi.unused_step h
  counted := hi.counted_step h

end

end

theorem boot (n : Nat) : GroupInv n (boot n) := by
  have heq : ∀ u, n ≤ u → u < (Yagura.boot n).nextTask → u = n := fun u h1 h2 => by
    have : (Yagura.boot n).nextTask = n + 1 := rfl
    omega
  have htn : (Yagura.boot n).task n = initTask n := if_pos rfl
  refine ⟨TreeInv.boot n, fun u h h' => ?_, fun u h h' hg => ?_, nofun, nofun, nofun, fun g hg => ?_, fun g => ?_⟩
  · rw [heq u h h', htn]
    exact lt_succ_self n
  · rw [heq u h h', htn] at hg
    exact absurd rfl hg
  · have : g ≠ n := by
      have : (Yagura.boot n).nextTask = n + 1 := rfl
      omega
    simp [Yagura.boot, this]
  · by_cases hg : g = n
    · subst hg
      refine ⟨{g}, fun u hu => ?_, by simp [Yagura.boot]⟩
      rw [Finset.mem_singleton.mp hu, htn]
      exact ⟨⟨.inl (by simp [Yagura.boot]), by simp [Sys.Exited, Yagura.boot]⟩, rfl⟩
    · exact ⟨∅, by simp, by simp [Yagura.boot, hg]⟩

end GroupInv

/-! ## Children given away -/

instance Sys.decidableExited (s : Sys) (u : Nat) : Decidable (s.Exited u) :=
  match h : s.phase u with
  | .exiting => .isTrue (.inl h)
  | .notify pid => .isTrue (.inr ⟨pid, h⟩)
  | .user | .clone _ | .register _ | .enqueue _ => .isFalse (by simp [Sys.Exited, h])

/-- A thread exits as the last of its group or while the group has no child,
and a task is registered as a child of a group only while no thread of the
group has exited or all have. Children of init are given to init. -/
def keepsChildren (s : Sys) : Ev → Prop
  | .exit t => s.numRunning (s.task t).threadGroup = 1 ∨ (s.task t).tgid = 1 ∨
      ∀ k ∈ s.allTasks, (s.task k).ppid ≠ (s.task t).tgid
  | .link k => ∀ t < s.nextTask, (s.task t).tgid = (s.task k).ppid → s.Exited t →
      s.numRunning (s.task t).threadGroup = 0 ∨ (s.task t).tgid = 1
  | _ => True

instance (s : Sys) : ∀ e, Decidable (keepsChildren s e)
  | .exit _ => inferInstanceAs (Decidable (_ ∨ _))
  | .link _ => inferInstanceAs (Decidable (∀ t < s.nextTask, _))
  | .tau | .wake _ | .wakeReap .. | .reap _ | .clone .. | .reparent _ => .isTrue trivial

def orderly (n : Nat) (s : Sys) (e : Ev) : Prop := answered n s e ∧ keepsChildren s e
  deriving Decidable

structure ChildInv (n : Nat) (s : Sys) : Prop where
  groups : GroupInv n s
  /-- Nobody has joined the group of a process that is still being made. -/
  alone : ∀ v k, s.phase v = .clone k → ∀ t, n ≤ t → t < s.nextTask → (s.task t).threadGroup = k → t = k
  exited : ∀ t, s.Exited t → s.numRunning (s.task t).threadGroup = 0 ∨ (s.task t).tgid = 1 ∨
    ∀ k ∈ s.allTasks, (s.task k).ppid ≠ (s.task t).tgid

namespace ChildInv

section
variable (hi : ChildInv n s) (h : Step n s e s')
include hi h

theorem alone_step : ∀ v k, s'.phase v = .clone k → ∀ t, n ≤ t → t < s'.nextTask → (s'.task t).threadGroup = k →
    t = k := by
  intro v k hv t ht hlt hg
  obtain hv | ⟨rfl, hN⟩ := step_clone h hv
  · obtain ⟨h1, _, h3, _⟩ | ⟨c, w, flags, hc, hp, hw, _, h1, _, h3⟩ := step_task h
    · exact hi.alone v k hv t ht (h1 ▸ hlt) ((h3 t).threadGroup ▸ hg)
    · have hk := (hi.groups.tree.ids.builds v k (by simp [hv])).2
      rw [h3] at hg
      by_cases he : t = s.nextTask
      · -- the new task joins the group of `w`, which runs, while `k` does not
        subst he
        simp only [update_self, cloneTask] at hg
        split_ifs at hg
        · obtain rfl := hi.alone v k hv w hw (hi.groups.runner_bounds hc hp hw) hg
          exact absurd (hi.groups.tree.known.cpu c hc w (by simp [hp, Pc.tasks]) hw)
            (not_or.mpr (hi.groups.fresh v w hv))
        · exact hg
      · rw [update_of_ne he] at hg
        exact hi.alone v k hv t ht (by omega) hg
  · by_contra hne
    have hlt : t < s.nextTask := by omega
    have := hi.groups.group t ht hlt
    rw [(step_sameId h hlt).threadGroup] at hg
    omega

theorem stays_zero (hx : s.Exited t) (h0 : s.numRunning (s.task t).threadGroup = 0) :
    s'.numRunning (s.task t).threadGroup = 0 := by
  obtain ⟨hnum, _⟩ | ⟨c, w, k, hc, hp, hph, hnum, _⟩ | ⟨c, w, _, _, _, _, _, hpos, hnum, _⟩ | ⟨_, _, _, hnum, _⟩ :=
    step_notice h <;> rw [hnum]
  · exact h0
  · have hb := hi.groups.tree.ids.known_bounds (.inr hx)
    by_cases hg : (s.task t).threadGroup = (s.task k).threadGroup
    · -- whoever registers a thread of the group either runs in it or makes the group
      obtain hj | hj := hi.groups.joins w k hph
      · obtain rfl := hi.alone w k hph t hb.1 hb.2 (hg.trans hj)
        exact absurd hx (hi.groups.fresh w t hph).2
      · have hwl := hi.groups.thread_lt (v := w) (by simp [hph])
        have := hi.groups.running_pos (hi.groups.runner hc hp hwl.1 (by simp [Sys.Exited, hph]))
        rw [← hj, ← hg] at this
        omega
    · rw [update_of_ne hg, h0]
  · rw [update_of_ne (fun hg => by rw [hg] at h0; omega), h0]
  · exact h0

theorem exited_after (hok : orderly n s e) (hx : s.Exited t) : s'.numRunning (s'.task t).threadGroup = 0 ∨
    (s'.task t).tgid = 1 ∨ ∀ k ∈ s'.allTasks, (s'.task k).ppid ≠ (s'.task t).tgid := by
  have hlt := (hi.groups.tree.ids.known_bounds (.inr hx)).2
  have hid := step_sameId h hlt
  rw [hid.threadGroup, hid.tgid]
  obtain h0 | h1 | hch := hi.exited t hx
  · exact .inl (hi.stays_zero h hx h0)
  · exact .inr (.inl h1)
  · by_cases h1 : (s.task t).tgid = 1
    · exact .inr (.inl h1)
    by_cases hnew : ∃ k, e = .link k ∧ (s.task k).ppid = (s.task t).tgid
    · obtain ⟨k, rfl, hk⟩ := hnew
      exact (hok.2 t hlt hk.symm hx).imp (hi.stays_zero h hx) .inl
    · refine .inr (.inr fun k hk hkp => ?_)
      have hkl : k < s.nextTask ∧ (s.task k).ppid ≠ (s.task t).tgid := by
        obtain hk | ⟨he, v, hv⟩ := linked_of_step h hk
        · exact ⟨(hi.groups.tree.ids.linked k hk).2, hch k hk⟩
        · exact ⟨(hi.groups.tree.ids.builds v k (by simp [hv])).2, fun hk => hnew ⟨k, he, hk⟩⟩
      obtain ⟨_, _, _, h4⟩ | ⟨_, _, _, _, _, _, _, _, _, h3⟩ := step_task h
      · obtain hpp | ⟨_, _, _, _, hpp⟩ := h4 k
        · exact hkl.2 (hpp ▸ hkp)
        · exact h1 (hkp ▸ hpp)
      · rw [h3, update_of_ne (by omega)] at hkp
        exact hkl.2 hkp

theorem step (hok : orderly n s e) : ChildInv n s' := by
  refine ⟨hi.groups.step h hok.1, hi.alone_step h, fun t hx => ?_⟩
  by_cases hxs : s.Exited t
  · exact hi.exited_after h hok hxs
  · obtain ⟨_, hxi, _⟩ | ⟨_, _, _, _, _, _, _, hph⟩ | ⟨_, v, _, _, _, rfl, _, _, _, hph⟩ | ⟨_, _, hph, _, hph'⟩ :=
      step_notice h
    · exact absurd ((hxi t).mp hx) hxs
    · exact absurd (exited_register hph hx) hxs
    · obtain rfl : t = v := by
        by_contra hne
        exact hxs (exited_update hph (absurd · hne) hx)
      cases h with
      | exit =>
        refine hok.2.imp_left fun h1 => ?_
        simp [setPhase, h1]
    · exact absurd (exited_notified hph hph' hx) hxs

end

theorem boot (n : Nat) : ChildInv n (boot n) := by
  refine ⟨GroupInv.boot n, nofun, fun t hx => ?_⟩
  obtain hx | ⟨_, hx⟩ := hx <;> cases hx

end ChildInv

/-! ## The process tree -/

structure TreeOk (n : Nat) (s : Sys) : Prop where
  reparented : ∀ e s', Step n s e s' → ∀ k < s.nextTask, (s'.task k).ppid ≠ (s.task k).ppid →
    (s'.task k).ppid = 1 ∧ ∀ u, (s.task u).tgid = (s.task k).ppid → ¬ s.Running u
  parent : ∀ k ∈ s.allTasks, (s.task k).state ≠ .dead → (s.task k).ppid ≠ 0 →
    ∃ u ∈ s.allTasks, (s.task u).tid = (s.task k).ppid
  notify : ∀ t pid, s.phase t = .notify pid → s.sendSignalOk pid (s.task t).exitSignal

theorem ChildInv.reparented (hi : ChildInv n s) (h : Step n s e s') {k : Nat} (hk : k < s.nextTask)
    (hne : (s'.task k).ppid ≠ (s.task k).ppid) :
    (s'.task k).ppid = 1 ∧ ∀ u, (s.task u).tgid = (s.task k).ppid → ¬ s.Running u := by
  obtain ⟨_, _, _, h4⟩ | ⟨_, _, _, _, _, _, _, _, _, h3⟩ := step_task h
  · obtain hp | ⟨t, rfl, hkm, hkp, hone⟩ := h4 k
    · exact absurd hp hne
    · refine ⟨hone, fun u hu hr => ?_⟩
      have hx : s.Exited t := by
        cases h with
        | exitReparent hc hp _ => exact .inl (hi.groups.tree.known.exits _ hc t (.inl hp))
      have htb := hi.groups.tree.ids.known_bounds (.inr hx)
      have hub := hi.groups.tree.ids.running_bounds hr
      have hgrp := hi.groups.tree.ids.group u t hub.1 hub.2 htb.1 htb.2 (hu.trans hkp)
      obtain h0 | h1 | hch := hi.exited t hx
      · have := hi.groups.running_pos hr
        rw [hgrp] at this
        omega
      · exact hne (by rw [hone, hkp, h1])
      · exact hch k hkm hkp
  · rw [h3, update_of_ne (by omega)] at hne
    exact absurd rfl hne

theorem treeOk_of_orderly (h : Run (Step n) (orderly n) (boot n) s) : TreeOk n s := by
  have hi := h.invariant (ChildInv.boot n) fun _ _ _ hi hst hok => hi.step hst hok
  have htr := hi.groups.tree
  refine ⟨fun e s' hst k hk => hi.reparented hst hk, fun k hk _ h0 => ?_, htr.sendSignalOk⟩
  obtain ⟨u, hu, htid⟩ := htr.parent k hk h0
  exact ⟨u, hu.1, htid⟩

theorem orphan_adopted : ∃ s, Run (Step 2) (orderly 2) (boot 2) s ∧ (s.task 4).ppid = 1 ∧ TreeOk 2 s := by
  obtain ⟨s, hr, hp⟩ := schedule_reaches 2 (orderly 2) (boot 2) parentExits (fun s => (s.task 4).ppid = 1)
    (by decide +kernel)
  exact ⟨s, hr, hp, treeOk_of_orderly hr⟩

def threadRuns (fork : List (Nat × Move)) (visits : Nat) : List (Nat × Move) :=
  forkRuns 1 ++ [(1, .clone 67840), (1, .register), (1, .register), (1, .register)] ++ fork ++
    List.replicate visits (2, .go)

def threadExits : List (Nat × Move) :=
  threadRuns [(1, .clone 17), (1, .register), (1, .register), (1, .register)] 9 ++ [(2, .exit), (2, .go)]

def threadForks : List (Nat × Move) :=
  threadRuns [] 8 ++ (1, .exit) :: List.replicate 5 (1, .go) ++
    [(0, .reap ⟨-1, 1, 1⟩), (2, .clone 17), (2, .register), (2, .register), (2, .register)] ++
    List.replicate 8 (1, .go) ++ [(1, .exit)]

/-- A thread's exit takes child 6 from process 4, which runs on; and the exit of a thread's child 6 fails. -/
theorem thread_exits_break_tree :
    (∃ s s', Run (Step 3) anyStep (boot 3) s ∧ Step 3 s (.reparent 5) s' ∧ (s.task 6).ppid = 2 ∧
      (s'.task 6).ppid = 1 ∧ (s.task 4).tgid = 2 ∧ s.Running 4) ∧
    ∃ s, Run (Step 3) anyStep (boot 3) s ∧ 6 ∈ s.allTasks ∧ (s.task 6).state ≠ .dead ∧ (s.task 6).ppid = 2 ∧
      (∀ u ∈ s.allTasks, (s.task u).tid ≠ 2) ∧ s.phase 6 = .notify 2 ∧ ¬ s.sendSignalOk 2 (s.task 6).exitSignal := by
  constructor
  · obtain ⟨s, hr, hpc, hl, h6, hp, ht, h4, hph, ht'⟩ := schedule_reaches 3 anyStep (boot 3) threadExits
      (fun s => s.pc 2 = .exit 5 ∧ s.AllTasksUnlocked 3 ∧ 6 ∈ s.allTasks ∧ (s.task 6).ppid = 2 ∧
        (s.task 5).tgid = 2 ∧ 4 ∈ s.allTasks ∧ s.phase 4 = .user ∧ (s.task 4).tgid = 2) (by decide +kernel)
    refine ⟨s, _, hr, .exitReparent (by decide) hpc hl, hp, ?_, ht', .inl h4, ?_⟩
    · simp [setPc, Sys.reparent, h6, hp, ht]
    · simp [Sys.Exited, hph]
  · obtain ⟨s, hr, h⟩ := schedule_reaches 3 anyStep (boot 3) threadForks
      (fun s => 6 ∈ s.allTasks ∧ (s.task 6).state ≠ .dead ∧ (s.task 6).ppid = 2 ∧
        (∀ u ∈ s.allTasks, (s.task u).tid ≠ 2) ∧ s.phase 6 = .notify 2 ∧
        ¬ s.sendSignalOk 2 (s.task 6).exitSignal) (by decide +kernel)
    exact ⟨s, hr, h⟩

end Yagura
