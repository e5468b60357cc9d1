import Yagura.Signals

/-!
# Pending signals

What a step does to the pending signals of a task and to the actions of a
`sighand`, and what follows for whole runs: a pending signal waits until it is
taken, the lowest one first, SIGCONT is never pending with a stop signal, and a
handler that resets itself runs once.
-/

namespace Yagura

open Function List

namespace Signals

/-! ## Members of a signal set -/

def member (w : SigSet) (sig : Nat) : Bool := decide (0 < sig) && w.getLsbD (sig - 1)

section
variable {v w : SigSet} {sig a : Nat}

theorem member_or : member (v ||| w) sig = (member v sig || member w sig) := by
  unfold member
  rw [BitVec.getLsbD_or, Bool.and_or_distrib_left]

theorem member_diff : member (v &&& ~~~w) sig = (member v sig && !member w sig) := by
  unfold member
  by_cases hs : 0 < sig
  · by_cases hlt : sig - 1 < 32
    · simp [hs, hlt]
    · simp [BitVec.getLsbD_of_ge v _ (not_lt.mp hlt)]
  · simp [hs]

theorem member_sigmask (h0 : 0 < a) (h : a ≤ NSIG) (sig : Nat) : member (sigmask a) sig = decide (sig = a) := by
  unfold NSIG at h
  unfold member sigmask
  by_cases hs : sig = a
  · subst hs
    simp [h0]
    omega
  · rw [decide_eq_false hs]
    by_contra hne
    simp at hne
    omega

theorem ffs_zero (h : ffs w = 0) (sig : Nat) : member w sig = false := by
  unfold ffs at h
  cases hf : (range 32).find? fun i => w.getLsbD i with
  | some i =>
    rw [hf] at h
    cases h
  | none =>
    unfold member
    by_cases hlt : sig - 1 < 32
    · have hbit := find?_range_eq_none.mp hf (sig - 1) hlt
      simp at hbit
      simp [hbit]
    · simp [BitVec.getLsbD_of_ge w _ (not_lt.mp hlt)]

theorem ffs_spec (h : ffs w ≠ 0) : member w (ffs w) = true ∧ ffs w ≤ NSIG ∧ ∀ sig < ffs w, member w sig = false := by
  unfold ffs at *
  cases hf : (range 32).find? fun i => w.getLsbD i with
  | none =>
    rw [hf] at h
    exact absurd rfl h
  | some i =>
    obtain ⟨hi, hmem, hlow⟩ := find?_range_eq_some.mp hf
    refine ⟨?_, mem_range.mp hmem, fun sig hlt => ?_⟩
    · simpa [member] using hi
    · unfold member
      by_cases hs : 0 < sig
      · have hbit := hlow (sig - 1) (by dsimp only at hlt; omega)
        simpa [hs] using hbit
      · simp [hs]

end

/-! ## Sending -/

def stops (sig : Nat) : Bool := sig == SIGSTOP || sig == SIGTSTP || sig == SIGTTIN || sig == SIGTTOU

def cancels (sent sig : Nat) : Bool := sent == SIGCONT && stops sig || stops sent && sig == SIGCONT

section
variable {s s' : Signals} {t u h sig sent : Nat} {k k' : SigTask} {e : Nat × Op}
  {ku' : SigTask} {s₁ : Signals} {signum : Int} {oldFails : Bool}

theorem disposition_cont (h : sent < NSIG) : defaultDisposition sent = .DISP_CONT ↔ sent = SIGCONT := by
  unfold NSIG at h
  interval_cases sent <;> decide

theorem disposition_stop (h : sent < NSIG) : defaultDisposition sent = .DISP_STOP ↔ stops sent = true := by
  unfold NSIG at h
  interval_cases sent <;> decide

theorem clearedSignals_member (h0 : 0 < sent) (h : sent < NSIG) (sig : Nat) :
    member (clearedSignals sent) sig = (decide (sig = sent) || cancels sent sig) := by
  have hse := member_sigmask h0 h.le sig
  have hco := disposition_cont h
  have hst := disposition_stop h
  unfold clearedSignals cancels
  cases hd : defaultDisposition sent with
  | DISP_CONT =>
    have hs := hco.mp hd
    subst hs
    simp only [member_or, hse]
    rw [member_sigmask (by decide) (by decide), member_sigmask (by decide) (by decide),
      member_sigmask (by decide) (by decide), member_sigmask (by decide) (by decide), Bool.eq_iff_iff]
    rw [show stops SIGCONT = false from rfl]
    simp [stops, or_assoc]
  | DISP_STOP =>
    have hne : (sent == SIGCONT) = false := by
      rw [beq_eq_false_iff_ne]
      intro hc
      rw [hco.mpr hc] at hd
      cases hd
    simp only [member_or, hse, hst.mp hd, hne]
    rw [member_sigmask (by decide) (by decide), Bool.eq_iff_iff]
    simp
  | DISP_TERM | DISP_IGN | DISP_CORE =>
    have hne : (sent == SIGCONT) = false := by
      rw [beq_eq_false_iff_ne]
      intro hc
      rw [hco.mpr hc] at hd
      cases hd
    have hns : stops sent = false := by
      rw [← Bool.not_eq_true]
      intro hc
      rw [hst.mpr hc] at hd
      cases hd
    simp only [hse, hne, hns]
    simp

theorem doSendSignal_some (hk : k.sighand = some h) : s.doSendSignal k sent =
      if s.ignored h sent then { k with pending := k.pending &&& ~~~clearedSignals sent }
      else { k with pending := k.pending &&& ~~~clearedSignals sent ||| sigmask sent } := by
  unfold doSendSignal
  rw [hk]

theorem doSendSignal_member (hk : k.sighand = some h) (h0 : 0 < sent) (hlt : sent < NSIG) :
    member (s.doSendSignal k sent).pending sig =
      if sig = sent then decide (¬ s.ignored h sent) else member k.pending sig && !cancels sent sig := by
  have hse := member_sigmask h0 hlt.le sig
  have hcl := clearedSignals_member h0 hlt sig
  rw [doSendSignal_some hk]
  by_cases hi : s.ignored h sent
  · rw [if_pos hi]
    rw [member_diff, hcl]
    by_cases hs : sig = sent <;> simp [hs, hi]
  · rw [if_neg hi]
    rw [member_or, member_diff, hcl, hse]
    by_cases hs : sig = sent <;> simp [hs, hi]

/-! ## What a step does to a task -/

inductive PendingEffect (s : Signals) (e : Nat × Op) (t : Nat) (k : SigTask) : SigSet → Prop
  | same : PendingEffect s e t k k.pending
  | popped : e = (t, .pop) → ffs (k.pending &&& ~~~k.blocked) ≠ 0 →
      PendingEffect s e t k (k.pending &&& ~~~sigmask (ffs (k.pending &&& ~~~k.blocked)))
  | sent {pid signum dest excl} : e.2 = .send pid signum dest excl → 0 < signum → signum < NSIG →
      dest.hits pid t k = true → ¬ (excl = true ∧ t = e.1) → PendingEffect s e t k (s.doSendSignal k signum.toNat).pending
  | killed : PendingEffect s e t k (s.doSendSignal k SIGKILL).pending

structure TaskEffect (s : Signals) (e : Nat × Op) (t : Nat) (k k' : SigTask) : Prop where
  pending : PendingEffect s e t k k'.pending
  sighand : k'.sighand = k.sighand ∨ k'.sighand = none

theorem doSendSignal_sighand : (s.doSendSignal k sent).sighand = k.sighand := by
  cases hk : k.sighand with
  | none =>
    unfold doSendSignal
    rw [hk]
    exact hk
  | some h =>
    rw [doSendSignal_some hk]
    split <;> exact hk

theorem resetAction_tasks : (s.resetAction h sig).tasks = s.tasks := by
  unfold resetAction
  split <;> rfl

theorem resetAction_numSighands : (s.resetAction h sig).numSighands = s.numSighands := by
  unfold resetAction
  split <;> rfl

theorem resetAction_actions (s : Signals) (h sig g i : Nat) :
    ((s.resetAction g i).actions h sig).handler = SIG_DFL ∨ (s.resetAction g i).actions h sig = s.actions h sig := by
  unfold resetAction
  split
  · rw [setAction_actions]
    split
    · exact .inl rfl
    · exact .inr rfl
  · exact .inr rfl

theorem taskEffect_setTask (hk : s.tasks t = some k) (heff : t = u → TaskEffect s e t k ku') :
    ∃ k', (s.setTask u ku').tasks t = some k' ∧ TaskEffect s e t k k' := by
  by_cases htu : t = u
  · subst htu
    exact ⟨ku', update_self .., heff rfl⟩
  · exact ⟨k, (update_of_ne htu ..).trans hk, .same, .inl rfl⟩

theorem taskEffect_exitGroup (hact : s₁.actions = s.actions) (hta : t ≠ u → s₁.tasks t = some k)
    (heff : t = u → PendingEffect s e t k ku'.pending) :
    ∃ k', (s₁.doExitThreadGroup u ku').tasks t = some k' ∧ TaskEffect s e t k k' := by
  have hse : s₁.doSendSignal = s.doSendSignal := by
    cases s₁
    cases s
    cases hact
    rfl
  by_cases htu : t = u
  · subst htu
    exact ⟨_, update_self .., heff rfl, .inr rfl⟩
  · have hot : (s₁.doExitThreadGroup u ku').tasks t =
        (s₁.tasks t).map fun k => if Dest.hits ku'.tgid t k .threadGroup && !(true && t == u) then
          s₁.doSendSignal k SIGKILL else k := update_of_ne htu ..
    rw [hta htu, Option.map_some, hse] at hot
    refine ⟨_, hot, ?_⟩
    split
    · exact ⟨.killed, .inl doSendSignal_sighand⟩
    · exact ⟨.same, .inl rfl⟩

theorem step_task (hstep : Step s e s') (hk : s.tasks t = some k) :
    ∃ k', s'.tasks t = some k' ∧ TaskEffect s e t k k' := by
  obtain ⟨ku, h, hku, hh, -, he⟩ := step_effect hstep
  obtain ⟨u, op⟩ := e
  have hsa : t = u → k = ku := by
    rintro rfl
    exact Option.mem_unique hk hku
  have hpop {sig : Nat} (hsig : ffs (ku.pending &&& ~~~ku.blocked) = sig) (hne : sig ≠ 0) (htu : t = u) :
      PendingEffect s (u, .pop) t k (take ku sig).pending := by
    have hkk := hsa htu
    subst htu hkk hsig
    exact .popped rfl hne
  cases he with
  | same _ => exact ⟨k, hk, .same, .inl rfl⟩
  | installed _ _ _ _ => exact ⟨k, hk, .same, .inl rfl⟩
  | own _ hpe hsig _ =>
    refine taskEffect_setTask hk fun htu => ?_
    rw [hsa htu]
    exact ⟨hpe ▸ .same, .inl hsig⟩
  | passed hsig hne _ =>
    exact taskEffect_setTask hk fun htu => ⟨hpop hsig hne htu, .inl (hsa htu ▸ rfl)⟩
  | @caught sig hsig hne _ =>
    rw [show ((s.resetAction h sig).setTask u _).tasks = (s.setTask u _).tasks from
      congrArg (update · u _) resetAction_tasks]
    exact taskEffect_setTask hk fun htu => ⟨hpop hsig hne htu, .inl (hsa htu ▸ rfl)⟩
  | killed hsig hne _ _ =>
    exact taskEffect_exitGroup rfl (fun htu => (update_of_ne htu ..).trans hk) (hpop hsig hne)
  | ended _ => exact taskEffect_exitGroup rfl (fun _ => hk) fun htu => hsa htu ▸ .same
  | @cloned tid _ share hnew =>
    have hne : t ≠ tid := by
      rintro rfl
      rw [hk] at hnew
      cases hnew
    refine ⟨k, ?_, .same, .inl rfl⟩
    cases share <;> exact (update_of_ne hne ..).trans hk
  | sent =>
    unfold taskSendSignal
    split
    · exact ⟨k, hk, .same, .inl rfl⟩
    · rename_i hra
      rw [not_or, not_le, not_le] at hra
      dsimp only
      rw [hk, Option.map_some]
      refine ⟨_, rfl, ?_⟩
      split
      · rename_i hhit
        rw [Bool.and_eq_true, Bool.not_eq_true', Bool.and_eq_false_iff] at hhit
        refine ⟨.sent rfl hra.1 hra.2 hhit.1 ?_, .inl doSendSignal_sighand⟩
        rintro ⟨hex, htu⟩
        simp [hex, htu] at hhit
      · exact ⟨.same, .inl rfl⟩
  | exited => exact taskEffect_setTask hk fun htu => ⟨hsa htu ▸ .same, .inr rfl⟩

theorem exitGroup_none (htu : t ≠ u) (ht : s₁.tasks t = none) : (s₁.doExitThreadGroup u ku').tasks t = none := by
  show update (s₁.taskSendSignal u ku'.tgid SIGKILL .threadGroup true).tasks u _ t = none
  rw [update_of_ne htu]
  show (s₁.tasks t).map _ = none
  rw [ht, Option.map_none]

theorem step_new (hstep : Step s e s') (ht : s.tasks t = none) (hk' : s'.tasks t = some k') :
    k'.pending = 0 ∧ ∃ ku h, s.tasks e.1 = some ku ∧ ku.sighand = some h ∧
      (k'.sighand = some h ∨ k'.sighand = some s.numSighands ∧ s'.numSighands = s.numSighands + 1) := by
  obtain ⟨ku, h, hku, hh, -, he⟩ := step_effect hstep
  have htu : t ≠ e.1 := by
    rintro rfl
    rw [ht] at hku
    cases hku
  have hset (s₁ : Signals) (hta : s₁.tasks = s.tasks) (ku' : SigTask) : (s₁.setTask e.1 ku').tasks t = none := by
    show update s₁.tasks e.1 _ t = none
    rw [update_of_ne htu, hta, ht]
  have hnn : s'.tasks t ≠ none := by simp [hk']
  generalize e.2 = op at he
  cases he with
  | same _ => exact absurd ht hnn
  | installed _ _ _ _ => exact absurd ht hnn
  | own _ _ _ _ => exact absurd (hset s rfl _) hnn
  | passed _ _ _ => exact absurd (hset s rfl _) hnn
  | caught _ _ _ => exact absurd (hset _ resetAction_tasks _) hnn
  | killed _ _ _ _ => exact absurd (exitGroup_none htu (hset s rfl _)) hnn
  | ended _ => exact absurd (exitGroup_none htu ht) hnn
  | @cloned tid _ share _ =>
    by_cases hne : t = tid
    · subst hne
      cases share with
      | true =>
        cases (update_self ..).symm.trans hk'
        exact ⟨rfl, ku, h, hku, hh, .inl rfl⟩
      | false =>
        cases (update_self ..).symm.trans hk'
        exact ⟨rfl, ku, h, hku, hh, .inr ⟨rfl, rfl⟩⟩
    · refine absurd ?_ hnn
      cases share <;> exact (update_of_ne hne ..).trans ht
  | sent =>
    refine absurd ?_ hnn
    unfold taskSendSignal
    split
    · exact ht
    · dsimp only
      rw [ht, Option.map_none]
  | exited => exact absurd (hset s rfl _) hnn

/-! ## What a step does to the actions -/

def Installs (s : Signals) (e : Nat × Op) (h sig : Nat) : Prop :=
  ∃ k, s.tasks e.1 = some k ∧ k.sighand = some h ∧ ∃ a oldFails, e.2 = .sigaction sig (some (some a)) oldFails ∧
    (s.sysSigaction h sig (some (some a)) oldFails).1 = .ok ()

inductive ActionEffect (s : Signals) (e : Nat × Op) (s' : Signals) (h sig : Nat) : Prop
  | same : s'.actions h sig = s.actions h sig → ActionEffect s e s' h sig
  | installed : Installs s e h sig → ActionEffect s e s' h sig
  | reset : (s'.actions h sig).handler = SIG_DFL → ActionEffect s e s' h sig
  | copied {g} : h = s.numSighands → s'.actions h sig = s.actions g sig → ActionEffect s e s' h sig

theorem taskSendSignal_actions {pid : Nat} {dest : Dest} {excl : Bool} :
    (s.taskSendSignal t pid signum dest excl).actions = s.actions ∧
      (s.taskSendSignal t pid signum dest excl).numSighands = s.numSighands := by
  unfold taskSendSignal
  split <;> exact ⟨rfl, rfl⟩

theorem exitGroup_actions :
    (s₁.doExitThreadGroup u ku').actions = s₁.actions ∧ (s₁.doExitThreadGroup u ku').numSighands = s₁.numSighands :=
  taskSendSignal_actions

theorem step_actions (hstep : Step s e s') (h sig : Nat) :
    ActionEffect s e s' h sig ∧ s.numSighands ≤ s'.numSighands := by
  obtain ⟨ku, g, hku, hg, -, he⟩ := step_effect hstep
  obtain ⟨u, op⟩ := e
  have hqu (heq : s'.actions = s.actions ∧ s'.numSighands = s.numSighands) :
      ActionEffect s (u, op) s' h sig ∧ s.numSighands ≤ s'.numSighands :=
    ⟨.same (by rw [heq.1]), heq.2.ge⟩
  cases he with
  | same _ => exact hqu ⟨rfl, rfl⟩
  | @installed signum a oldFails hpos _ _ hok =>
    refine ⟨?_, le_rfl⟩
    by_cases hhs : h = g ∧ sig = signum.toNat
    · obtain ⟨rfl, rfl⟩ := hhs
      refine .installed ⟨ku, hku, hg, a, oldFails, ?_, ?_⟩
      · rw [Int.toNat_of_nonneg hpos.le]
      · rwa [Int.toNat_of_nonneg hpos.le]
    · exact .same ((setAction_actions ..).trans (if_neg hhs))
  | own _ _ _ _ => exact hqu ⟨rfl, rfl⟩
  | passed _ _ _ => exact hqu ⟨rfl, rfl⟩
  | @caught sig' _ _ _ =>
    refine ⟨?_, resetAction_numSighands.ge⟩
    rcases resetAction_actions s h sig g sig' with hdfl | heq
    · exact .reset hdfl
    · exact .same heq
  | killed _ _ _ _ => exact hqu exitGroup_actions
  | ended _ => exact hqu exitGroup_actions
  | @cloned _ _ share _ =>
    cases share with
    | true => exact hqu ⟨rfl, rfl⟩
    | false =>
      refine ⟨?_, Nat.le_succ _⟩
      by_cases hnew : h = s.numSighands
      · refine .copied (g := g) hnew ?_
        show update s.actions s.numSighands (s.actions g) h sig = _
        rw [hnew, update_self]
      · refine .same ?_
        show update s.actions s.numSighands (s.actions g) h sig = _
        rw [update_of_ne hnew]
  | sent => exact hqu taskSendSignal_actions
  | exited => exact hqu ⟨rfl, rfl⟩

/-! ## What every state keeps -/

def Exclusive (w : SigSet) : Prop := ∀ sig, stops sig = true → ¬ (member w SIGCONT = true ∧ member w sig = true)

structure Sound (s : Signals) : Prop where
  bound : ∀ t k h, s.tasks t = some k → k.sighand = some h → h < s.numSighands
  kill : ∀ h, (s.actions h SIGKILL).handler = SIG_DFL
  exclusive : ∀ t k, s.tasks t = some k → Exclusive k.pending

theorem boot_sound : boot.Sound where
  bound := by
    intro t k h hk hh
    unfold boot at hk
    dsimp only at hk
    split at hk
    · cases hk
      cases hh
      exact Nat.zero_lt_one
    · cases hk
  kill := fun _ => rfl
  exclusive := by
    intro t k hk sig _ hbo
    unfold boot at hk
    dsimp only at hk
    split at hk
    · cases hk
      exact Bool.noConfusion hbo.1
    · cases hk

theorem Exclusive.mono {v w : SigSet} (hw : Exclusive w) (h : ∀ sig, member v sig = true → member w sig = true) :
    Exclusive v := fun sig hs hbo => hw sig hs ⟨h _ hbo.1, h _ hbo.2⟩

theorem Exclusive.send (hk : Exclusive k.pending) (h0 : 0 < sent) (hlt : sent < NSIG) :
    Exclusive (s.doSendSignal k sent).pending := by
  cases hh : k.sighand with
  | none =>
    unfold doSendSignal
    rw [hh]
    exact hk
  | some h =>
    rintro sig hs ⟨hc, hm⟩
    rw [doSendSignal_member hh h0 hlt] at hc hm
    -- Sending either of the two has cancelled the other.
    by_cases hcs : SIGCONT = sent
    · subst hcs
      have hne : sig ≠ SIGCONT := by
        rintro rfl
        exact Bool.noConfusion hs
      rw [if_neg hne] at hm
      simp [cancels, hs] at hm
    · rw [if_neg hcs, Bool.and_eq_true] at hc
      by_cases hss : sig = sent
      · subst hss
        simp [cancels, hs] at hc
      · rw [if_neg hss, Bool.and_eq_true] at hm
        exact hk sig hs ⟨hc.1, hm.1⟩

theorem Exclusive.effect {w : SigSet} (hk : Exclusive k.pending) (heff : PendingEffect s e t k w) : Exclusive w := by
  cases heff with
  | same => exact hk
  | popped _ _ =>
    refine hk.mono fun sig hm => ?_
    rw [member_diff, Bool.and_eq_true] at hm
    exact hm.1
  | sent _ h0 hlt _ _ => exact hk.send (by omega) (by omega)
  | killed => exact hk.send (by decide) (by decide)

theorem Sound.step (hs : s.Sound) (hstep : Step s e s') : s'.Sound where
  bound := by
    intro t k' h hk' hh
    have hmo := (step_actions hstep h 0).2
    cases hk : s.tasks t with
    | none =>
      obtain ⟨-, ku, g, hku, hg, hown | ⟨hnew, hnum⟩⟩ := step_new hstep hk hk'
      · rw [hown] at hh
        cases hh
        exact (hs.bound _ ku _ hku hg).trans_le hmo
      · rw [hnew] at hh
        cases hh
        omega
    | some k =>
      obtain ⟨k₁, hk1, heff⟩ := step_task hstep hk
      cases hk'.symm.trans hk1
      rcases heff.sighand with hsa | hnn
      · exact (hs.bound t k h hk (hsa ▸ hh)).trans_le hmo
      · rw [hnn] at hh
        cases hh
  kill := by
    intro h
    cases (step_actions hstep h SIGKILL).1 with
    | same heq => rw [heq]; exact hs.kill h
    | installed hin =>
      obtain ⟨-, -, -, a, oldFails, -, hok⟩ := hin
      exact nomatch hok
    | reset hdfl => exact hdfl
    | copied _ heq => rw [heq]; exact hs.kill _
  exclusive := by
    intro t k' hk'
    cases hk : s.tasks t with
    | none =>
      rw [(step_new hstep hk hk').1]
      rintro sig - ⟨hc, -⟩
      exact Bool.noConfusion hc
    | some k =>
      obtain ⟨k₁, hk1, heff⟩ := step_task hstep hk
      cases hk'.symm.trans hk1
      exact (hs.exclusive t k hk).effect heff.pending

/-! ## A pending signal waits -/

/-- The step takes `sig` from the pending signals of `t`: it pops it, or a signal is sent to `t` that is `sig`
itself, ignored now, or cancels it. -/
def Takes (s : Signals) (e : Nat × Op) (t sig : Nat) : Prop :=
  ∃ k, s.tasks t = some k ∧
    (e = (t, .pop) ∧ sig = ffs (k.pending &&& ~~~k.blocked) ∨
      ∃ (pid signum : Nat) (dest : Dest) (excl : Bool) (h : Nat), e.2 = .send pid signum dest excl ∧
        dest.hits pid t k = true ∧ ¬ (excl = true ∧ t = e.1) ∧ k.sighand = some h ∧
        (sig = signum ∧ s.ignored h sig ∨ cancels signum sig = true))

theorem send_keeps (hm : member k.pending sig = true) (h0 : 0 < sent) (hlt : sent < NSIG)
    (hke : ∀ h, k.sighand = some h → (sig = sent → ¬ s.ignored h sig) ∧ cancels sent sig = false) :
    member (s.doSendSignal k sent).pending sig = true := by
  cases hh : k.sighand with
  | none =>
    unfold doSendSignal
    rw [hh]
    exact hm
  | some h =>
    obtain ⟨hign, hcan⟩ := hke h hh
    rw [doSendSignal_member hh h0 hlt]
    split
    · rename_i hs
      subst hs
      exact decide_eq_true (hign rfl)
    · rw [hm, hcan]
      rfl

theorem pending_step (hs : s.Sound) (hstep : Step s e s') (hk : s.tasks t = some k)
    (hm : member k.pending sig = true) (hno : ¬ Takes s e t sig) :
    ∃ k', s'.tasks t = some k' ∧ member k'.pending sig = true := by
  obtain ⟨k', hk', heff⟩ := step_task hstep hk
  refine ⟨k', hk', ?_⟩
  have hpe := heff.pending
  generalize k'.pending = w at hpe ⊢
  cases hpe with
  | same => exact hm
  | popped he hne =>
    have hneq : sig ≠ ffs (k.pending &&& ~~~k.blocked) := fun heq => hno ⟨k, hk, .inl ⟨he, heq⟩⟩
    rw [member_diff, hm, member_sigmask (Nat.pos_of_ne_zero hne) (ffs_spec hne).2.1, decide_eq_false hneq]
    rfl
  | @sent pid signum dest excl he h0 hlt hhit hexc =>
    have hnat : ((signum.toNat : Nat) : Int) = signum := Int.toNat_of_nonneg h0.le
    refine send_keeps hm (by omega) (by omega) fun h hh => ?_
    have hta (hc : sig = signum.toNat ∧ s.ignored h sig ∨ cancels signum.toNat sig = true) : False :=
      hno ⟨k, hk, .inr ⟨pid, signum.toNat, dest, excl, h, by rw [he, hnat], hhit, hexc, hh, hc⟩⟩
    refine ⟨fun heq hign => hta (.inl ⟨heq, hign⟩), ?_⟩
    rw [← Bool.not_eq_true]
    exact fun hc => hta (.inr hc)
  | killed =>
    refine send_keeps hm (by decide) (by decide) fun h _ => ⟨?_, ?_⟩
    · rintro rfl
      rintro (hign | ⟨-, hdi⟩)
      · rw [hs.kill h] at hign
        cases hign
      · cases hdi
    · rfl

/-! ## Popping -/

def Lowest (k : SigTask) (sig : Nat) : Prop :=
  member k.pending sig = true ∧ member k.blocked sig = false ∧
    ∀ lower < sig, member k.pending lower = true → member k.blocked lower = true

/-- The signal is ignored, or its handler is about to run, or its default action is taken. -/
def Acted (s : Signals) (h sig : Nat) (k' : SigTask) : Prop :=
  s.ignored h sig ∨
  (s.actions h sig).handler ≠ SIG_DFL ∧ k'.popped = some (sig, s.actions h sig) ∨
  (s.actions h sig).handler = SIG_DFL ∧
    match defaultDisposition sig with
    | .DISP_TERM | .DISP_CORE => k'.sighand = none
    | .DISP_CONT => True
    | .DISP_IGN | .DISP_STOP => False

theorem lowest_ffs (hne : ffs (k.pending &&& ~~~k.blocked) ≠ 0) : Lowest k (ffs (k.pending &&& ~~~k.blocked)) := by
  obtain ⟨hmem, -, hlow⟩ := ffs_spec hne
  rw [member_diff, Bool.and_eq_true, Bool.not_eq_true'] at hmem
  refine ⟨hmem.1, hmem.2, fun lower hlt hp => ?_⟩
  have hdi := hlow lower hlt
  rw [member_diff, hp] at hdi
  simpa using hdi

section
variable (hstep : Step s (t, .pop) s') (hk : s.tasks t = some k)
include hstep hk

theorem pop_popped : k.popped = none := by
  obtain ⟨ku, g, hku, -, hmay, -⟩ := step_effect hstep
  cases hk.symm.trans hku
  unfold mayPerform at hmay
  rw [Bool.and_eq_true, Option.isNone_iff_eq_none, Option.isNone_iff_eq_none] at hmay
  exact hmay.2

theorem pop_round (hh : k.sighand = some h) (hne : ffs (k.pending &&& ~~~k.blocked) ≠ 0) :
    ∃ k', s'.tasks t = some k' ∧ k'.pending = k.pending &&& ~~~sigmask (ffs (k.pending &&& ~~~k.blocked)) ∧
      Acted s h (ffs (k.pending &&& ~~~k.blocked)) k' ∧
      (∀ sig a, k'.popped = some (sig, a) →
        sig = ffs (k.pending &&& ~~~k.blocked) ∧ a = s.actions h sig ∧ a.handler ≠ SIG_DFL ∧
          (a.has SA_RESETHAND = true → (s'.actions h sig).handler = SIG_DFL)) := by
  have hnn := pop_popped hstep hk
  obtain ⟨ku, g, hku, hg, -, he⟩ := step_effect hstep
  cases hk.symm.trans hku
  cases hh.symm.trans hg
  have hqu (k' : SigTask) (hpop : k'.popped = none) (Q : Nat → SigAction → Prop) (sig : Nat) (a : SigAction)
      (hso : k'.popped = some (sig, a)) : Q sig a := by
    rw [hpop] at hso
    cases hso
  cases he with
  | same h0 => exact absurd (h0 rfl) hne
  | own hop _ _ _ => exact absurd rfl hop
  | passed hsig _ hpa =>
    subst hsig
    refine ⟨_, update_self .., rfl, ?_, hqu _ hnn _⟩
    obtain hign | ⟨hdfl, hd | hd⟩ := hpa
    · exact .inl (.inl hign)
    · exact .inl (.inr ⟨hdfl, hd⟩)
    · refine .inr (.inr ⟨hdfl, ?_⟩)
      rw [hd]
      trivial
  | caught hsig _ hdfl =>
    subst hsig
    refine ⟨_, update_self .., rfl, .inr (.inl ⟨hdfl, rfl⟩), ?_⟩
    rintro _ _ ⟨⟩
    refine ⟨rfl, rfl, hdfl, fun hres => ?_⟩
    unfold resetAction
    rw [if_pos hres]
    exact congrArg SigAction.handler ((setAction_actions ..).trans (if_pos ⟨rfl, rfl⟩))
  | killed hsig _ hdfl hd =>
    subst hsig
    refine ⟨_, update_self .., rfl, .inr (.inr ⟨hdfl, ?_⟩), hqu _ rfl _⟩
    rcases hd with hd | hd
    · rw [hd]
    · rw [hd]
  | ended hop => exact absurd rfl hop

theorem pop_nothing (h0 : ffs (k.pending &&& ~~~k.blocked) = 0) : s' = s := by
  obtain ⟨ku, g, hku, -, -, he⟩ := step_effect hstep
  cases hk.symm.trans hku
  cases he with
  | same _ => rfl
  | own hop _ _ _ => exact absurd rfl hop
  | passed hsig hne _ => exact absurd (hsig.symm.trans h0) hne
  | caught hsig hne _ => exact absurd (hsig.symm.trans h0) hne
  | killed hsig hne _ _ => exact absurd (hsig.symm.trans h0) hne
  | ended hop => exact absurd rfl hop

theorem pop_handler (hh : k.sighand = some h)
    (hk' : s'.tasks t = some k') {a : SigAction} (hpop : k'.popped = some (sig, a)) :
    a = s.actions h sig ∧ a.handler ≠ SIG_DFL ∧
      (a.has SA_RESETHAND = true → (s'.actions h sig).handler = SIG_DFL) := by
  by_cases hne : ffs (k.pending &&& ~~~k.blocked) = 0
  · have hsa := pop_nothing hstep hk hne
    subst hsa
    cases hk.symm.trans hk'
    rw [pop_popped hstep hk] at hpop
    cases hpop
  · obtain ⟨k₁, hk1, -, -, hha⟩ := pop_round hstep hk hh hne
    cases hk'.symm.trans hk1
    exact (hha sig a hpop).2

end

/-- A round stops the kernel only at a stop signal with the default action. -/
theorem pop_steps (hk : s.tasks t = some k) (hh : k.sighand = some h) (hmay : mayPerform k .pop = true) :
    (∃ s', Step s (t, .pop) s') ∨
      ∃ sig, Lowest k sig ∧ (s.actions h sig).handler = SIG_DFL ∧ defaultDisposition sig = .DISP_STOP := by
  have hex : s.exec (t, .pop) = s.popRound t h k := by simp [exec, hk, hh, hmay, perform]
  unfold Step
  rw [hex]
  unfold popRound
  by_cases hne : ffs (k.pending &&& ~~~k.blocked) = 0
  · exact .inl ⟨s, if_pos hne⟩
  by_cases hign : (s.actions h (ffs (k.pending &&& ~~~k.blocked))).handler = SIG_IGN
  · exact .inl (by simp [hne, hign])
  by_cases hdfl : (s.actions h (ffs (k.pending &&& ~~~k.blocked))).handler = SIG_DFL
  · cases hd : defaultDisposition (ffs (k.pending &&& ~~~k.blocked)) with
    | DISP_STOP => exact .inr ⟨_, lowest_ffs hne, hdfl, hd⟩
    | _ => exact .inl (by simp [hne, hdfl, hd, SIG_DFL, SIG_IGN])
  · exact .inl (by simp [hne, hign, hdfl])

theorem default_stays (hr : Run Step (fun s e => ¬ Installs s e h sig) s s') (hb : h < s.numSighands)
    (hd : (s.actions h sig).handler = SIG_DFL) : (s'.actions h sig).handler = SIG_DFL := by
  have hbo : h < s'.numSighands ∧ (s'.actions h sig).handler = SIG_DFL := by
    refine hr.invariant (I := fun s => h < s.numSighands ∧ (s.actions h sig).handler = SIG_DFL) ⟨hb, hd⟩ ?_
    rintro s e s' ⟨hb, hd⟩ hstep hno
    obtain ⟨heff, hmo⟩ := step_actions hstep h sig
    refine ⟨hb.trans_le hmo, ?_⟩
    cases heff with
    | same heq => rw [heq]; exact hd
    | installed hin => exact absurd hin hno
    | reset hdfl => exact hdfl
    | copied hnew _ => omega
  exact hbo.2

end

/-! ## The contract -/

structure PendingContract (s : Signals) : Prop where
  stays : ∀ t k sig, s.tasks t = some k → member k.pending sig = true →
    ∀ s', Run Step (fun s e => ¬ Takes s e t sig) s s' → ∃ k', s'.tasks t = some k' ∧ member k'.pending sig = true
  pop : ∀ t k h s', s.tasks t = some k → k.sighand = some h → Step s (t, .pop) s' →
    (s' = s ∧ ∀ sig, member k.pending sig = true → member k.blocked sig = true) ∨
    ∃ sig k', Lowest k sig ∧ s'.tasks t = some k' ∧ Acted s h sig k' ∧
      ∀ other, member k'.pending other = (member k.pending other && decide (other ≠ sig))
  round : ∀ t k h, s.tasks t = some k → k.sighand = some h → mayPerform k .pop = true →
    (∃ s', Step s (t, .pop) s') ∨
      ∃ sig, Lowest k sig ∧ (s.actions h sig).handler = SIG_DFL ∧ defaultDisposition sig = .DISP_STOP
  exclusive : ∀ t k, s.tasks t = some k → Exclusive k.pending
  /-- A handler that resets itself does not run again before it is installed again. -/
  once : ∀ t k h s₁ k₁ sig a, s.tasks t = some k → k.sighand = some h → Step s (t, .pop) s₁ →
    s₁.tasks t = some k₁ → k₁.popped = some (sig, a) → a.has SA_RESETHAND = true →
    ∀ s₂, Run Step (fun s e => ¬ Installs s e h sig) s₁ s₂ →
    ∀ u ku s₃ k₃ a', s₂.tasks u = some ku → ku.sighand = some h → Step s₂ (u, .pop) s₃ →
      s₃.tasks u = some k₃ → k₃.popped ≠ some (sig, a')

theorem Sound.contract {s : Signals} (hs : s.Sound) : s.PendingContract where
  stays := by
    intro t k sig hk hm s' hr
    have hbo : s'.Sound ∧ ∃ k', s'.tasks t = some k' ∧ member k'.pending sig = true := by
      refine hr.invariant (I := fun s => s.Sound ∧ ∃ k, s.tasks t = some k ∧ member k.pending sig = true)
        ⟨hs, k, hk, hm⟩ ?_
      rintro s e s' ⟨hs, k, hk, hm⟩ hstep hno
      exact ⟨hs.step hstep, pending_step hs hstep hk hm hno⟩
    exact hbo.2
  pop := by
    intro t k h s' hk hh hstep
    by_cases hne : ffs (k.pending &&& ~~~k.blocked) = 0
    · refine .inl ⟨pop_nothing hstep hk hne, fun sig hm => ?_⟩
      have hdi := ffs_zero hne sig
      rw [member_diff, hm] at hdi
      simpa using hdi
    · obtain ⟨k', hk', hpe, hact, -⟩ := pop_round hstep hk hh hne
      refine .inr ⟨_, k', lowest_ffs hne, hk', hact, fun other => ?_⟩
      rw [hpe, member_diff, member_sigmask (Nat.pos_of_ne_zero hne) (ffs_spec hne).2.1, decide_not]
  round := fun _ _ _ => pop_steps
  exclusive := hs.exclusive
  once := by
    intro t k h s₁ k₁ sig a hk hh hstep hk1 hpop hres s₂ hr u ku s₃ k₃ a' hku hu hstep' hk3 hpop'
    obtain ⟨-, -, hre⟩ := pop_handler hstep hk hh hk1 hpop
    have hbu : h < s₁.numSighands := (hs.bound t k h hk hh).trans_le (step_actions hstep h sig).2
    have hdfl := default_stays hr hbu (hre hres)
    obtain ⟨ha', hne, -⟩ := pop_handler hstep' hku hu hk3 hpop'
    rw [ha'] at hne
    exact hne hdfl

end Signals

theorem pending_contract {s : Signals} (hr : Run Signals.Step (fun _ _ => True) Signals.boot s) :
    s.PendingContract := by
  have hs : s.Sound := hr.invariant Signals.boot_sound fun _ _ _ hs hstep _ => hs.step hstep
  exact hs.contract

theorem pending_contract_blocked : ∃ s, Run Signals.Step (fun _ _ => True) Signals.boot s ∧
      ((s.tasks 2).any fun k => Signals.member k.pending 15 && Signals.member k.pending 18) = true ∧
      s.PendingContract := by
  obtain ⟨s, hr, hs⟩ := exists_follow Signals.exec (fun _ _ => True)
    [(1, .clone 2 false false), (2, .sigprocmask 2 (some (some 0xffffffff)) false), (1, .send 2 17 .task false),
      (1, .send 2 15 .task false), (1, .send 2 18 .task false)]
    Signals.boot (fun s => ((s.tasks 2).any fun k => Signals.member k.pending 15 && Signals.member k.pending 18) = true)
    (by decide +kernel)
  exact ⟨s, hr, hs, pending_contract hr⟩

end Yagura
