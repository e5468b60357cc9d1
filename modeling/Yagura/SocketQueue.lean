import Yagura.Sockets
import Yagura.Trans

/-!
# The pending list of a listening socket

Tasks connect, accept, listen and bind at the same time. The list of a
listening socket holds the connectors that were queued and not accepted, in
that order, and `num_pending` is its length.
-/

namespace Yagura

open Function List

/-! ## Lists through `next` fields -/

def Leads (next : Nat → Option Nat) : Option Nat → List Nat → Prop
  | hd, [] => hd = none
  | hd, i :: is => hd = some i ∧ Leads next (next i) is

section
variable {next next' : Nat → Option Nat} {hd : Option Nat} {is : List Nat} {i c fuel : Nat}

theorem Leads.congr (h : Leads next hd is) (heq : ∀ i ∈ is, next' i = next i) : Leads next' hd is := by
  induction is generalizing hd with
  | nil => exact h
  | cons i is ih =>
    refine ⟨h.1, ?_⟩
    rw [heq i (.head _)]
    exact ih h.2 fun j hj => heq j (mem_cons_of_mem i hj)

theorem Leads.cons (h : Leads next (some c) is) : ∃ js, is = c :: js ∧ Leads next (next c) js := by
  cases is with
  | nil => cases h
  | cons i is =>
    obtain ⟨hi, his⟩ := h
    cases hi
    exact ⟨is, rfl, his⟩

theorem Leads.lastFrom (h : Leads next (next i) is) (hfu : is.length < fuel) :
    lastFrom next fuel i = some (is.getLastD i) := by
  induction is generalizing i fuel with
  | nil =>
    obtain ⟨n, rfl⟩ := Nat.exists_eq_add_of_lt hfu
    have hnn : next i = none := h
    simp only [Yagura.lastFrom, hnn]
    rfl
  | cons j is ih =>
    obtain ⟨n, rfl⟩ : ∃ n, fuel = n + 1 := Nat.exists_eq_succ_of_ne_zero (by omega)
    simp only [Yagura.lastFrom, h.1]
    rw [ih h.2 (by simpa using hfu), getLastD_cons]

theorem Leads.snoc (h : Leads next (next i) is) (hnd : (i :: is).Nodup) (hc : c ∉ i :: is) (hla : next c = none) :
    Leads (update next (is.getLastD i) (some c)) (update next (is.getLastD i) (some c) i)
      (is ++ [c]) := by
  induction is generalizing i with
  | nil =>
    have hci : c ≠ i := fun heq => hc (heq ▸ (.head _))
    refine ⟨update_self i _ next, ?_⟩
    exact (update_of_ne hci _ next).trans hla
  | cons j is ih =>
    obtain ⟨hij, hnd'⟩ := nodup_cons.mp hnd
    have hne : i ≠ is.getLastD j := fun heq => hij (heq ▸ getLastD_mem_cons)
    rw [getLastD_cons]
    have hst : update next (is.getLastD j) (some c) i = some j :=
      (update_of_ne hne _ next).trans h.1
    exact ⟨hst, ih h.2 hnd' fun hmem => hc (mem_cons_of_mem i hmem)⟩

end

/-! ## The lists of all sockets -/

/-- `pend l` is the pending list of `l`. -/
structure Lists (state : Nat → SocketState) (next : Nat → Option Nat) (num : Nat → Nat)
    (queued accepted pend : Nat → List Nat) : Prop where
  split : ∀ l, queued l = accepted l ++ pend l
  leads : ∀ l, state l = .listening → Leads next (next l) (pend l)
  count : ∀ l, state l = .listening → num l = (pend l).length
  closed : ∀ l, state l ≠ .listening → queued l = []
  fresh : ∀ l, state l = .opened → next l = none ∧ num l = 0
  nodup : ∀ l, (queued l).Nodup
  unique : ∀ l l' c, c ∈ queued l → c ∈ queued l' → l = l'
  member : ∀ l c, c ∈ queued l → state c = .pending ∨ state c = .connected
  waiting : ∀ l c, c ∈ pend l → state c = .pending

theorem eq_of_update {α : Type} {f : Nat → α} {v x : α} {i j : Nat} (hx : x ≠ v) (h : update f i v j = x) :
    f j = x := by
  have hji : j ≠ i := by
    rintro rfl
    exact hx (h.symm.trans (update_self j v f))
  exact (update_of_ne hji v f).symm.trans h

section
variable {state : Nat → SocketState} {next : Nat → Option Nat} {num : Nat → Nat}
variable {queued accepted pend : Nat → List Nat} {l l' c : Nat}

section
variable (h : Lists state next num queued accepted pend)
include h

theorem Lists.pend_queued (hc : c ∈ pend l) : c ∈ queued l :=
  h.split l ▸ mem_append_right _ hc

theorem Lists.accepted_queued (hc : c ∈ accepted l) : c ∈ queued l := h.split l ▸ mem_append_left _ hc

theorem Lists.not_pend (hc : c ∈ accepted l) : c ∉ pend l' := by
  intro hp
  obtain rfl : l = l' := h.unique l l' c (h.accepted_queued hc) (h.pend_queued hp)
  have hnd := h.nodup l
  rw [h.split l] at hnd
  exact disjoint_of_nodup_append hnd hc hp

theorem Lists.ne_of_pend (hl : state l ≠ .pending) (hc : c ∈ pend l') : c ≠ l := by
  rintro rfl
  exact hl (h.waiting l' c hc)

theorem Lists.pop (hl : state l = .listening) (hc : next l = some c) : ∃ rest, pend l = c :: rest ∧
      Lists state (update next l (next c)) (update num l (num l - 1)) queued
        (update accepted l (accepted l ++ [c])) (update pend l rest) := by
  obtain ⟨rest, hre, hle⟩ := (hc ▸ h.leads l hl).cons
  have hsub : ∀ k i, i ∈ update pend l rest k → i ∈ pend k := by
    intro k i hi
    by_cases hkl : k = l
    · subst hkl
      rw [update_self] at hi
      exact hre ▸ mem_cons_of_mem c hi
    · rwa [update_of_ne hkl] at hi
  have hne : ∀ k, ∀ i ∈ update pend l rest k, update next l (next c) i = next i := by
    intro k i hi
    exact update_of_ne (h.ne_of_pend (by simp [hl]) (hsub k i hi)) _ _
  refine ⟨rest, hre, ?_, ?_, ?_, h.closed, ?_, h.nodup, h.unique, h.member, ?_⟩
  · intro k
    by_cases hkl : k = l
    · subst hkl
      simp [h.split k, hre]
    · simp [hkl, h.split k]
  · intro k hk
    refine Leads.congr ?_ (hne k)
    by_cases hkl : k = l
    · subst hkl
      simpa using hle
    · simpa [hkl] using h.leads k hk
  · intro k hk
    by_cases hkl : k = l
    · subst hkl
      simp [h.count k hk, hre]
    · simp [hkl, h.count k hk]
  · intro k hk
    have hkl : k ≠ l := by
      rintro rfl
      cases hk.symm.trans hl
    simpa [hkl] using h.fresh k hk
  · intro k i hi
    exact h.waiting k i (hsub k i hi)

theorem Lists.not_queued (hc : state c = .opened) : c ∉ queued l := by
  intro hq
  rcases h.member l c hq with hp | hp
  · cases hc.symm.trans hp
  · cases hc.symm.trans hp

theorem Lists.last_cases (l : Nat) :
    (pend l).getLastD l = l ∨ (pend l).getLastD l ∈ pend l ∧ state ((pend l).getLastD l) = .pending := by
  have hla : (pend l).getLastD l ∈ l :: pend l := getLastD_mem_cons
  rcases mem_cons.mp hla with heq | hmem
  · exact .inl heq
  · exact .inr ⟨hmem, h.waiting l _ hmem⟩

theorem Lists.push (hc : state c = .opened) (hl : state l = .listening) :
    Lists (update state c .pending) (update next ((pend l).getLastD l) (some c))
      (update num l (num l + 1)) (update queued l (queued l ++ [c])) accepted
      (update pend l (pend l ++ [c])) := by
  have hcl : c ≠ l := by
    rintro rfl
    cases hc.symm.trans hl
  have hcq : ∀ k, c ∉ queued k := fun k => h.not_queued hc
  have hla := h.last_cases l
  have hmem : ∀ k i, i ∈ update queued l (queued l ++ [c]) k → i ∈ queued k ∨ k = l ∧ i = c := by
    intro k i hi
    by_cases hkl : k = l
    · subst hkl
      simpa using hi
    · exact .inl (by simpa [hkl] using hi)
  have hst : ∀ i, i ≠ c → update state c .pending i = state i := fun i hi =>
    update_of_ne hi _ _
  -- the only link that changes is the one behind the last socket of `l`
  have hnx : ∀ k, k ≠ l → (state k = .listening ∨ state k = .opened ∨ ∃ m, m ≠ l ∧ k ∈ pend m) →
      update next ((pend l).getLastD l) (some c) k = next k := by
    intro k hkl hk
    refine update_of_ne (fun heq => ?_) _ _
    rcases hla with hse | ⟨hin, hpe⟩
    · exact hkl (heq.trans hse)
    · rw [← heq] at hin hpe
      rcases hk with hk | hk | ⟨m, hml, hk⟩
      · cases hk.symm.trans hpe
      · cases hk.symm.trans hpe
      · exact hml (h.unique m l k (h.pend_queued hk) (h.pend_queued hin))
  refine ⟨?_, ?_, ?_, ?_, ?_, ?_, ?_, ?_, ?_⟩
  · intro k
    by_cases hkl : k = l
    · subst hkl
      simp [h.split k]
    · simp [hkl, h.split k]
  · intro k hk
    replace hk := eq_of_update (by decide) hk
    by_cases hkl : k = l
    · subst hkl
      have hnd : (k :: pend k).Nodup := by
        refine nodup_cons.mpr ⟨fun hkp => ?_, ?_⟩
        · cases hl.symm.trans (h.waiting k k hkp)
        · exact ((h.split k) ▸ h.nodup k).of_append_right
      have hfr : c ∉ k :: pend k := by
        rw [mem_cons, not_or]
        exact ⟨hcl, fun hcp => hcq k (h.pend_queued hcp)⟩
      simpa using (h.leads k hl).snoc hnd hfr (h.fresh c hc).1
    · rw [update_of_ne hkl, hnx k hkl (.inl hk)]
      refine (h.leads k hk).congr fun i hi => hnx i ?_ (.inr (.inr ⟨k, hkl, hi⟩))
      exact h.ne_of_pend (by simp [hl]) hi
  · intro k hk
    replace hk := eq_of_update (by decide) hk
    by_cases hkl : k = l
    · subst hkl
      simp [h.count k hk]
    · simp [hkl, h.count k hk]
  · intro k hk
    have hkl : k ≠ l := by
      rintro rfl
      rw [hst k hcl.symm] at hk
      exact hk hl
    rw [update_of_ne hkl]
    refine h.closed k fun hlk => hk ?_
    rw [hst k (by rintro rfl; cases hc.symm.trans hlk)]
    exact hlk
  · intro k hk
    replace hk := eq_of_update (by decide) hk
    have hkl : k ≠ l := by
      rintro rfl
      cases hk.symm.trans hl
    rw [hnx k hkl (.inr (.inl hk)), update_of_ne hkl]
    exact h.fresh k hk
  · intro k
    by_cases hkl : k = l
    · subst hkl
      rw [update_self, nodup_append]
      refine ⟨h.nodup k, nodup_singleton c, fun a ha b hb hab => ?_⟩
      obtain rfl : b = c := mem_singleton.mp hb
      exact hcq k (hab ▸ ha)
    · rw [update_of_ne hkl]
      exact h.nodup k
  · intro k k' i hi hi'
    rcases hmem k i hi with hi | ⟨hkl, hic⟩
    · rcases hmem k' i hi' with hi' | ⟨hkl', hic⟩
      · exact h.unique k k' i hi hi'
      · exact absurd (hic ▸ hi) (hcq k)
    · rcases hmem k' i hi' with hi' | ⟨hkl', -⟩
      · exact absurd (hic ▸ hi') (hcq k')
      · exact hkl.trans hkl'.symm
  · intro k i hi
    by_cases hic : i = c
    · subst hic
      exact .inl (update_self i _ _)
    · rw [hst i hic]
      rcases hmem k i hi with hi | ⟨-, hic'⟩
      · exact h.member k i hi
      · exact absurd hic' hic
  · intro k i hi
    by_cases hic : i = c
    · subst hic
      exact update_self i _ _
    · rw [hst i hic]
      by_cases hkl : k = l
      · subst hkl
        rw [update_self, mem_append, mem_singleton] at hi
        exact h.waiting k i (hi.resolve_right hic)
      · rw [update_of_ne hkl] at hi
        exact h.waiting k i hi

theorem Lists.mark (hc : state c = .pending)
    (hacc : c ∈ accepted l) : Lists (update state c .connected) next num queued accepted pend := by
  refine ⟨h.split, fun k hk => h.leads k (eq_of_update (by decide) hk),
    fun k hk => h.count k (eq_of_update (by decide) hk), fun k hk => h.closed k fun hlk => hk ?_,
    fun k hk => h.fresh k (eq_of_update (by decide) hk), h.nodup, h.unique, fun k i hi => ?_, fun k i hi => ?_⟩
  · have hkc : k ≠ c := by
      rintro rfl
      cases hc.symm.trans hlk
    exact (update_of_ne hkc _ _).trans hlk
  · by_cases hic : i = c
    · subst hic
      exact .inr (update_self i _ _)
    · rw [update_of_ne hic]
      exact h.member k i hi
  · have hic : i ≠ c := by
      rintro rfl
      exact h.not_pend hacc hi
    exact (update_of_ne hic _ _).trans (h.waiting k i hi)

theorem Lists.listen (hl : state l = .opened ∨ state l = .listening) :
    Lists (update state l .listening) next num queued accepted pend := by
  have hot : ∀ k i, i ∈ queued k → i ≠ l := by
    rintro k i hi rfl
    rcases h.member k i hi with hp | hp <;> rcases hl with ho | ho <;> cases hp.symm.trans ho
  have hpe : state l = .opened → pend l = [] := by
    intro ho
    have hq := h.closed l (by simp [ho])
    rw [h.split l] at hq
    exact (append_eq_nil_iff.mp hq).2
  refine ⟨h.split, fun k hk => ?_, fun k hk => ?_, fun k hk => ?_,
    fun k hk => h.fresh k (eq_of_update (by decide) hk), h.nodup, h.unique, fun k i hi => ?_, fun k i hi => ?_⟩
  · by_cases hkl : k = l
    · subst hkl
      rcases hl with ho | ho
      · rw [hpe ho, (h.fresh k ho).1]
        rfl
      · exact h.leads k ho
    · exact h.leads k ((update_of_ne hkl _ _).symm.trans hk)
  · by_cases hkl : k = l
    · subst hkl
      rcases hl with ho | ho
      · rw [hpe ho, (h.fresh k ho).2]
        rfl
      · exact h.count k ho
    · exact h.count k ((update_of_ne hkl _ _).symm.trans hk)
  · have hkl : k ≠ l := by
      rintro rfl
      exact hk (update_self k _ _)
    exact h.closed k ((update_of_ne hkl _ state) ▸ hk)
  · rw [update_of_ne (hot k i hi)]
    exact h.member k i hi
  · rw [update_of_ne (hot k i (h.pend_queued hi))]
    exact h.waiting k i hi

end

end

namespace Sockets

/-! ## The places of the tasks -/

def Fits (s : Sockets) : SockPc → Prop
  | .listenerLock c _ | .queue c _ => s.state c = .opened
  | .acceptBlock l | .popLock l | .pop l | .popUnlock l _ => s.state l = .listening
  | .acceptUnlock l isListening => isListening = true → s.state l = .listening
  | _ => True

structure Placed (s : Sockets) : Prop where
  fits : ∀ t, s.Fits (s.pc t)
  carried : ∀ t c, (s.pc t).carries = some c → s.state c = .pending ∧ ∃ l, c ∈ s.accepted l
  carrier : ∀ t u c, (s.pc t).carries = some c → (s.pc u).carries = some c → t = u

section
variable {s s' : Sockets} {t u x l c : Nat} {p q : SockPc}

theorem Fits.congr (hq : s.Fits q) (hop : ∀ c ∈ q.held, s.state c = .opened → s'.state c = .opened)
    (hli : ∀ l, s.state l = .listening → s'.state l = .listening) : s'.Fits q := by
  cases q with
  | listenerLock c l => exact hop c (.head _) hq
  | queue c l => exact hop c (mem_cons_of_mem l (.head _)) hq
  | acceptBlock l | popLock l | pop l | popUnlock l c => exact hli l hq
  | acceptUnlock l isListening => exact fun h => hli l (hq h)
  | _ => trivial

theorem Placed.step (hs : s.Placed) (hl : s.Locked) (hpc : s'.pc = update s.pc t p)
    (hop : ∀ c, s.state c = .opened → s'.state c = .opened ∨ c ∈ (s.pc t).held)
    (hli : ∀ l, s.state l = .listening → s'.state l = .listening)
    (hpe : ∀ c, s.state c = .pending → s'.state c = .pending ∨ (s.pc t).carries = some c)
    (hacc : ∀ l, s.accepted l ⊆ s'.accepted l) (hp : s'.Fits p)
    (hca : ∀ c, p.carries = some c → s'.state c = .pending ∧ (∃ l, c ∈ s'.accepted l) ∧
      ∀ u, u ≠ t → (s.pc u).carries ≠ some c) : s'.Placed := by
  have hse : s'.pc t = p := by rw [hpc, update_self]
  have hot : ∀ u, u ≠ t → s'.pc u = s.pc u := fun u hu => by rw [hpc, update_of_ne hu]
  refine ⟨fun u => ?_, fun u c hc => ?_, fun u v c hu hv => ?_⟩
  · by_cases hut : u = t
    · subst hut
      rwa [hse]
    · rw [hot u hut]
      refine (hs.fits u).congr (fun c hc ho => (hop c ho).resolve_right fun ht => ?_) hli
      exact hut (hl.alone hc ht)
  · by_cases hut : u = t
    · subst hut
      rw [hse] at hc
      exact ⟨(hca c hc).1, (hca c hc).2.1⟩
    · rw [hot u hut] at hc
      obtain ⟨hcp, l, hcl⟩ := hs.carried u c hc
      exact ⟨(hpe c hcp).resolve_right fun ht => hut (hs.carrier u t c hc ht), l, hacc l hcl⟩
  · by_cases hut : u = t <;> by_cases hvt : v = t
    · exact hut.trans hvt.symm
    · subst hut
      rw [hse] at hu
      rw [hot v hvt] at hv
      exact absurd hv ((hca c hu).2.2 v hvt)
    · subst hvt
      rw [hse] at hv
      rw [hot u hut] at hu
      exact absurd hu ((hca c hv).2.2 u hut)
    · rw [hot u hut] at hu
      rw [hot v hvt] at hv
      exact hs.carrier u v c hu hv

theorem Moves.fits (h : Moves s q p) (hq : s.Fits q) : s.Fits p := by
  cases h with
  | acceptCheck l => exact fun h => by simpa using h
  | accept l => exact hq rfl
  | acceptable | popLock | popNone | retry | listenerLock => exact hq
  | connect c l hc => exact hc
  | _ => trivial

theorem Moves.carries (h : Moves s q p) (hc : p.carries = some c) : q.carries = some c := by
  cases h with
  | popped | markLock => exact hc
  | _ => cases hc

/-! ## Steps -/

def Listed (s : Sockets) (pend : Nat → List Nat) : Prop :=
  Lists s.state s.next (fun i => (s.sock i).numPending) s.queued s.accepted pend

theorem set_state (i : Nat) (v : SocketNode) : (s.set i v).state = update s.state i v.state :=
  funext fun k => apply_update (fun _ w => SocketNode.state w) s.sock i v k

theorem set_next (i : Nat) (v : SocketNode) : (s.set i v).next = update s.next i v.next :=
  funext fun k => apply_update (fun _ w => SocketNode.next w) s.sock i v k

theorem set_numPending (i : Nat) (v : SocketNode) : (fun k => ((s.set i v).sock k).numPending) =
    update (fun k => (s.sock k).numPending) i v.numPending :=
  funext fun k => apply_update (fun _ w => SocketNode.numPending w) s.sock i v k

theorem Listed.set {pend : Nat → List Nat} {i : Nat} {v : SocketNode}
    (h : Lists (update s.state i v.state) s.next (fun i => (s.sock i).numPending) s.queued s.accepted pend)
    (hnx : v.next = s.next i) (hnum : v.numPending = (s.sock i).numPending) : (s.set i v).Listed pend := by
  rw [Listed, set_state, set_next, set_numPending, hnx, hnum, update_eq_self, update_eq_self]
  exact h

theorem announce_state : (s.announce c l).state = update s.state c .pending := by
  have hco : (s.set l { s.sock l with numPending := (s.sock l).numPending + 1 }).state = s.state :=
    (set_state l _).trans (update_eq_self l s.state)
  have hset : (s.announce c l).state = update (s.set l
      { s.sock l with numPending := (s.sock l).numPending + 1 }).state c .pending := set_state c _
  rw [hset, hco]

theorem announce_next (hc : s.next c = none) : (s.announce c l).next = s.next := by
  have hco : (s.set l { s.sock l with numPending := (s.sock l).numPending + 1 }).next = s.next :=
    (set_next l _).trans (update_eq_self l s.next)
  have hset : (s.announce c l).next = update (s.set l
      { s.sock l with numPending := (s.sock l).numPending + 1 }).next c none := set_next c _
  rw [hset, hco, ← hc]
  exact update_eq_self c s.next

theorem announce_numPending : (fun i => ((s.announce c l).sock i).numPending) =
    update (fun i => (s.sock i).numPending) l ((s.sock l).numPending + 1) := by
  have hco := set_numPending (s := s) l { s.sock l with numPending := (s.sock l).numPending + 1 }
  have hset : (fun i => ((s.announce c l).sock i).numPending) =
      update (fun i => ((s.set l { s.sock l with numPending := (s.sock l).numPending + 1 }).sock i).numPending)
        c ((s.set l { s.sock l with numPending := (s.sock l).numPending + 1 }).sock c).numPending :=
    set_numPending c _
  rw [hset, update_eq_self, hco]

theorem link_leads {is : List Nat} (h : Leads s.next (s.next l) is) (hlen : is.length ≤ (s.sock l).numPending) :
    s.link c l = .ok (s.set (is.getLastD l) { s.sock (is.getLastD l) with next := some c }) := by
  cases is with
  | nil =>
    have hnn : s.next l = none := h
    rw [link, hnn]
    rfl
  | cons i is =>
    have hla : lastFrom s.next (s.sock l).numPending i = some (is.getLastD i) := h.2.lastFrom hlen
    simp only [link, h.1, hla, getLastD_cons]

theorem Listed.pushTo {pend : Nat → List Nat} (h : s.Listed pend) (hc : s.state c = .opened)
    (hl : s.state l = .listening) : ∃ s₁, s.pushTo c l = .ok s₁ ∧
      s₁.state = update s.state c .pending ∧ s₁.accepted = s.accepted ∧
      s₁.queued = update s.queued l (s.queued l ++ [c]) ∧
      s₁.Listed (update pend l (pend l ++ [c])) := by
  have hnx : (s.announce c l).next = s.next := announce_next (h.fresh c hc).1
  have hnum : ((s.announce c l).sock l).numPending = (s.sock l).numPending + 1 :=
    (congrFun announce_numPending l).trans (update_self l _ _)
  have hle : Leads (s.announce c l).next ((s.announce c l).next l) (pend l) := by
    rw [hnx]
    exact h.leads l hl
  have hlen : (pend l).length ≤ ((s.announce c l).sock l).numPending := by
    have hco : (s.sock l).numPending = (pend l).length := h.count l hl
    omega
  refine ⟨_, link_leads hle hlen, ?_, rfl, rfl, ?_⟩
  · rw [set_state]
    exact (update_eq_self _ _).trans announce_state
  · rw [Listed, set_state, set_next, set_numPending, hnx]
    have hst : update (s.announce c l).state ((pend l).getLastD l)
        ((s.announce c l).sock ((pend l).getLastD l)).state = update s.state c .pending :=
      (update_eq_self _ _).trans announce_state
    have hco : update (fun i => ((s.announce c l).sock i).numPending) ((pend l).getLastD l)
        ((s.announce c l).sock ((pend l).getLastD l)).numPending =
          update (fun i => (s.sock i).numPending) l ((s.sock l).numPending + 1) :=
      (update_eq_self _ _).trans announce_numPending
    rw [hst, hco]
    exact Lists.push h hc hl

structure Good (s : Sockets) : Prop where
  locked : s.Locked
  placed : s.Placed
  listed : ∃ pend, s.Listed pend

theorem create_good : create.Good := by
  refine ⟨create_locked, ⟨fun _ => trivial, nofun, nofun⟩, fun _ => [], ?_⟩
  exact ⟨fun _ => rfl, nofun, nofun, fun _ _ => rfl, fun _ _ => ⟨rfl, rfl⟩, fun _ => nodup_nil, nofun, nofun,
    nofun⟩

theorem Placed.move (hs : s.Placed) (hl : s.Locked) (hpc : s'.pc = update s.pc t p)
    (hst : s'.state = s.state) (hacc : s'.accepted = s.accepted) (hp : s.Fits p)
    (hca : ∀ c, p.carries = some c → (s.pc t).carries = some c) : s'.Placed := by
  have hfi : s'.Fits p := hp.congr (fun c _ hc => hst ▸ hc) fun l h => hst ▸ h
  refine hs.step hl hpc (fun c hc => .inl (hst ▸ hc)) (fun l h => hst ▸ h) (fun c hc => .inl (hst ▸ hc))
    (fun l => hacc ▸ List.Subset.refl _) hfi fun c hc => ?_
  obtain ⟨hpe, hmem⟩ := hs.carried t c (hca c hc)
  rw [hst, hacc]
  exact ⟨hpe, hmem, fun u hut hu => hut (hs.carrier u t c hu (hca c hc))⟩

theorem Good.listen {b : Int} (hs : s.Good) (hpc : s.pc t = .listen l b)
    (hop : s.state l = .opened ∨ s.state l = .listening)
    (heq : s' = (s.set l { s.sock l with backlog := b, state := .listening }).goto t (.leave l (.ok none)))
    (hl : s'.Locked) : s'.Good := by
  obtain ⟨pend, hpe⟩ := hs.listed
  have hst : s'.state = update s.state l .listening := heq ▸ set_state l _
  subst heq
  refine ⟨hl, hs.placed.step hs.locked rfl (fun c hc => ?_) (fun k hk => ?_) (fun c hc => ?_)
    (fun k => List.Subset.refl _) trivial nofun, pend, Listed.set (Lists.listen hpe hop) rfl rfl⟩
  · by_cases hcl : c = l
    · subst hcl
      rw [hpc]
      exact .inr (.head _)
    · rw [hst, update_of_ne hcl]
      exact .inl hc
  · by_cases hkl : k = l
    · subst hkl
      rw [hst, update_self]
    · rw [hst, update_of_ne hkl]
      exact hk
  · have hcl : c ≠ l := by
      rintro rfl
      rcases hop with ho | ho <;> cases hc.symm.trans ho
    rw [hst, update_of_ne hcl]
    exact .inl hc

theorem Good.pop (hs : s.Good) (hpc : s.pc t = .pop l) (hc : s.next l = some c)
    (heq : s' = ({ s with accepted := update s.accepted l (s.accepted l ++ [c]) }.set l
      { s.sock l with next := s.next c, numPending := (s.sock l).numPending - 1 }).goto t (.popUnlock l (some c)))
    (hl : s'.Locked) : s'.Good := by
  obtain ⟨pend, hpe⟩ := hs.listed
  have hli : s.state l = .listening := by
    have hfi := hs.placed.fits t
    rw [hpc] at hfi
    exact hfi
  obtain ⟨rest, hre, hls⟩ := Lists.pop hpe hli hc
  have hcp : c ∈ pend l := hre ▸ (.head _)
  have hst : s'.state = s.state := heq ▸ (set_state l _).trans (update_eq_self l s.state)
  have ha : s'.accepted = update s.accepted l (s.accepted l ++ [c]) := heq ▸ rfl
  refine ⟨hl, hs.placed.step hs.locked (by rw [heq]; rfl) (fun c hc => .inl (hst ▸ hc)) (fun k hk => hst ▸ hk)
    (fun c hc => .inl (hst ▸ hc)) (fun k => ?_) ?_ (fun d hd => ?_), update pend l rest, ?_⟩
  · rw [ha]
    by_cases hkl : k = l
    · subst hkl
      rw [update_self]
      exact subset_append_left _ _
    · rw [update_of_ne hkl]
      exact List.Subset.refl _
  · have hfi : s'.state l = .listening := hst ▸ hli
    exact hfi
  · obtain rfl : c = d := Option.some.inj hd
    refine ⟨hst ▸ hpe.waiting l c hcp, ⟨l, ?_⟩, fun u _ hu => ?_⟩
    · rw [ha, update_self]
      exact mem_append_right _ (.head _)
    · -- a connector that someone carries is on no list
      obtain ⟨-, m, hm⟩ := hs.placed.carried u c hu
      exact Lists.not_pend hpe hm hcp
  · have hnx : s'.next = update s.next l (s.next c) := heq ▸ set_next l _
    rw [Listed, hst, hnx, ha, heq]
    exact (set_numPending (s := s) l _).symm ▸ hls

theorem Good.mark (hs : s.Good) (hpc : s.pc t = .mark c) (hc : s.state c = .pending)
    (heq : s' = (s.set c { s.sock c with state := .connected, isConnected := true }).goto t (.leave c (.ok (some c))))
    (hl : s'.Locked) : s'.Good := by
  obtain ⟨pend, hpe⟩ := hs.listed
  have hca : (s.pc t).carries = some c := by rw [hpc]; rfl
  obtain ⟨-, l, hmem⟩ := hs.placed.carried t c hca
  have hst : s'.state = update s.state c .connected := heq ▸ set_state c _
  have hot : ∀ i, s.state i ≠ .pending → s'.state i = s.state i := by
    intro i hi
    have hic : i ≠ c := by
      rintro rfl
      exact hi hc
    rw [hst, update_of_ne hic]
  subst heq
  refine ⟨hl, hs.placed.step hs.locked rfl (fun i hi => .inl ?_) (fun k hk => ?_) (fun i hi => ?_)
    (fun k => List.Subset.refl _) trivial nofun, pend, Listed.set (Lists.mark hpe hc hmem) rfl rfl⟩
  · exact (hot i (by simp [hi])).trans hi
  · exact (hot k (by simp [hk])).trans hk
  · by_cases hic : i = c
    · subst hic
      exact .inr hca
    · rw [hst, update_of_ne hic]
      exact .inl hi

theorem Good.push (hs : s.Good) (hpc : s.pc t = .queue c l) (hli : s.state l = .listening)
    {s₁ : Sockets} (hs1 : s.pushTo c l = .ok s₁) (hl : (s₁.goto t p).Locked) (hp : (s₁.goto t p).Fits p)
    (hca : p.carries = none) : (s₁.goto t p).Good := by
  obtain ⟨pend, hpe⟩ := hs.listed
  have hop : s.state c = .opened := by
    have hfi := hs.placed.fits t
    rw [hpc] at hfi
    exact hfi
  obtain ⟨s₂, hs2, hst, ha, -, hls⟩ := hpe.pushTo hop hli
  obtain rfl : s₂ = s₁ := Except.ok.inj (hs2.symm.trans hs1)
  have hpc' : (s₂.goto t p).pc = update s.pc t p := by
    rw [← (pushTo_frame hs1).2.1]
    rfl
  have hst' : (s₂.goto t p).state = update s.state c .pending := hst
  have hot : ∀ i, s.state i ≠ .opened → (s₂.goto t p).state i = s.state i := by
    intro i hi
    have hic : i ≠ c := by
      rintro rfl
      exact hi hop
    rw [hst', update_of_ne hic]
  refine ⟨hl, hs.placed.step hs.locked hpc' (fun i hi => ?_) (fun k hk => ?_) (fun i hi => .inl ?_)
    (fun k => ?_) hp (fun d hd => ?_), _, hls⟩
  · by_cases hic : i = c
    · subst hic
      rw [hpc]
      exact .inr (mem_cons_of_mem l (.head _))
    · rw [hst', update_of_ne hic]
      exact .inl hi
  · exact (hot k (by simp [hk])).trans hk
  · exact (hot i (by simp [hi])).trans hi
  · have hacc : (s₂.goto t p).accepted = s.accepted := ha
    rw [hacc]
    exact List.Subset.refl _
  · cases hca.symm.trans hd

theorem Good.effect (hs : s.Good) (h : Effect s t s') : s'.Good := by
  have hl := h.locked hs.locked
  cases h with
  | move m p hp _ =>
    exact ⟨hl, hs.placed.move hs.locked rfl rfl rfl (hp.fits (hs.placed.fits t)) fun c hc => hp.carries hc, hs.listed⟩
  | bind c a hpc hbo =>
    obtain ⟨pend, hpe⟩ := hs.listed
    have hst := (set_state (s := s) c { s.sock c with isBound := true }).trans (update_eq_self c s.state)
    refine ⟨hl, hs.placed.move hs.locked rfl hst rfl trivial nofun, pend, Listed.set ?_ rfl rfl⟩
    exact (update_eq_self c s.state).symm ▸ hpe
  | listen l b hpc hop hbo => exact hs.listen hpc hop rfl hl
  | pop l c hpc hc => exact hs.pop hpc hc rfl hl
  | mark c hpc hc => exact hs.mark hpc hc rfl hl
  | push c l s₁ hpc hli hro hs1 => exact hs.push hpc hli hs1 hl trivial rfl

theorem Good.exec {e : SockEvent} (hs : s.Good) (h : s.exec e = .ok s') : s'.Good :=
  hs.effect (exec_effect h)

/-! ## Faults -/

theorem lockThen_error {f : SockFault} (h : s.lockThen t x p = .error f) : f = .unable := by
  unfold lockThen at h
  split at h
  · cases h
  · cases h
    rfl

theorem Good.stepTask_error {f : SockFault} (hs : s.Good) (h : s.stepTask t = .error f) : f = .unable := by
  have hhe : ∀ {x p}, x ∈ (s.pc t).held → s.unlockThen t x p = .error f → f = .unable :=
    fun hx herr => absurd herr (hs.locked.unlockThen_ne hx f)
  unfold stepTask at h
  cases hpc : s.pc t with
  | idle =>
    simp only [hpc] at h
    cases h
    rfl
  | acceptBlock | connectBlock =>
    simp only [hpc] at h
    split at h
    · cases h
    · cases h
      rfl
  | bindLock | listenLock | acceptLock | popLock | markLock | connectLock | listenerLock =>
    simp only [hpc] at h
    exact lockThen_error h
  | leave | acceptUnlock | popUnlock | connectorUnlock | listenerUnlock =>
    simp only [hpc] at h
    exact hhe (by rw [hpc]; exact (.head _)) h
  | bind | listen | acceptCheck | pop | connectCheck =>
    simp only [hpc] at h
    cases h
  | mark c =>
    have hpe : s.state c = .pending := (hs.placed.carried t c (by rw [hpc]; rfl)).1
    simp only [hpc, if_pos hpe] at h
    cases h
  | queue c l =>
    simp only [hpc] at h
    split at h
    · cases h
    · rename_i hl
      obtain ⟨pend, hpn⟩ := hs.listed
      have hop : s.state c = .opened := by
        have hfi := hs.placed.fits t
        rw [hpc] at hfi
        exact hfi
      obtain ⟨s₁, hs1, -⟩ := hpn.pushTo hop (not_not.mp (not_or.mp hl).1)
      rw [hs1] at h
      cases h

theorem Good.exec_error {e : SockEvent} {f : SockFault} (hs : s.Good) (h : s.exec e = .error f) : f = .unable := by
  cases e with
  | go t => exact hs.stepTask_error h
  | call t c =>
    simp only [Sockets.exec] at h
    split at h
    · cases h
    · cases h
      rfl
  | interrupt t =>
    simp only [Sockets.exec] at h
    split at h
    · cases h
    · cases h
    · cases h
      rfl
  | again t =>
    simp only [Sockets.exec] at h
    split at h
    · split at h
      · cases h
      · cases h
        rfl
    · split at h
      · cases h
        rfl
      · cases h
    · cases h
      rfl

theorem Effect.queued_ne (h : Effect s t s') (hq : s'.queued l ≠ s.queued l) :
    (s.sock l).numPending < (s.sock l).room := by
  cases h with
  | move | bind | listen | pop | mark => exact absurd rfl hq
  | push c k s₁ hpc hli hro hs1 =>
    have hqu : s₁.queued l ≠ s.queued l := hq
    rw [(pushTo_frame hs1).2.2] at hqu
    by_cases hlk : l = k
    · subst hlk
      exact hro
    · exact absurd (update_of_ne hlk _ _) hqu

end

theorem socket_queue_correct {s : Sockets} (hr : Run Step (fun _ _ => True) create s) :
    (∀ l, s.state l = .listening → ∃ ps, Leads s.next (s.next l) ps ∧ (s.sock l).numPending = ps.length ∧
      s.queued l = s.accepted l ++ ps ∧ ∀ c ∈ ps, s.state c = .pending) ∧
    (∀ l, (s.accepted l).Nodup) ∧ (∀ l l' c, c ∈ s.accepted l → c ∈ s.accepted l' → l = l') ∧
    (∀ e s' l, s.Step e s' → s'.queued l ≠ s.queued l → (s.sock l).numPending < (s.sock l).room) ∧
    ∀ e f, s.exec e = .error f → f = .unable := by
  have hs : s.Good := hr.invariant (I := Good) create_good fun _ _ _ hg hst _ => hg.exec hst
  obtain ⟨pend, hpe⟩ := hs.listed
  refine ⟨fun l hl => ⟨pend l, hpe.leads l hl, hpe.count l hl, hpe.split l, hpe.waiting l⟩, fun l => ?_,
    fun l l' c hc hc' => hpe.unique l l' c (hpe.accepted_queued hc) (hpe.accepted_queued hc'),
    fun e s' l hst hq => (exec_effect hst).queued_ne hq, fun e f hf => hs.exec_error hf⟩
  exact (hpe.split l ▸ hpe.nodup l).of_append_left

theorem socket_queue_correct_two : ∃ s, Run Step (fun _ _ => True) create s ∧
    (s.state 0 = .listening ∧ s.queued 0 = [1, 2] ∧ s.accepted 0 = [1]) ∧
    ∃ ps, Leads s.next (s.next 0) ps ∧ (s.sock 0).numPending = ps.length ∧ s.queued 0 = s.accepted 0 ++ ps ∧
      ∀ c ∈ ps, s.state c = .pending := by
  obtain ⟨s, hr, hs⟩ := exists_follow_except exec (fun _ _ => True)
    [.call 0 (.bind 0 7), .go 0, .go 0, .go 0, .call 0 (.listen 0 2), .go 0, .go 0, .go 0,
      .call 1 (.connect 1 7), .call 2 (.connect 2 7), .go 1, .go 2, .go 1, .go 2, .go 1, .go 1, .go 1, .go 1,
      .go 2, .go 2, .go 2, .go 2, .call 0 (.accept 0), .go 0, .go 0, .go 0, .go 0, .go 0, .go 0]
    create (fun s => s.state 0 = .listening ∧ s.queued 0 = [1, 2] ∧ s.accepted 0 = [1]) (by decide +kernel)
  exact ⟨s, hr, hs, (socket_queue_correct hr).1 0 hs.1⟩

end Sockets

end Yagura
