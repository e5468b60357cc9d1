import Yagura.SocketQueue

/-!
# Locks of two sockets

`unix_socket_connect` locks the socket it connects from and then the socket it
connects to. The second one is bound; as long as the first one is not, the two
kinds of sockets are locked in one order.
-/

namespace Yagura

open Function

namespace Sockets

def isBound (s : Sockets) (i : Nat) : Bool := (s.sock i).isBound

/-- The socket that goes on to connect is not bound itself, or it connects to its own address. -/
def Unbound (s : Sockets) (e : SockEvent) : Prop :=
  match s.pc e.task with
  | .connectCheck c l => s.state c = .opened → s.isBound c = false ∨ l = c
  | _ => True

instance (s : Sockets) (e : SockEvent) : Decidable (s.Unbound e) := by
  unfold Unbound
  split <;> infer_instance

def Apart (s : Sockets) : SockPc → Prop
  | .connectLock _ l | .connectCheck _ l => s.isBound l = true
  | .listenerLock c l | .queue c l => s.isBound l = true ∧ (s.isBound c = false ∨ l = c)
  | _ => True

structure Ranked (s : Sockets) : Prop where
  locked : s.Locked
  bound : ∀ a l, s.bound a = some l → s.isBound l = true
  apart : ∀ t, s.Apart (s.pc t)

section
variable {s s' : Sockets} {t : Nat} {p q : SockPc}

theorem Apart.congr (hq : s.Apart q) (hb : ∀ i, s.isBound i = true → s'.isBound i = true)
    (hu : ∀ c ∈ q.held, s.isBound c = false → s'.isBound c = false) : s'.Apart q := by
  cases q with
  | connectLock c l | connectCheck c l => exact hb l hq
  | listenerLock c l => exact ⟨hb l hq.1, hq.2.imp_left (hu c (.head _))⟩
  | queue c l => exact ⟨hb l hq.1, hq.2.imp_left (hu c (List.mem_cons_of_mem l (.head _)))⟩
  | _ => trivial

theorem Moves.apart (hs : s.Ranked) (h : Moves s (s.pc t) p)
    (hok : ∀ c l, s.pc t = .connectCheck c l → s.state c = .opened → s.isBound c = false ∨ l = c) : s.Apart p := by
  have ht := hs.apart t
  generalize hq : s.pc t = q at h ht hok
  cases h with
  | callConnect r c a l hb => exact hs.bound a l hb
  | connectLock | listenerLock => exact ht
  | connect c l hc => exact ⟨ht, hok c l rfl hc⟩
  | _ => trivial

theorem Ranked.step (hs : s.Ranked) (hl : s'.Locked) (hpc : s'.pc = update s.pc t p)
    (hb : s'.isBound = s.isBound) (hbo : s'.bound = s.bound) (hp : s.Apart p) : s'.Ranked := by
  have hco : ∀ q, s.Apart q → s'.Apart q := fun q hq => hq.congr (fun i hi => hb ▸ hi) fun c _ hc => hb ▸ hc
  refine ⟨hl, fun a l hal => hb ▸ hs.bound a l (hbo ▸ hal), fun u => ?_⟩
  rw [hpc]
  by_cases hut : u = t
  · subst hut
    rw [update_self]
    exact hco p hp
  · rw [update_of_ne hut]
    exact hco _ (hs.apart u)

theorem set_isBound (i : Nat) (v : SocketNode) : (s.set i v).isBound = update s.isBound i v.isBound :=
  funext fun k => apply_update (fun _ w => SocketNode.isBound w) s.sock i v k

theorem pushTo_isBound {c l : Nat} (h : s.pushTo c l = .ok s') : s'.isBound = s.isBound ∧ s'.bound = s.bound := by
  obtain ⟨j, rfl⟩ := link_ok (s := s.announce c l) h
  refine ⟨?_, rfl⟩
  rw [set_isBound]
  refine (update_eq_self j (s.announce c l).isBound).trans ?_
  have hset : (s.announce c l).isBound = update (s.set l
      { s.sock l with numPending := (s.sock l).numPending + 1 }).isBound c ((s.set l
        { s.sock l with numPending := (s.sock l).numPending + 1 }).sock c).isBound := set_isBound c _
  rw [hset]
  refine (update_eq_self c _).trans ?_
  exact (set_isBound l _).trans (update_eq_self l s.isBound)

theorem Ranked.bind {c a : Nat} (hs : s.Ranked) (hpc : s.pc t = .bind c a) (hl : s'.Locked)
    (hpc' : s'.pc = update s.pc t p) (hb : s'.isBound = update s.isBound c true)
    (hbo : s'.bound = update s.bound a (some c)) (hp : s'.Apart p) : s'.Ranked := by
  have hke : ∀ i, s.isBound i = true → s'.isBound i = true := by
    intro i hi
    rw [hb]
    by_cases hic : i = c
    · subst hic
      exact update_self i _ _
    · rwa [update_of_ne hic]
  refine ⟨hl, fun b l hbl => ?_, fun u => ?_⟩
  · rw [hbo] at hbl
    by_cases hba : b = a
    · subst hba
      rw [update_self] at hbl
      cases hbl
      rw [hb, update_self]
    · rw [update_of_ne hba] at hbl
      exact hke l (hs.bound b l hbl)
  · rw [hpc']
    by_cases hut : u = t
    · subst hut
      rwa [update_self]
    · rw [update_of_ne hut]
      refine (hs.apart u).congr hke fun i hi hfr => ?_
      have hic : i ≠ c := by
        rintro rfl
        exact hut (hs.locked.alone hi (by rw [hpc]; exact (.head _)))
      rwa [hb, update_of_ne hic]

theorem Ranked.effect (hs : s.Ranked) (h : Effect s t s')
    (hok : ∀ c l, s.pc t = .connectCheck c l → s.state c = .opened → s.isBound c = false ∨ l = c) :
    s'.Ranked := by
  have hl := h.locked hs.locked
  cases h with
  | move m p hp _ => exact hs.step hl rfl rfl rfl (Moves.apart hs hp hok)
  | bind c a hpc hbo => exact hs.bind hpc hl rfl (set_isBound c _) rfl trivial
  | listen l | pop l =>
    exact hs.step hl rfl ((set_isBound l _).trans (update_eq_self l s.isBound)) rfl trivial
  | mark c hpc hc => exact hs.step hl rfl ((set_isBound c _).trans (update_eq_self c s.isBound)) rfl trivial
  | push c l s₁ hpc hli hro hs1 =>
    have hpc' : (s₁.goto t (.listenerUnlock c l false)).pc = update s.pc t (.listenerUnlock c l false) := by
      rw [← (pushTo_frame hs1).2.1]
      rfl
    exact hs.step hl hpc' (pushTo_isBound hs1).1 (pushTo_isBound hs1).2 trivial

theorem Ranked.exec {e : SockEvent} (hs : s.Ranked) (h : s.exec e = .ok s') (hok : s.Unbound e) : s'.Ranked := by
  refine hs.effect (exec_effect h) fun c l hpc hc => ?_
  rw [Unbound, hpc] at hok
  exact hok hc

theorem create_ranked : create.Ranked := ⟨create_locked, nofun, fun _ => trivial⟩

theorem Ranked.no_deadlock (hs : s.Ranked) : ¬ s.Deadlock := by
  refine Mutexes.no_deadlock_of_rank (fun i => (s.isBound i).toNat) fun t u l k hl hu hut hk => ?_
  have hmem : k ∈ (s.pc t).held := (hs.locked.mem t k).mpr hk
  have ht := hs.apart t
  have hwa : (s.pc t).wants = some l := hl
  cases hpc : s.pc t with
  | listenerLock c l' =>
    rw [hpc] at hmem ht hwa
    obtain rfl : l' = l := Option.some.inj hwa
    obtain rfl : k = c := List.mem_singleton.mp hmem
    obtain ⟨hbl, hbk | rfl⟩ := ht
    · simp [hbl, hbk]
    · -- a socket that connects to itself waits for nobody
      exact absurd (Option.mem_unique hu hk) hut
  | bindLock | listenLock | acceptLock | popLock | markLock | connectLock =>
    rw [hpc] at hmem
    cases hmem
  | _ =>
    rw [hpc] at hwa
    cases hwa

end

theorem socket_no_deadlock {s : Sockets} (hr : Run Step Unbound create s) : ¬ s.Deadlock :=
  (hr.invariant (I := Ranked) create_ranked fun _ _ _ hs hst hok => hs.exec hst hok).no_deadlock

theorem socket_no_deadlock_waiting : ∃ s, Run Step Unbound create s ∧
    (s.wants 1 = some 0 ∧ s.mutexes.holder 0 = some 0) ∧ ¬ s.Deadlock := by
  obtain ⟨s, hr, hs⟩ := exists_follow_except exec Unbound
    [.call 0 (.bind 0 7), .go 0, .go 0, .go 0, .call 0 (.listen 0 2), .go 0, .go 0, .go 0,
      .call 1 (.connect 1 7), .go 1, .go 1, .call 0 (.accept 0), .go 0]
    create (fun s => s.wants 1 = some 0 ∧ s.mutexes.holder 0 = some 0) (by decide +kernel)
  exact ⟨s, hr, hs, socket_no_deadlock hr⟩

/-- Two bound sockets connect to each other. -/
theorem socket_deadlock : ∃ s, Run Step (fun _ _ => True) create s ∧ s.Deadlock := by
  obtain ⟨s, hr, ⟨h0, h1⟩, h2, h3⟩ := exists_follow_except exec (fun _ _ => True)
    [.call 0 (.bind 0 7), .go 0, .go 0, .go 0, .call 1 (.bind 1 8), .go 1, .go 1, .go 1,
      .call 0 (.connect 0 8), .call 1 (.connect 1 7), .go 0, .go 0, .go 1, .go 1]
    create (fun s => (s.wants 0 = some 1 ∧ s.mutexes.holder 1 = some 1) ∧
      s.wants 1 = some 0 ∧ s.mutexes.holder 0 = some 0) (by decide +kernel)
  exact ⟨s, hr, 0, .tail (.single ⟨1, h0, h1, by decide⟩) ⟨0, h2, h3, by decide⟩⟩

end Sockets

end Yagura
