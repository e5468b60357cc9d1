import Yagura.Mpsc

/-!
# The pool of IPI messages

`cpu_alloc_message` and `cpu_free_message` of `cpu.c` take messages out of a
queue of `mpsc.h` and put them back, on every CPU. The queue is meant for one
consumer, so two CPUs in `mpsc_dequeue` at once can run past the slots; as
long as the calls of `mpsc_dequeue` do not overlap, every message is in one
place.
-/

namespace Yagura

open Function List Nat

inductive CpuPc
  | out
  | allocating
  | holding (m : Nat)
  | freeing (m : Nat)
  deriving DecidableEq

structure MsgPool where
  queue : Mpsc Nat
  cpu : Nat → CpuPc
  refCount : Nat → Nat

/-- `use`: the CPU that has a message sets its `ref_count`, or another one counts it down. `free` follows when it is
zero again, which the callers of `cpu_free_message` wait for. -/
inductive PoolEvent
  | alloc (i : Nat)
  | step (i : Nat)
  | retry (i : Nat)
  | got (i : Nat)
  | use (i r : Nat)
  | free (i : Nat)
  | again (i : Nat)
  | freed (i : Nat)

namespace MsgPool

def init (n : Nat) : MsgPool where
  queue := { Mpsc.create n n with
    size := n, head := n % WORD, slots := fun k => if k < n then some k else none, claimed := List.range n }
  cpu _ := .out
  refCount _ := 0

def onQueue (s : MsgPool) (i : Nat) (c : CpuPc) (e : MpscEvent Nat) : Except MpscFault MsgPool :=
  match s.queue.next e with
  | .error rc => .error rc
  | .ok q => .ok { s with queue := q, cpu := update s.cpu i c }

def next (s : MsgPool) : PoolEvent → Except MpscFault MsgPool
  | .alloc i => if s.cpu i = .out then s.onQueue i .allocating (.dequeue i) else .error .unable
  | .step i => s.onQueue i (s.cpu i) (.step i)
  | .retry i =>
    match s.cpu i, s.queue.pc i with
    | .allocating, .dequeued none => s.onQueue i .allocating (.dequeue i)
    | _, _ => .error .unable
  | .got i =>
    match s.cpu i, s.queue.pc i with
    | .allocating, .dequeued (some m) =>
      if s.refCount m = 0 then .ok { s with cpu := update s.cpu i (.holding m) } else .error .assert
    | _, _ => .error .unable
  | .use i r =>
    match s.cpu i with
    | .holding m => .ok { s with refCount := update s.refCount m r }
    | _ => .error .unable
  | .free i =>
    match s.cpu i with
    | .holding m => if s.refCount m = 0 then s.onQueue i (.freeing m) (.enqueue i m) else .error .unable
    | _ => .error .unable
  | .again i =>
    match s.cpu i, s.queue.pc i with
    | .freeing m, .refused _ _ => s.onQueue i (.freeing m) (.enqueue i m)
    | _, _ => .error .unable
  | .freed i =>
    match s.cpu i, s.queue.pc i with
    | .freeing _, .enqueued => .ok { s with cpu := update s.cpu i .out }
    | _, _ => .error .unable

def Step (s : MsgPool) (e : PoolEvent) (s' : MsgPool) : Prop := s.next e = .ok s'

/-- No CPU begins to dequeue while another one does, and no position is claimed that makes `head` wrap unless the
number of slots divides its range. -/
def Orderly (s : MsgPool) : PoolEvent → Prop
  | .alloc _ | .retry _ => tally s.queue.threads s.queue.pc MpscPc.dequeuing = 0
  | .step i => (s.queue.pc i).claiming = 0 ∨ s.queue.claimed.length + 1 < WORD ∨ s.queue.capacity ∣ WORD
  | _ => True

/-! ## Where the messages are -/

def Agrees : CpuPc → MpscPc Nat → Prop
  | .out, q => q = .idle ∨ q = .enqueued
  | .allocating, q => q.consumes = true
  | .holding m, q => q = .dequeued (some m)
  | .freeing m, q => q.consumes = false ∧ ∀ x ∈ q.carry, x = m

structure Inv (n : Nat) (s : MsgPool) : Prop where
  queue : s.queue.Inv
  fits : s.queue.Fits
  threads : s.queue.threads = n
  agrees : ∀ i, Agrees (s.cpu i) (s.queue.pc i)
  once : ∀ m, s.queue.claimed.count m + tally n s.queue.pc (fun q => q.carry.count m) =
    s.queue.taken.count m + if m < n then 1 else 0
  unused : ∀ m, s.refCount m ≠ 0 → ∃ i, s.cpu i = .holding m

section
variable {n i : Nat} {s s' : MsgPool} {q : Mpsc Nat} {e : PoolEvent}

theorem tickets_range (n : Nat) :
    Tickets n 0 (range n) (fun k => if k < n then some k else none) fun _ => none := by
  refine ⟨zero_le _, by simp, nofun, nofun, fun j _ hj _ => ?_, fun k x hx => ?_⟩
  · have hj : j < n := by simpa using hj
    rw [mod_eq_of_lt hj, if_pos hj, getElem?_range hj]
  · have hk : k < n := by
      by_contra hk
      rw [if_neg hk] at hx
      cases hx
    exact ⟨k, zero_le _, by simpa using hk, (mod_eq_of_lt hk).symm, nofun⟩

theorem inv_init (hn : 0 < n) (hwo : n + n < WORD) : Inv n (init n) where
  queue := Mpsc.inv_of_idle hn hwo (fun _ => rfl) rfl (by simp [init]) (by simp [init]) rfl (tickets_range n)
  fits := .inl (by simp only [init, length_range]; omega)
  threads := rfl
  agrees _ := .inl rfl
  once m := by
    have hze : tally n (init n).queue.pc (fun q => q.carry.count m) = 0 := tally_eq_zero fun _ _ => rfl
    rw [hze]
    simp [init, Mpsc.create, count_range]
  unused m h := absurd rfl h

theorem Inv.lt (hs : Inv n s) (h : s.queue.pc i ≠ .idle) : i < n := by
  by_contra hge
  exact h (hs.queue.outside i (by rw [hs.threads]; omega))

theorem Inv.onward {p : MpscPc Nat} {c : CpuPc} (hs : Inv n s) (hi : i < n) (hq : q.Inv) (hfi : q.Fits)
    (hpc : q.pc = update s.queue.pc i p) (hth : q.threads = s.queue.threads) (hag : Agrees c p)
    (hco : ∀ m, q.claimed.count m + p.carry.count m + s.queue.taken.count m =
      s.queue.claimed.count m + (s.queue.pc i).carry.count m + q.taken.count m)
    (hun : ∀ m, s.cpu i = .holding m → s.refCount m = 0 ∨ c = .holding m) :
    Inv n { s with queue := q, cpu := update s.cpu i c } where
  queue := hq
  fits := hfi
  threads := hth.trans hs.threads
  agrees j := by
    show Agrees (update s.cpu i c j) (q.pc j)
    rw [hpc]
    by_cases hji : j = i
    · subst hji
      rw [update_self, update_self]
      exact hag
    · rw [update_of_ne hji, update_of_ne hji]
      exact hs.agrees j
  once m := by
    have hup := tally_update (g := s.queue.pc) (fun q : MpscPc Nat => q.carry.count m) hi p
    have := hs.once m
    have := hco m
    simp only [hpc]
    omega
  unused m hm := by
    obtain ⟨j, hj⟩ := hs.unused m hm
    by_cases hji : j = i
    · subst hji
      rcases hun m hj with hze | hc
      · exact absurd hze hm
      · exact ⟨j, (update_self j c s.cpu).trans hc⟩
    · exact ⟨j, (update_of_ne hji c s.cpu).trans hj⟩

theorem onQueue_ok {c : CpuPc} {e : MpscEvent Nat} (h : s.onQueue i c e = .ok s') :
    ∃ q, s.queue.Step e q ∧ s' = { s with queue := q, cpu := update s.cpu i c } := by
  unfold onQueue at h
  split at h
  · cases h
  · rename_i q hq
    cases h
    exact ⟨q, hq, rfl⟩

theorem enqueue_ok {t x : Nat} {q q' : Mpsc Nat} (h : q.Step (.enqueue t x) q') :
    t < q.threads ∧ q' = q.goto t (.reserve x) := by
  unfold Mpsc.Step Mpsc.next at h
  dsimp only at h
  split at h
  · rename_i hcan
    cases h
    exact ⟨hcan.1, rfl⟩
  · cases h

theorem dequeue_ok {t : Nat} {q q' : Mpsc Nat} (h : q.Step (.dequeue t) q') : t < q.threads ∧ q' = q.goto t .load := by
  unfold Mpsc.Step Mpsc.next at h
  dsimp only at h
  split at h
  · rename_i hcan
    cases h
    exact ⟨hcan.1, rfl⟩
  · cases h

theorem Inv.enqueue {m : Nat} (hs : Inv n s) (hca : (s.queue.pc i).carry = [m])
    (hun : ∀ m, s.cpu i = .holding m → s.refCount m = 0) (h : s.onQueue i (.freeing m) (.enqueue i m) = .ok s') :
    Inv n s' := by
  obtain ⟨q, hq, rfl⟩ := onQueue_ok h
  have hinv := hs.queue.next hs.fits hq trivial
  obtain ⟨hi, rfl⟩ := enqueue_ok hq
  rw [hs.threads] at hi
  refine hs.onward hi hinv hs.fits rfl rfl ⟨rfl, fun x hx => mem_singleton.mp hx⟩ (fun k => ?_)
    fun m hm => .inl (hun m hm)
  rw [hca]
  rfl

theorem Inv.dequeue (hs : Inv n s) (hca : (s.queue.pc i).carry = []) (hcpu : ∀ m, s.cpu i ≠ .holding m)
    (hal : tally s.queue.threads s.queue.pc MpscPc.dequeuing = 0)
    (h : s.onQueue i .allocating (.dequeue i) = .ok s') : Inv n s' := by
  obtain ⟨q, hq, rfl⟩ := onQueue_ok h
  have hinv := hs.queue.next hs.fits hq hal
  obtain ⟨hi, rfl⟩ := dequeue_ok hq
  rw [hs.threads] at hi
  refine hs.onward hi hinv hs.fits rfl rfl rfl (fun k => ?_) fun m hm => absurd hm (hcpu m)
  rw [hca]
  rfl

theorem Inv.step (hs : Inv n s)
    (hro : (s.queue.pc i).claiming = 0 ∨ s.queue.claimed.length + 1 < WORD ∨ s.queue.capacity ∣ WORD)
    (h : s.onQueue i (s.cpu i) (.step i) = .ok s') : Inv n s' := by
  obtain ⟨q, hq, rfl⟩ := onQueue_ok h
  have hinv := hs.queue.next hs.fits hq trivial
  unfold Mpsc.Step Mpsc.next at hq
  dsimp only at hq
  split at hq
  · rename_i hi
    rw [hs.threads] at hi
    have hba : (s.queue.pc i).back = false := by
      unfold Mpsc.stepThread at hq
      cases hpc : s.queue.pc i with
      | idle | refused | enqueued | dequeued => rw [hpc] at hq; cases hq
      | _ => rfl
    obtain ⟨p, heff⟩ := Mpsc.stepThread_effect hq
    have hfi : q.Fits := by
      unfold Mpsc.Fits
      rw [heff.capacity]
      obtain ⟨hcl, -⟩ | ⟨x, hcl, -, hpc, -⟩ | ⟨x, hcl, -⟩ := heff.elements
      · exact hcl ▸ hs.fits
      · rw [hcl, length_append]
        exact hro.resolve_left (by rw [hpc]; nofun)
      · exact hcl ▸ hs.fits
    refine hs.onward hi hinv hfi heff.pc heff.threads ?_ (fun m => ?_) fun m hm => .inr hm
    · have ha := hs.agrees i
      cases hcpu : s.cpu i with
      | out =>
        rw [hcpu] at ha
        rcases ha with ha | ha
        · rw [ha] at hba
          cases hba
        · rw [ha] at hba
          cases hba
      | holding m =>
        rw [hcpu] at ha
        rw [show s.queue.pc i = .dequeued (some m) from ha] at hba
        cases hba
      | allocating =>
        rw [hcpu] at ha
        exact heff.consumes.trans ha
      | freeing m =>
        rw [hcpu] at ha
        refine ⟨heff.consumes.trans ha.1, fun x hx => ?_⟩
        obtain ⟨-, -, hca⟩ | ⟨y, -, -, -, hca⟩ | ⟨y, -, -, -, -, hco⟩ := heff.elements
        · exact ha.2 x (hca ▸ hx)
        · rw [hca] at hx
          cases hx
        · rw [heff.consumes, ha.1] at hco
          cases hco
    · obtain ⟨hcl, htk, hca⟩ | ⟨x, hcl, htk, hca, hp⟩ | ⟨x, hcl, htk, hca, hp, -⟩ := heff.elements
      · rw [hcl, htk, hca]
      · rw [hcl, htk, hca, hp, count_append, count_nil]
        exact Nat.add_right_comm ..
      · rw [hcl, htk, hca, hp, count_append, count_nil]
        omega
  · cases hq

theorem Inv.next (hs : Inv n s) (h : s.Step e s') (hok : s.Orderly e) : Inv n s' := by
  unfold Step MsgPool.next at h
  cases e with
  | alloc i =>
    dsimp only at h
    split at h
    · rename_i hout
      have ha := hs.agrees i
      rw [hout] at ha
      refine hs.dequeue ?_ (fun m => by rw [hout]; nofun) hok h
      rcases ha with ha | ha
      · rw [ha]
        rfl
      · rw [ha]
        rfl
    · cases h
  | step i => exact hs.step hok h
  | retry i =>
    dsimp only at h
    split at h
    · rename_i hcpu hpc
      exact hs.dequeue (by rw [hpc]; rfl) (fun m => by rw [hcpu]; nofun) hok h
    · cases h
  | got i =>
    dsimp only at h
    split at h
    · rename_i m hcpu hpc
      split at h
      · cases h
        exact hs.onward (hs.lt (by rw [hpc]; nofun)) hs.queue hs.fits (update_eq_self i s.queue.pc).symm rfl hpc (fun _ => rfl)
          fun k hk => by rw [hcpu] at hk; cases hk
      · cases h
    · cases h
  | use i r =>
    dsimp only at h
    split at h
    · rename_i m hcpu
      cases h
      refine ⟨hs.queue, hs.fits, hs.threads, hs.agrees, hs.once, fun k hk => ?_⟩
      by_cases hkm : k = m
      · exact ⟨i, hkm ▸ hcpu⟩
      · have hk : update s.refCount m r k ≠ 0 := hk
        rw [update_of_ne hkm] at hk
        exact hs.unused k hk
    · cases h
  | free i =>
    dsimp only at h
    split at h
    · rename_i m hcpu
      split at h
      · rename_i hze
        have ha := hs.agrees i
        rw [hcpu] at ha
        refine hs.enqueue ?_ (fun k hk => ?_) h
        · rw [show s.queue.pc i = .dequeued (some m) from ha]
          rfl
        · rw [hcpu] at hk
          cases hk
          exact hze
      · cases h
    · cases h
  | again i =>
    dsimp only at h
    split at h
    · rename_i m x seen hcpu hpc
      have ha := hs.agrees i
      rw [hcpu, hpc] at ha
      obtain rfl : x = m := ha.2 x (mem_singleton_self x)
      exact hs.enqueue (by rw [hpc]; rfl) (fun k hk => by rw [hcpu] at hk; cases hk) h
    · cases h
  | freed i =>
    dsimp only at h
    split at h
    · rename_i m hcpu hpc
      cases h
      exact hs.onward (hs.lt (by rw [hpc]; nofun)) hs.queue hs.fits (update_eq_self i s.queue.pc).symm rfl (.inr hpc) (fun _ => rfl)
        fun k hk => by rw [hcpu] at hk; cases hk
    · cases h

end

/-! ## Runs -/

structure Safe (n : Nat) (s : MsgPool) : Prop where
  faults : ∀ e, s.next e ≠ .error .assert ∧ s.next e ≠ .error .bounds
  index : ∀ i k, s.queue.pc i = .take k → k < s.queue.capacity
  holds : ∀ i m, s.cpu i = .holding m → m ∈ (s.queue.pc i).carry
  handed : ∀ i j m, m ∈ (s.queue.pc i).carry → m ∈ (s.queue.pc j).carry → i = j
  kept : ∀ m < n, (∃ i < n, m ∈ (s.queue.pc i).carry) ↔ m ∉ s.queue.claimed.drop s.queue.taken.length
  queue : s.queue.Correct

section
variable {n i : Nat} {s : MsgPool}

theorem Inv.lt_of_carry {m : Nat} (hs : Inv n s) (hm : m ∈ (s.queue.pc i).carry) : i < n := by
  refine hs.lt fun h => ?_
  rw [h] at hm
  cases hm

theorem Inv.count_drop (hs : Inv n s) (m : Nat) :
    (s.queue.claimed.drop s.queue.taken.length).count m + s.queue.taken.count m = s.queue.claimed.count m := by
  obtain ⟨rest, hre⟩ := hs.queue.order
  rw [← hre, drop_left, count_append]
  omega

theorem Inv.handed {j m : Nat} (hs : Inv n s) (hi : m ∈ (s.queue.pc i).carry) (hj : m ∈ (s.queue.pc j).carry) :
    i = j := by
  by_contra hne
  have htwo := add_le_tally (g := s.queue.pc) (fun q => q.carry.count m) (hs.lt_of_carry hi) (hs.lt_of_carry hj) hne
  have := count_pos_iff.mpr hi
  have := count_pos_iff.mpr hj
  have hon := hs.once m
  have hdr := hs.count_drop m
  split at hon
  · omega
  · omega

theorem Inv.faults (hs : Inv n s) (e : PoolEvent) : s.next e ≠ .error .assert ∧ s.next e ≠ .error .bounds := by
  have hqu : ∀ i c e, s.onQueue i c e ≠ .error .assert ∧ s.onQueue i c e ≠ .error .bounds := by
    intro i c e
    obtain ⟨ha, hb⟩ := hs.queue.no_fault hs.fits e
    unfold onQueue
    split
    · rename_i rc hrc
      rw [hrc] at ha hb
      exact ⟨fun h => ha (by cases h; rfl), fun h => hb (by cases h; rfl)⟩
    · exact ⟨nofun, nofun⟩
  unfold MsgPool.next
  cases e with
  | got i =>
    dsimp only
    split
    · rename_i m hcpu hpc
      -- a message with references is held, and this CPU does not hold it yet
      have hze : s.refCount m = 0 := by
        by_contra hne
        obtain ⟨j, hj⟩ := hs.unused m hne
        have ha := hs.agrees j
        rw [hj] at ha
        have hij : i = j := hs.handed (m := m) (by rw [hpc]; exact mem_singleton_self m)
          (by rw [show s.queue.pc j = .dequeued (some m) from ha]; exact mem_singleton_self m)
        rw [← hij, hcpu] at hj
        cases hj
      rw [if_pos hze]
      exact ⟨nofun, nofun⟩
    · exact ⟨nofun, nofun⟩
  | alloc | retry | again =>
    dsimp only
    split
    · exact hqu _ _ _
    · exact ⟨nofun, nofun⟩
  | step i => exact hqu _ _ _
  | use | freed =>
    dsimp only
    split
    · exact ⟨nofun, nofun⟩
    · exact ⟨nofun, nofun⟩
  | free i =>
    dsimp only
    split
    · split
      · exact hqu _ _ _
      · exact ⟨nofun, nofun⟩
    · exact ⟨nofun, nofun⟩

theorem Inv.safe (hs : Inv n s) : Safe n s where
  faults := hs.faults
  index i k hk := by
    have ht := hs.queue.tailAt i
    rw [hk] at ht
    rw [show k = s.queue.taken.length % s.queue.capacity from ht]
    exact mod_lt _ hs.queue.cap
  holds i m hm := by
    have ha := hs.agrees i
    rw [hm] at ha
    rw [show s.queue.pc i = .dequeued (some m) from ha]
    exact mem_singleton_self m
  handed i j m := hs.handed
  kept m hm := by
    have hon := hs.once m
    have hdr := hs.count_drop m
    rw [if_pos hm] at hon
    constructor
    · rintro ⟨i, hi, hmem⟩ hin
      have hle := le_tally (g := s.queue.pc) (fun q => q.carry.count m) hi
      have := count_pos_iff.mpr hmem
      have := count_pos_iff.mpr hin
      omega
    · intro hout
      by_contra hnn
      have hze : tally n s.queue.pc (fun q => q.carry.count m) = 0 := tally_eq_zero fun i hi =>
        count_eq_zero.mpr fun hmem => hnn ⟨i, hi, hmem⟩
      have := count_eq_zero.mpr hout
      omega
  queue := hs.queue.correct hs.fits

theorem pool_safe_of_orderly (hn : 0 < n) (hword : n + n < WORD) (hr : Run Step Orderly (init n) s) : Safe n s := by
  have hinv : Inv n s := Run.invariant hr (inv_init hn hword) fun _ _ _ hs h hok => hs.next h hok
  exact hinv.safe

instance (s : MsgPool) : (e : PoolEvent) → Decidable (Orderly s e)
  | .alloc _ | .retry _ => inferInstanceAs (Decidable (_ = _))
  | .step _ => inferInstanceAs (Decidable (_ ∨ _ ∨ _))
  | .got _ | .use _ _ | .free _ | .again _ | .freed _ => .isTrue trivial

theorem pool_safe_two : ∃ s, Run Step Orderly (init 2) s ∧ s.cpu 0 = .holding 0 ∧ s.queue.claimed = [0, 1, 1] ∧ Safe 2 s := by
  obtain ⟨s, hr, hcpu, hcl⟩ := exists_follow_except MsgPool.next Orderly
    [.alloc 0, .step 0, .step 0, .step 0, .step 0, .got 0, .alloc 1, .step 1, .step 1, .step 1, .step 1, .step 1,
      .got 1, .use 1 1, .use 1 0, .free 1, .step 1, .step 1, .step 1, .step 1, .freed 1]
    (init 2) (fun s => s.cpu 0 = .holding 0 ∧ s.queue.claimed = [0, 1, 1]) (by decide +kernel)
  exact ⟨s, hr, hcpu, hcl, pool_safe_of_orderly (by decide) (by decide) hr⟩

/-- CPU 1 has taken the message of the last slot and not reset `tail` yet when CPU 0 reads it. -/
theorem dequeue_past_slots : ∃ s, Run Step (fun _ _ => True) (init 2) s ∧ s.queue.pc 0 = .take 2 ∧
    s.queue.capacity = 2 ∧ s.next (.step 0) = .error .bounds := by
  obtain ⟨s, hr, hpc, hcap⟩ := exists_follow_except MsgPool.next (fun _ _ => True)
    [.alloc 0, .step 0, .step 0, .step 0, .step 0, .got 0, .alloc 1, .step 1, .step 1, .step 1,
      .free 0, .step 0, .step 0, .step 0, .step 0, .freed 0, .alloc 0, .step 0]
    (init 2) (fun s => s.queue.pc 0 = .take 2 ∧ s.queue.capacity = 2 ∧ s.queue.threads = 2) (by decide +kernel)
  refine ⟨s, hr, hpc, hcap.1, ?_⟩
  unfold MsgPool.next onQueue Mpsc.next Mpsc.stepThread
  dsimp only
  rw [hcap.2, if_pos (by decide), hpc]
  dsimp only
  rw [hcap.1, if_neg (by decide)]

end

end MsgPool

end Yagura
