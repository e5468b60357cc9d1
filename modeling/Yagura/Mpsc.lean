import Yagura.Tickets

/-!
# The queue of `mpsc.h`

Any number of threads run `mpsc_enqueue` and `mpsc_dequeue`; a step is one
atomic operation of one of them. `head` and `size` are 32 bits wide. The source
means one thread at a time to dequeue, which nothing in it enforces; the
results below are about runs in which that is so.
-/

namespace Yagura

open Function List Nat

def WORD : Nat := 2 ^ 32

/-- Where a thread stands: before the named operation, or back from a call. `pos` counts the claims of `head`
without wrapping; `seen` is the `size` that the call has read. -/
inductive MpscPc (α : Type)
  | idle
  /-- `atomic_fetch_add(&size, 1)` -/
  | reserve (x : α)
  /-- `atomic_fetch_sub(&size, 1)` of a queue that is full -/
  | refuse (x : α) (seen : Nat)
  | refused (x : α) (seen : Nat)
  /-- `atomic_fetch_add(&head, 1)` -/
  | claim (x : α)
  /-- `ASSERT(!*slot)` -/
  | check (x : α) (head pos : Nat)
  /-- `ASSERT(!atomic_exchange(slot, x))` -/
  | publish (x : α) (head pos : Nat)
  | enqueued
  /-- `&slots[tail]` -/
  | load
  /-- `atomic_exchange(slot, 0)` -/
  | take (slot : Nat)
  /-- `++tail` -/
  | advance (x : α)
  /-- `tail = 0` -/
  | wrap (x : α)
  /-- `ASSERT(atomic_fetch_sub(&size, 1))` -/
  | release (x : α)
  | dequeued (x : Option α)
  deriving DecidableEq

namespace MpscPc

variable {α : Type}

def back : MpscPc α → Bool
  | .idle | .refused _ _ | .enqueued | .dequeued _ => true
  | _ => false

def dequeuing : MpscPc α → Nat
  | .load | .take _ | .advance _ | .wrap _ | .release _ => 1
  | _ => 0

/-- `size` counts an attempt that is going to be refused. -/
def refusing : MpscPc α → Nat
  | .refuse _ _ => 1
  | _ => 0

def claiming : MpscPc α → Nat
  | .claim _ => 1
  | _ => 0

def releasing : MpscPc α → Nat
  | .advance _ | .wrap _ | .release _ => 1
  | _ => 0

def moving : MpscPc α → Bool
  | .advance _ | .wrap _ => true
  | _ => false

def pos : MpscPc α → Option Nat
  | .check _ _ j | .publish _ _ j => some j
  | _ => none

def consumes : MpscPc α → Bool
  | .load | .take _ | .advance _ | .wrap _ | .release _ | .dequeued _ => true
  | _ => false

def carry : MpscPc α → List α
  | .reserve x | .refuse x _ | .refused x _ | .claim x | .advance x | .wrap x | .release x | .dequeued (some x) => [x]
  | _ => []

end MpscPc

/-- `claimed` are the elements in the order in which they got their positions, `taken` those that were dequeued. -/
structure Mpsc (α : Type) where
  capacity : Nat
  size : Nat
  head : Nat
  tail : Nat
  slots : Nat → Option α
  threads : Nat
  pc : Nat → MpscPc α
  claimed : List α
  taken : List α

inductive MpscFault
  | unable
  | assert
  | bounds
  deriving DecidableEq

inductive MpscEvent (α : Type)
  | enqueue (t : Nat) (x : α)
  | dequeue (t : Nat)
  | step (t : Nat)

namespace Mpsc

variable {α : Type}

def create (capacity threads : Nat) : Mpsc α := ⟨capacity, 0, 0, 0, fun _ => none, threads, fun _ => .idle, [], []⟩

def goto (s : Mpsc α) (t : Nat) (p : MpscPc α) : Mpsc α := { s with pc := update s.pc t p }

def stepThread (s : Mpsc α) (t : Nat) : Except MpscFault (Mpsc α) :=
  match s.pc t with
  | .idle | .refused _ _ | .enqueued | .dequeued _ => .error .unable
  | .reserve x =>
    .ok ({ s with size := (s.size + 1) % WORD }.goto t (if s.capacity ≤ s.size then .refuse x s.size else .claim x))
  | .refuse x seen => .ok ({ s with size := (s.size + (WORD - 1)) % WORD }.goto t (.refused x seen))
  | .claim x =>
    .ok ({ s with head := (s.head + 1) % WORD, claimed := s.claimed ++ [x] }.goto t
      (.check x s.head s.claimed.length))
  | .check x h j =>
    if (s.slots (h % s.capacity)).isSome then .error .assert else .ok (s.goto t (.publish x h j))
  | .publish x h _ =>
    if (s.slots (h % s.capacity)).isSome then .error .assert
    else .ok ({ s with slots := update s.slots (h % s.capacity) (some x) }.goto t .enqueued)
  | .load => .ok (s.goto t (.take s.tail))
  | .take k =>
    if k < s.capacity then
      match s.slots k with
      | none => .ok (s.goto t (.dequeued none))
      | some x =>
        .ok ({ s with slots := update s.slots k none, taken := s.taken ++ [x] }.goto t (.advance x))
    else .error .bounds
  | .advance x =>
    .ok ({ s with tail := (s.tail + 1) % WORD }.goto t (if s.capacity ≤ (s.tail + 1) % WORD then .wrap x else .release x))
  | .wrap x => .ok ({ s with tail := 0 }.goto t (.release x))
  | .release x => if s.size = 0 then .error .assert else .ok ({ s with size := s.size - 1 }.goto t (.dequeued (some x)))

def next (s : Mpsc α) : MpscEvent α → Except MpscFault (Mpsc α)
  | .enqueue t x => if t < s.threads ∧ (s.pc t).back then .ok (s.goto t (.reserve x)) else .error .unable
  | .dequeue t => if t < s.threads ∧ (s.pc t).back then .ok (s.goto t .load) else .error .unable
  | .step t => if t < s.threads then s.stepThread t else .error .unable

def Step (s : Mpsc α) (e : MpscEvent α) (s' : Mpsc α) : Prop := s.next e = .ok s'

/-- No call of `mpsc_dequeue` begins while another one is in progress. -/
def Alone (s : Mpsc α) : MpscEvent α → Prop
  | .dequeue _ => tally s.threads s.pc MpscPc.dequeuing = 0
  | _ => True

/-- Positions and the values of `head` fall into the same slots. -/
def Fits (s : Mpsc α) : Prop := s.claimed.length < WORD ∨ s.capacity ∣ WORD

theorem Step.cases {s s' : Mpsc α} {e : MpscEvent α} (h : s.Step e s') :
    (∃ t x, e = .enqueue t x ∧ (t < s.threads ∧ (s.pc t).back = true) ∧ s' = s.goto t (.reserve x)) ∨
    (∃ t, e = .dequeue t ∧ (t < s.threads ∧ (s.pc t).back = true) ∧ s' = s.goto t .load) ∨
    ∃ t, e = .step t ∧ t < s.threads ∧ s.stepThread t = .ok s' := by
  unfold Step Mpsc.next at h
  cases e with
  | enqueue t x =>
    dsimp only at h
    split at h
    · next hcan => exact .inl ⟨t, x, rfl, hcan, (Except.ok.inj h).symm⟩
    · cases h
  | dequeue t =>
    dsimp only at h
    split at h
    · next hcan => exact .inr (.inl ⟨t, rfl, hcan, (Except.ok.inj h).symm⟩)
    · cases h
  | step t =>
    dsimp only at h
    split at h
    · next ht => exact .inr (.inr ⟨t, rfl, ht, h⟩)
    · cases h

/-! ## The invariant -/

def TailAt (s : Mpsc α) : MpscPc α → Prop
  | .take k => k = s.taken.length % s.capacity
  | .advance _ => ∃ T, s.taken.length = T + 1 ∧ s.tail = T % s.capacity
  | .wrap _ => s.taken.length % s.capacity = 0
  | _ => True

def Carries (s : Mpsc α) : MpscPc α → Prop
  | .check x h j | .publish x h j => s.claimed[j]? = some x ∧ h = j % WORD
  | .refuse _ seen | .refused _ seen => s.capacity ≤ seen
  | _ => True

/-- `size` counts what is stored and the calls in progress that it has not been corrected for. Elements with a
position, those about to get one and those taken but still counted fit into the slots. -/
structure Inv (s : Mpsc α) : Prop where
  cap : 0 < s.capacity
  word : s.threads + s.capacity < WORD
  outside : ∀ t, s.threads ≤ t → s.pc t = .idle
  size : s.size + s.taken.length = tally s.threads s.pc MpscPc.refusing + tally s.threads s.pc MpscPc.claiming +
    tally s.threads s.pc MpscPc.releasing + s.claimed.length
  room : tally s.threads s.pc MpscPc.claiming + tally s.threads s.pc MpscPc.releasing + s.claimed.length ≤
    s.taken.length + s.capacity
  alone : tally s.threads s.pc MpscPc.dequeuing ≤ 1
  order : s.taken <+: s.claimed
  head : s.head = s.claimed.length % WORD
  tickets : Tickets s.capacity s.taken.length s.claimed s.slots fun t => (s.pc t).pos
  carries : ∀ t, s.Carries (s.pc t)
  tailAt : ∀ t, s.TailAt (s.pc t)
  rest : (∀ t, (s.pc t).moving = false) → s.tail = s.taken.length % s.capacity

section
variable {s s' : Mpsc α} {t u : Nat} {p : MpscPc α}

theorem inv_of_idle (hcap : 0 < s.capacity) (hwo : s.threads + s.capacity < WORD) (hpc : ∀ t, s.pc t = .idle)
    (hta : s.taken = []) (hsi : s.size = s.claimed.length) (hhe : s.head = s.claimed.length % WORD)
    (hti : s.tail = 0) (htc : Tickets s.capacity 0 s.claimed s.slots fun _ => none) : s.Inv := by
  have hze : ∀ f : MpscPc α → Nat, f .idle = 0 → tally s.threads s.pc f = 0 := fun f hf =>
    tally_eq_zero fun t _ => by rw [hpc t, hf]
  have hro := htc.room
  refine ⟨hcap, hwo, fun t _ => hpc t, ?_, ?_, ?_, ?_, hhe, ?_, fun t => ?_, fun t => ?_, fun _ => ?_⟩
  · rw [hze _ rfl, hze _ rfl, hze _ rfl, hsi, hta]
    simp
  · rw [hze _ rfl, hze _ rfl, hta]
    simpa using hro
  · rw [hze _ rfl]
    exact zero_le _
  · rw [hta]
    exact nil_prefix
  · rw [hta]
    exact htc.congr fun t => by rw [hpc t]; rfl
  · rw [hpc t]
    trivial
  · rw [hpc t]
    trivial
  · rw [hti, hta]
    exact (zero_mod _).symm

theorem inv_create {capacity threads : Nat} (hc : 0 < capacity) (hw : threads + capacity < WORD) :
    (create capacity threads : Mpsc α).Inv :=
  inv_of_idle hc hw (fun _ => rfl) rfl rfl rfl rfl (.empty _)

theorem Inv.only (hs : s.Inv) (ht : t < s.threads) (htd : (s.pc t).dequeuing = 1) (hne : u ≠ t) :
    (s.pc u).dequeuing = 0 := by
  by_cases hu : u < s.threads
  · have hle := add_le_tally (g := s.pc) MpscPc.dequeuing ht hu hne.symm
    have := hs.alone
    omega
  · rw [hs.outside u (Nat.le_of_not_lt hu)]
    rfl

theorem tally_le {n : Nat} {g : Nat → MpscPc α} {f : MpscPc α → Nat} (h : ∀ a, f a ≤ 1) : tally n g f ≤ n := by
  have := Finset.sum_le_card_nsmul (Finset.range n) (fun i => f (g i)) 1 fun i _ => h (g i)
  simpa [tally] using this

theorem refusing_le (p : MpscPc α) : p.refusing ≤ 1 := by
  unfold MpscPc.refusing
  split
  · exact le_rfl
  · exact zero_le _

theorem not_moving (h : p.dequeuing = 0) : p.moving = false := by
  cases p with
  | advance x => cases h
  | wrap x => cases h
  | _ => rfl

theorem tallies_update {n : Nat} {g : Nat → MpscPc α} (ht : t < n) (p : MpscPc α) :
    tally n (update g t p) MpscPc.refusing + (g t).refusing = tally n g MpscPc.refusing + p.refusing ∧
    tally n (update g t p) MpscPc.claiming + (g t).claiming = tally n g MpscPc.claiming + p.claiming ∧
    tally n (update g t p) MpscPc.releasing + (g t).releasing = tally n g MpscPc.releasing + p.releasing ∧
    tally n (update g t p) MpscPc.dequeuing + (g t).dequeuing = tally n g MpscPc.dequeuing + p.dequeuing :=
  ⟨tally_update _ ht p, tally_update _ ht p, tally_update _ ht p, tally_update _ ht p⟩

theorem Inv.move (hs : s.Inv) (ht : t < s.threads) (hcap : s'.capacity = s.capacity) (hth : s'.threads = s.threads)
    (hpc : s'.pc = update s.pc t p)
    (hsi : s'.size + s'.taken.length + (s.pc t).refusing + (s.pc t).claiming + (s.pc t).releasing +
      s.claimed.length = s.size + s.taken.length + p.refusing + p.claiming + p.releasing + s'.claimed.length)
    (hro : tally s.threads s.pc MpscPc.claiming + tally s.threads s.pc MpscPc.releasing + s'.claimed.length +
      p.claiming + p.releasing ≤ s'.taken.length + s.capacity + (s.pc t).claiming + (s.pc t).releasing)
    (hal : tally s.threads s.pc MpscPc.dequeuing + p.dequeuing ≤ 1 + (s.pc t).dequeuing)
    (hor : s'.taken <+: s'.claimed) (hhe : s'.head = s'.claimed.length % WORD)
    (hti : Tickets s.capacity s'.taken.length s'.claimed s'.slots (update (fun u => (s.pc u).pos) t p.pos))
    (hca : s'.Carries p ∧ ∀ u, u ≠ t → s'.Carries (s.pc u))
    (htailAt : s'.TailAt p ∧ ∀ u, u ≠ t → s'.TailAt (s.pc u))
    (hre : p.moving = false → (∀ u, u ≠ t → (s.pc u).moving = false) → s'.tail = s'.taken.length % s.capacity) :
    s'.Inv := by
  obtain ⟨h1, h2, h3, h4⟩ := tallies_update (g := s.pc) ht p
  have hold := hs.size
  obtain ⟨capacity, size, head, tail, slots, threads, pc, claimed, taken⟩ := s'
  dsimp only at *
  subst hcap hth hpc
  refine ⟨hs.cap, hs.word, fun u hu => ?_, ?_, ?_, ?_, hor, hhe, ?_, ?_, ?_, fun h => ?_⟩
  · dsimp only at hu ⊢
    rw [update_of_ne (by omega)]
    exact hs.outside u hu
  · dsimp only
    omega
  · dsimp only
    omega
  · dsimp only
    omega
  · exact hti.congr fun u => congrFun (comp_update MpscPc.pos s.pc t p) u
  · exact (forall_update_iff s.pc fun _ q => Carries _ q).mpr hca
  · exact (forall_update_iff s.pc fun _ q => TailAt _ q).mpr htailAt
  · have h := (forall_update_iff s.pc fun _ q => q.moving = false).mp h
    exact hre h.1 h.2

theorem Inv.goto (hs : s.Inv) (ht : t < s.threads) (heq : s' = { s with size := s'.size, tail := s'.tail }.goto t p)
    (hsi : s'.size + (s.pc t).refusing + (s.pc t).claiming + (s.pc t).releasing =
      s.size + p.refusing + p.claiming + p.releasing)
    (hro : tally s.threads s.pc MpscPc.claiming + tally s.threads s.pc MpscPc.releasing + s.claimed.length +
      p.claiming + p.releasing ≤ s.taken.length + s.capacity + (s.pc t).claiming + (s.pc t).releasing)
    (hal : tally s.threads s.pc MpscPc.dequeuing + p.dequeuing ≤ 1 + (s.pc t).dequeuing)
    (hpos : p.pos = (s.pc t).pos) (hca : s.Carries p)
    (hta : s'.tail = s.tail ∨ (s.pc t).dequeuing = 1) (htailAt : { s with tail := s'.tail }.TailAt p)
    (hre : p.moving = false → (∀ u, u ≠ t → (s.pc u).moving = false) → s'.tail = s.taken.length % s.capacity) :
    s'.Inv := by
  rw [heq]
  refine hs.move ht rfl rfl rfl ?_ hro hal hs.order hs.head ?_ ⟨hca, fun u _ => hs.carries u⟩
    ⟨htailAt, fun u hut => ?_⟩ hre
  · simp only [Mpsc.goto]
    omega
  · rw [hpos]
    exact hs.tickets.congr fun u => congrFun (update_eq_self t fun u => (s.pc u).pos) u
  · rcases hta with hta | hdeq
    · have hu := hs.tailAt u
      rwa [show s = { s with tail := s'.tail } by rw [hta]] at hu
    · -- no other thread is in `mpsc_dequeue`, and the others know nothing of `tail`
      have hu := hs.only ht hdeq hut
      cases hpu : s.pc u with
      | take | advance | wrap => rw [hpu] at hu; cases hu
      | _ => trivial

end

/-! ## Steps -/

section
variable {s s' : Mpsc α} {t : Nat} {x : α} {p : MpscPc α}

theorem Inv.size_le (hs : s.Inv) : s.size ≤ tally s.threads s.pc MpscPc.refusing + s.capacity := by
  have h1 := hs.size
  have h2 := hs.room
  omega

theorem Inv.tail_of (hs : s.Inv) (ht : (s.pc t).moving = false) (hu : ∀ u, u ≠ t → (s.pc u).moving = false) :
    s.tail = s.taken.length % s.capacity := by
  refine hs.rest fun u => ?_
  by_cases hut : u = t
  · exact hut ▸ ht
  · exact hu u hut

theorem Inv.keep (hs : s.Inv) (ht : t < s.threads) (heq : s' = { s with tail := s'.tail }.goto t p)
    (hp : p.refusing = (s.pc t).refusing ∧ p.claiming = (s.pc t).claiming ∧ p.releasing = (s.pc t).releasing ∧
      p.pos = (s.pc t).pos) (hal : tally s.threads s.pc MpscPc.dequeuing + p.dequeuing ≤ 1 + (s.pc t).dequeuing)
    (hca : s.Carries p) (hta : s'.tail = s.tail ∨ (s.pc t).dequeuing = 1)
    (htailAt : { s with tail := s'.tail }.TailAt p)
    (hre : p.moving = false → (∀ u, u ≠ t → (s.pc u).moving = false) → s'.tail = s.taken.length % s.capacity) :
    s'.Inv := by
  obtain ⟨h1, h2, h3, h4⟩ := hp
  have hsi : s'.size = s.size := by rw [heq]; rfl
  refine hs.goto ht (by rw [hsi]; exact heq) ?_ ?_ hal h4 hca hta htailAt hre
  · rw [h1, h2, h3, hsi]
  · have := hs.room
    omega

theorem Fits.slot (hfit : s.Fits) {j : Nat} (hj : j < s.claimed.length) : j % WORD % s.capacity = j % s.capacity := by
  rcases hfit with hlt | hdvd
  · rw [mod_eq_of_lt (by omega : j < WORD)]
  · exact mod_mod_of_dvd j hdvd

theorem Inv.slot_empty (hs : s.Inv) (hfit : s.Fits) {h j : Nat} (hpos : (s.pc t).pos = some j) (hh : h = j % WORD) :
    h % s.capacity = j % s.capacity ∧ s.slots (h % s.capacity) = none := by
  obtain ⟨-, hj, hsl⟩ := hs.tickets.pending t j hpos
  have heq : h % s.capacity = j % s.capacity := by rw [hh, hfit.slot hj]
  exact ⟨heq, by rw [heq]; exact hsl⟩

theorem Inv.step_reserve (hs : s.Inv) (ht : t < s.threads) (hpc : s.pc t = .reserve x) :
    ({ s with size := (s.size + 1) % WORD }.goto t (if s.capacity ≤ s.size then .refuse x s.size else .claim x)).Inv := by
  have hup := tally_update (g := s.pc) MpscPc.refusing ht (.refuse x 0)
  have hle : tally s.threads (update s.pc t (.refuse x 0)) MpscPc.refusing ≤ s.threads := tally_le refusing_le
  rw [hpc] at hup
  simp only [MpscPc.refusing] at hup
  have hwo := hs.word
  have hsi := hs.size
  have hro := hs.room
  rw [mod_eq_of_lt (by omega : s.size + 1 < WORD)]
  by_cases hfull : s.capacity ≤ s.size
  · rw [if_pos hfull]
    refine hs.goto ht rfl ?_ ?_ ?_ ?_ hfull (.inl rfl) trivial fun _ => hs.tail_of ?_
    all_goals rw [hpc]
    · rfl
    · exact hro
    · exact hs.alone
    · rfl
    · rfl
  · rw [if_neg hfull]
    refine hs.goto ht rfl ?_ ?_ ?_ ?_ trivial (.inl rfl) trivial fun _ => hs.tail_of ?_
    all_goals rw [hpc]
    · rfl
    · simp only [MpscPc.claiming, MpscPc.releasing]
      omega
    · exact hs.alone
    · rfl
    · rfl

theorem Inv.step_refuse {seen : Nat} (hs : s.Inv) (ht : t < s.threads) (hpc : s.pc t = .refuse x seen) :
    ({ s with size := (s.size + (WORD - 1)) % WORD }.goto t (.refused x seen)).Inv := by
  have hone := le_tally (g := s.pc) MpscPc.refusing ht
  rw [hpc] at hone
  simp only [MpscPc.refusing] at hone
  have hle : tally s.threads s.pc MpscPc.refusing ≤ s.threads := tally_le refusing_le
  have hwo := hs.word
  have hsi := hs.size
  have hsle := hs.size_le
  have htle := hs.tickets.le
  have heq : (s.size + (WORD - 1)) % WORD = s.size - 1 := by
    rw [show s.size + (WORD - 1) = s.size - 1 + WORD by omega, add_mod_right]
    exact mod_eq_of_lt (by omega)
  have hse := hs.carries t
  rw [hpc] at hse
  rw [heq]
  refine hs.goto ht rfl ?_ ?_ ?_ ?_ hse (.inl rfl) trivial fun _ => hs.tail_of ?_
  all_goals rw [hpc]
  · simp only [Mpsc.goto, MpscPc.refusing, MpscPc.claiming, MpscPc.releasing]
    omega
  · exact hs.room
  · exact hs.alone
  · rfl
  · rfl

theorem Inv.step_claim (hs : s.Inv) (ht : t < s.threads) (hpc : s.pc t = .claim x) :
    ({ s with head := (s.head + 1) % WORD, claimed := s.claimed ++ [x] }.goto t
      (.check x s.head s.claimed.length)).Inv := by
  have hlen : (s.claimed ++ [x]).length = s.claimed.length + 1 := length_append
  have hro := hs.room
  have hone := le_tally (g := s.pc) MpscPc.claiming ht
  have hget : ∀ j y, s.claimed[j]? = some y → (s.claimed ++ [x])[j]? = some y := fun j y hj => by
    rw [getElem?_append_left (getElem?_eq_some_iff.mp hj).1, hj]
  rw [hpc] at hone
  simp only [MpscPc.claiming] at hone
  refine hs.move ht rfl rfl rfl ?_ ?_ ?_ (hs.order.trans (prefix_append _ _)) ?_
    (hs.tickets.claim (by omega) (by rw [hpc]; rfl) x) ⟨⟨getElem?_concat_length, hs.head⟩, fun u _ => ?_⟩
    ⟨trivial, fun u _ => hs.tailAt u⟩ fun _ => hs.tail_of (by rw [hpc]; rfl)
  · rw [hpc]
    simp only [Mpsc.goto, hlen, MpscPc.refusing, MpscPc.claiming, MpscPc.releasing]
    omega
  · rw [hpc]
    simp only [Mpsc.goto, hlen, MpscPc.claiming, MpscPc.releasing]
    omega
  · rw [hpc]
    exact hs.alone
  · simp only [Mpsc.goto, hlen]
    rw [hs.head, mod_add_mod]
  · have hu := hs.carries u
    cases hpu : s.pc u with
    | check y _ j | publish y _ j =>
      rw [hpu] at hu
      exact ⟨hget j y hu.1, hu.2⟩
    | refuse | refused =>
      rw [hpu] at hu
      exact hu
    | _ => trivial

end

section
variable {s s' : Mpsc α} {t : Nat} {x : α}

section
variable (hs : s.Inv)
include hs

theorem Inv.step_check {h j : Nat} (ht : t < s.threads) (hpc : s.pc t = .check x h j) :
    (s.goto t (.publish x h j)).Inv := by
  have hca := hs.carries t
  rw [hpc] at hca
  refine hs.keep ht rfl ?_ ?_ hca (.inl rfl) trivial fun _ => hs.tail_of ?_
  all_goals rw [hpc]
  · exact ⟨rfl, rfl, rfl, rfl⟩
  · exact hs.alone
  · rfl

theorem Inv.step_publish {h j : Nat} (hfit : s.Fits) (ht : t < s.threads) (hpc : s.pc t = .publish x h j) :
    ({ s with slots := update s.slots (h % s.capacity) (some x) }.goto t .enqueued).Inv := by
  have hca := hs.carries t
  rw [hpc] at hca
  have hpos : (s.pc t).pos = some j := by rw [hpc]; rfl
  rw [(hs.slot_empty hfit hpos hca.2).1]
  refine hs.move ht rfl rfl rfl ?_ ?_ ?_ hs.order hs.head (hs.tickets.publish hpos hca.1)
    ⟨trivial, fun u _ => hs.carries u⟩ ⟨trivial, fun u _ => hs.tailAt u⟩ fun _ => hs.tail_of (by rw [hpc]; rfl)
  all_goals rw [hpc]
  · rfl
  · exact hs.room
  · exact hs.alone

section
variable (ht : t < s.threads)
include ht

theorem Inv.step_load (hpc : s.pc t = .load) : (s.goto t (.take s.tail)).Inv := by
  have hdeq : (s.pc t).dequeuing = 1 := by rw [hpc]; rfl
  refine hs.keep ht rfl ?_ ?_ trivial (.inl rfl) (hs.tail_of ?_ fun u hut => not_moving (hs.only ht hdeq hut))
    fun _ => hs.tail_of ?_
  all_goals rw [hpc]
  · exact ⟨rfl, rfl, rfl, rfl⟩
  · exact Nat.add_le_add_right hs.alone 1
  · rfl
  · rfl

theorem Inv.step_miss {k : Nat} (hpc : s.pc t = .take k) : (s.goto t (.dequeued none)).Inv := by
  refine hs.keep ht rfl ?_ ?_ trivial (.inl rfl) trivial fun _ => hs.tail_of ?_
  all_goals rw [hpc]
  · exact ⟨rfl, rfl, rfl, rfl⟩
  · exact le_succ_of_le hs.alone
  · rfl

theorem Inv.step_take {k : Nat} (hpc : s.pc t = .take k) (hx : s.slots k = some x) :
    ({ s with slots := update s.slots k none, taken := s.taken ++ [x] }.goto t (.advance x)).Inv := by
  have hk := hs.tailAt t
  rw [hpc] at hk
  obtain rfl : k = s.taken.length % s.capacity := hk
  have hdeq : (s.pc t).dequeuing = 1 := by rw [hpc]; rfl
  have hot : ∀ u, u ≠ t → (s.pc u).dequeuing = 0 := fun u hut => hs.only ht hdeq hut
  have hta : s.tail = s.taken.length % s.capacity :=
    hs.tail_of (by rw [hpc]; rfl) fun u hut => not_moving (hot u hut)
  obtain ⟨hlt, hnx, -⟩ := hs.tickets.next_taken hx
  have hlen : (s.taken ++ [x]).length = s.taken.length + 1 := length_append
  have hro := hs.room
  refine hs.move ht rfl rfl rfl ?_ ?_ ?_ ?_ hs.head ?_ ⟨trivial, fun u _ => hs.carries u⟩
    ⟨⟨_, hlen, hta⟩, fun u hut => ?_⟩ nofun
  · rw [hpc]
    simp only [Mpsc.goto, hlen, MpscPc.refusing, MpscPc.claiming, MpscPc.releasing]
    omega
  · rw [hpc]
    simp only [Mpsc.goto, hlen, MpscPc.claiming, MpscPc.releasing]
    omega
  · rw [hpc]
    exact Nat.add_le_add_right hs.alone 1
  · obtain ⟨rest, hre⟩ := hs.order
    obtain ⟨y, ys, rfl⟩ : ∃ y ys, rest = y :: ys := by
      cases rest with
      | nil =>
        rw [← hre, append_nil] at hlt
        exact absurd hlt (Nat.lt_irrefl _)
      | cons y ys => exact ⟨y, ys, rfl⟩
    rw [← hre, getElem?_append_right le_rfl, Nat.sub_self] at hnx
    obtain rfl : y = x := Option.some.inj hnx
    exact ⟨ys, by rw [← hre]; simp [Mpsc.goto]⟩
  · simp only [Mpsc.goto, hlen]
    refine (hs.tickets.take hx).congr fun u => ?_
    rw [show (MpscPc.advance x).pos = (s.pc t).pos by rw [hpc]; rfl]
    exact congrFun (update_eq_self t fun u => (s.pc u).pos) u
  · have hu := hot u hut
    cases hpu : s.pc u with
    | take | advance | wrap => rw [hpu] at hu; cases hu
    | _ => trivial

theorem Inv.step_advance (hpc : s.pc t = .advance x) : ({ s with tail := (s.tail + 1) % WORD }.goto t
      (if s.capacity ≤ (s.tail + 1) % WORD then .wrap x else .release x)).Inv := by
  have hdeq : (s.pc t).dequeuing = 1 := by rw [hpc]; rfl
  have hat := hs.tailAt t
  rw [hpc] at hat
  obtain ⟨T, hT, hta⟩ := hat
  have hlt : s.tail < s.capacity := hta ▸ Nat.mod_lt _ hs.cap
  have hwo := hs.word
  rw [Nat.mod_eq_of_lt (by omega : s.tail + 1 < WORD)]
  -- the next position is in the next slot, or in the first one
  have hnx : s.taken.length % s.capacity = (s.tail + 1) % s.capacity := by rw [hT, hta, Nat.mod_add_mod]
  by_cases hwr : s.capacity ≤ s.tail + 1
  · rw [if_pos hwr]
    refine hs.keep ht rfl ?_ ?_ trivial (.inr hdeq) ?_ nofun
    · rw [hpc]
      exact ⟨rfl, rfl, rfl, rfl⟩
    · rw [hpc]
      exact Nat.add_le_add_right hs.alone 1
    · have heq : s.tail + 1 = s.capacity := by omega
      rw [heq, Nat.mod_self] at hnx
      exact hnx
  · rw [if_neg hwr]
    refine hs.keep ht rfl ?_ ?_ trivial (.inr hdeq) trivial fun _ _ => ?_
    · rw [hpc]
      exact ⟨rfl, rfl, rfl, rfl⟩
    · rw [hpc]
      exact Nat.add_le_add_right hs.alone 1
    · rw [hnx, Nat.mod_eq_of_lt (by omega : s.tail + 1 < s.capacity)]
      rfl

theorem Inv.step_wrap (hpc : s.pc t = .wrap x) : ({ s with tail := 0 }.goto t (.release x)).Inv := by
  have hdeq : (s.pc t).dequeuing = 1 := by rw [hpc]; rfl
  have hat := hs.tailAt t
  rw [hpc] at hat
  refine hs.keep ht rfl ?_ ?_ trivial (.inr hdeq) trivial fun _ _ => hat.symm
  all_goals rw [hpc]
  · exact ⟨rfl, rfl, rfl, rfl⟩
  · exact Nat.add_le_add_right hs.alone 1

theorem Inv.size_pos (hpc : s.pc t = .release x) : 0 < s.size := by
  have hone := le_tally (g := s.pc) MpscPc.releasing ht
  rw [hpc] at hone
  simp only [MpscPc.releasing] at hone
  have := hs.size
  have := hs.tickets.le
  omega

theorem Inv.step_release (hpc : s.pc t = .release x) :
    ({ s with size := s.size - 1 }.goto t (.dequeued (some x))).Inv := by
  have hpos := hs.size_pos ht hpc
  refine hs.goto ht rfl ?_ ?_ ?_ ?_ trivial (.inl rfl) trivial fun _ => hs.tail_of ?_
  all_goals rw [hpc]
  · simp only [Mpsc.goto, MpscPc.refusing, MpscPc.claiming, MpscPc.releasing]
    omega
  · exact le_succ_of_le hs.room
  · exact le_succ_of_le hs.alone
  · rfl
  · rfl

end

end

end

section
variable {s s' : Mpsc α} {e : MpscEvent α} {t : Nat}

theorem Inv.call {p : MpscPc α} (hs : s.Inv) (ht : t < s.threads) (hba : (s.pc t).back = true)
    (hp : p = .load ∨ ∃ x, p = .reserve x) (hal : tally s.threads s.pc MpscPc.dequeuing + p.dequeuing ≤ 1) :
    (s.goto t p).Inv := by
  have hze : (s.pc t).refusing = 0 ∧ (s.pc t).claiming = 0 ∧ (s.pc t).releasing = 0 ∧ (s.pc t).dequeuing = 0 ∧
      (s.pc t).pos = none ∧ (s.pc t).moving = false := by
    cases hpc : s.pc t with
    | idle | refused | enqueued | dequeued => exact ⟨rfl, rfl, rfl, rfl, rfl, rfl⟩
    | _ => rw [hpc] at hba; cases hba
  obtain ⟨hr, hc, hl, hd, hpos, hmov⟩ := hze
  rw [← add_zero 1, ← hd] at hal
  rcases hp with rfl | ⟨x, rfl⟩ <;>
    exact hs.keep ht rfl ⟨hr.symm, hc.symm, hl.symm, hpos.symm⟩ hal trivial (.inl rfl) trivial
      fun _ => hs.tail_of hmov

theorem Inv.stepThread (hs : s.Inv) (hfit : s.Fits) (ht : t < s.threads) :
    match s.stepThread t with
    | .ok s' => s'.Inv
    | .error rc => rc = .unable := by
  unfold Mpsc.stepThread
  cases hpc : s.pc t with
  | idle => rfl
  | refused x n => rfl
  | enqueued => rfl
  | dequeued o => rfl
  | reserve x => exact hs.step_reserve ht hpc
  | refuse x n => exact hs.step_refuse ht hpc
  | claim x => exact hs.step_claim ht hpc
  | check x h j =>
    have hca := hs.carries t
    rw [hpc] at hca
    have hem := hs.slot_empty hfit (by rw [hpc]; rfl) hca.2
    dsimp only
    rw [if_neg (by rw [hem.2]; nofun)]
    exact hs.step_check ht hpc
  | publish x h j =>
    have hca := hs.carries t
    rw [hpc] at hca
    have hem := hs.slot_empty hfit (by rw [hpc]; rfl) hca.2
    dsimp only
    rw [if_neg (by rw [hem.2]; nofun)]
    exact hs.step_publish hfit ht hpc
  | load => exact hs.step_load ht hpc
  | take k =>
    have hk := hs.tailAt t
    rw [hpc] at hk
    have hlt : k < s.capacity := by
      rw [show k = s.taken.length % s.capacity from hk]
      exact mod_lt _ hs.cap
    dsimp only
    rw [if_pos hlt]
    cases hx : s.slots k with
    | none => exact hs.step_miss ht hpc
    | some x => exact hs.step_take ht hpc hx
  | advance x => exact hs.step_advance ht hpc
  | wrap x => exact hs.step_wrap ht hpc
  | release x =>
    have hpos := hs.size_pos ht hpc
    dsimp only
    rw [if_neg (by omega)]
    exact hs.step_release ht hpc

theorem Inv.next (hs : s.Inv) (hfit : s.Fits) (h : s.Step e s') (hok : s.Alone e) : s'.Inv := by
  obtain ⟨t, x, rfl, hcan, rfl⟩ | ⟨t, rfl, hcan, rfl⟩ | ⟨t, rfl, ht, hst⟩ := h.cases
  · exact hs.call hcan.1 hcan.2 (.inr ⟨x, rfl⟩) hs.alone
  · have hze : tally s.threads s.pc MpscPc.dequeuing = 0 := hok
    exact hs.call hcan.1 hcan.2 (.inl rfl) (by rw [hze]; exact le_rfl)
  · have := hs.stepThread hfit ht
    rw [hst] at this
    exact this

theorem Inv.no_fault (hs : s.Inv) (hfit : s.Fits) (e : MpscEvent α) :
    s.next e ≠ .error .assert ∧ s.next e ≠ .error .bounds := by
  unfold Mpsc.next
  cases e with
  | enqueue | dequeue =>
    dsimp only
    split
    · exact ⟨nofun, nofun⟩
    · exact ⟨nofun, nofun⟩
  | step t =>
    dsimp only
    split
    · rename_i ht
      have hst := hs.stepThread hfit ht
      constructor
      · intro herr
        rw [herr] at hst
        cases hst
      · intro herr
        rw [herr] at hst
        cases hst
    · exact ⟨nofun, nofun⟩

structure Effect (s : Mpsc α) (t : Nat) (p : MpscPc α) (s' : Mpsc α) : Prop where
  pc : s'.pc = update s.pc t p
  capacity : s'.capacity = s.capacity
  threads : s'.threads = s.threads
  dequeuing : p.dequeuing ≤ (s.pc t).dequeuing
  consumes : p.consumes = (s.pc t).consumes
  elements : s'.claimed = s.claimed ∧ s'.taken = s.taken ∧ p.carry = (s.pc t).carry ∨
    (∃ x, s'.claimed = s.claimed ++ [x] ∧ s'.taken = s.taken ∧ s.pc t = .claim x ∧ p.carry = []) ∨
    ∃ x, s'.claimed = s.claimed ∧ s'.taken = s.taken ++ [x] ∧ (s.pc t).carry = [] ∧ p.carry = [x] ∧ p.consumes = true

theorem stepThread_effect (h : s.stepThread t = .ok s') : ∃ p, s.Effect t p s' := by
  have hqu : ∀ {p}, p.carry = (s.pc t).carry ∧ p.dequeuing ≤ (s.pc t).dequeuing ∧ p.consumes = (s.pc t).consumes →
      ∀ {u : Mpsc α}, u.pc = s.pc → u.capacity = s.capacity → u.threads = s.threads → u.claimed = s.claimed →
      u.taken = s.taken → s.Effect t p (u.goto t p) :=
    fun hp _ hpc hcap hth hcl htk => ⟨by rw [Mpsc.goto, hpc], hcap, hth, hp.2.1, hp.2.2, .inl ⟨hcl, htk, hp.1⟩⟩
  unfold Mpsc.stepThread at h
  cases hpc : s.pc t with
  | idle | refused | enqueued | dequeued => rw [hpc] at h; cases h
  | reserve | advance =>
    rw [hpc] at h
    cases h
    refine ⟨_, hqu ?_ rfl rfl rfl rfl rfl⟩
    rw [hpc]
    split
    · exact ⟨rfl, le_rfl, rfl⟩
    · exact ⟨rfl, le_rfl, rfl⟩
  | refuse x n =>
    rw [hpc] at h
    cases h
    exact ⟨_, hqu (by rw [hpc]; exact ⟨rfl, zero_le _, rfl⟩) rfl rfl rfl rfl rfl⟩
  | claim x =>
    rw [hpc] at h
    cases h
    exact ⟨_, rfl, rfl, rfl, by rw [hpc]; exact le_rfl, by rw [hpc]; rfl, .inr (.inl ⟨x, rfl, rfl, hpc, rfl⟩)⟩
  | check | publish | release =>
    rw [hpc] at h
    dsimp only at h
    split at h
    · cases h
    · cases h
      exact ⟨_, hqu (by rw [hpc]; exact ⟨rfl, zero_le _, rfl⟩) rfl rfl rfl rfl rfl⟩
  | load | wrap =>
    rw [hpc] at h
    cases h
    exact ⟨_, hqu (by rw [hpc]; exact ⟨rfl, le_rfl, rfl⟩) rfl rfl rfl rfl rfl⟩
  | take k =>
    rw [hpc] at h
    dsimp only at h
    split at h
    · split at h
      · cases h
        exact ⟨_, hqu (by rw [hpc]; exact ⟨rfl, zero_le _, rfl⟩) rfl rfl rfl rfl rfl⟩
      · rename_i x _
        cases h
        exact ⟨_, rfl, rfl, rfl, by rw [hpc]; exact le_rfl, by rw [hpc]; rfl, .inr (.inr ⟨x, rfl, rfl, by rw [hpc]; rfl, rfl, rfl⟩)⟩
    · cases h

theorem Step.grows (h : s.Step e s') :
    s'.capacity = s.capacity ∧ s'.threads = s.threads ∧ s.claimed.length ≤ s'.claimed.length := by
  obtain ⟨t, x, rfl, -, rfl⟩ | ⟨t, rfl, -, rfl⟩ | ⟨t, rfl, -, hst⟩ := h.cases
  · exact ⟨rfl, rfl, le_rfl⟩
  · exact ⟨rfl, rfl, le_rfl⟩
  · obtain ⟨p, heff⟩ := stepThread_effect hst
    refine ⟨heff.capacity, heff.threads, ?_⟩
    obtain ⟨hcl, -⟩ | ⟨x, hcl, -⟩ | ⟨x, hcl, -⟩ := heff.elements
    · rw [hcl]
    · rw [hcl, length_append]
      exact le_add_right _ _
    · rw [hcl]

end

/-! ## One consumer -/

def OneConsumer (k : Nat) (_ : Mpsc α) : MpscEvent α → Prop
  | .dequeue t => t = k
  | _ => True

instance (k : Nat) (s : Mpsc α) : (e : MpscEvent α) → Decidable (OneConsumer k s e)
  | .dequeue t => inferInstanceAs (Decidable (t = k))
  | .enqueue _ _ | .step _ => .isTrue trivial

/-- Claims are taken in order, none is lost, and `size` counts what is stored, in flight or just taken. -/
structure Correct (s : Mpsc α) : Prop where
  asserts : ∀ e, s.next e ≠ .error .assert ∧ s.next e ≠ .error .bounds
  order : s.taken <+: s.claimed
  kept : ∀ j, s.taken.length ≤ j → j < s.claimed.length →
    s.slots (j % s.capacity) = s.claimed[j]? ∨
      ∃ t x h, (s.pc t = .check x h j ∨ s.pc t = .publish x h j) ∧ s.claimed[j]? = some x
  stored : ∀ k x, s.slots k = some x → ∃ j, s.taken.length ≤ j ∧ j < s.claimed.length ∧ k = j % s.capacity ∧
    s.claimed[j]? = some x
  room : s.claimed.length ≤ s.taken.length + s.capacity
  counter : s.size + s.taken.length = s.claimed.length + tally s.threads s.pc MpscPc.refusing +
    tally s.threads s.pc MpscPc.claiming + tally s.threads s.pc MpscPc.releasing
  refused : ∀ t x seen, s.pc t = .refuse x seen ∨ s.pc t = .refused x seen → s.capacity ≤ seen

section
variable {s s' : Mpsc α} {e : MpscEvent α} {t k c n : Nat}

theorem Inv.correct (hs : s.Inv) (hfit : s.Fits) : s.Correct where
  asserts := hs.no_fault hfit
  order := hs.order
  kept j hT hj := by
    by_cases hfr : ∀ t, (s.pc t).pos ≠ some j
    · exact .inl (hs.tickets.filled j hT hj hfr)
    · rw [not_forall] at hfr
      obtain ⟨t, ht⟩ := hfr
      have ht := not_not.mp ht
      have hc := hs.carries t
      refine .inr ⟨t, ?_⟩
      cases hpc : s.pc t with
      | check x h i =>
        rw [hpc] at ht hc
        cases ht
        exact ⟨x, h, .inl rfl, hc.1⟩
      | publish x h i =>
        rw [hpc] at ht hc
        cases ht
        exact ⟨x, h, .inr rfl, hc.1⟩
      | _ => rw [hpc] at ht; cases ht
  stored k x hx := by
    obtain ⟨j, hT, hj, hk, hfr⟩ := hs.tickets.sound k x hx
    exact ⟨j, hT, hj, hk, (hs.tickets.filled j hT hj hfr).symm.trans (hk ▸ hx)⟩
  room := hs.tickets.room
  counter := by
    have := hs.size
    omega
  refused t x seen h := by
    have hc := hs.carries t
    rcases h with h | h
    · rw [h] at hc
      exact hc
    · rw [h] at hc
      exact hc

theorem tally_dequeuing_zero (hout : ∀ u, u ≠ k → (s.pc u).dequeuing = 0) (hk : (s.pc k).back = true) :
    tally s.threads s.pc MpscPc.dequeuing = 0 := by
  refine tally_eq_zero fun u _ => ?_
  by_cases huk : u = k
  · subst huk
    cases hpc : s.pc u with
    | idle => rfl
    | refused x n => rfl
    | enqueued => rfl
    | dequeued o => rfl
    | _ => rw [hpc] at hk; cases hk
  · exact hout u huk

theorem Step.consumer (h : s.Step e s') (hok : s.OneConsumer k e) (hout : ∀ u, u ≠ k → (s.pc u).dequeuing = 0) :
    ∀ u, u ≠ k → (s'.pc u).dequeuing = 0 := by
  have hgo : ∀ {t p}, (t = k ∨ p.dequeuing = 0) → ∀ u, u ≠ k → ((s.goto t p).pc u).dequeuing = 0 := by
    intro t p hp
    refine (forall_update_iff s.pc fun u q => u ≠ k → q.dequeuing = 0).mpr ⟨?_, fun u _ => hout u⟩
    exact fun htk => hp.resolve_left htk
  obtain ⟨t, x, rfl, -, rfl⟩ | ⟨t, rfl, -, rfl⟩ | ⟨t, rfl, -, hst⟩ := h.cases
  · exact hgo (.inr rfl)
  · exact hgo (.inl hok)
  · obtain ⟨p, heff⟩ := stepThread_effect hst
    rw [heff.pc]
    refine hgo ?_
    by_cases htk : t = k
    · exact .inl htk
    · have hle := heff.dequeuing
      rw [hout t htk] at hle
      exact .inr (le_zero.mp hle)

theorem mpsc_correct (hc : 1 ≤ c) (hn : n + c < WORD) (hr : Run Step (OneConsumer k) (create c n) s)
    (hlen : s.claimed.length < WORD ∨ ∃ m, c = 2 ^ m) : s.Correct := by
  have hinv : s.capacity = c ∧ (s.Fits → s.Inv ∧ ∀ u, u ≠ k → (s.pc u).dequeuing = 0) := by
    refine Run.invariant (I := fun s => s.capacity = c ∧ (s.Fits → s.Inv ∧ ∀ u, u ≠ k → (s.pc u).dequeuing = 0)) hr
      ⟨rfl, fun _ => ⟨inv_create hc hn, fun _ _ => rfl⟩⟩ ?_
    rintro s e s' ⟨hcap, ih⟩ h hok
    obtain ⟨hcap', -, hle⟩ := h.grows
    refine ⟨hcap'.trans hcap, fun hfit' => ?_⟩
    have hfit : s.Fits := hfit'.imp (fun hlt => by omega) fun hdvd => by rw [← hcap']; exact hdvd
    obtain ⟨hs, hout⟩ := ih hfit
    refine ⟨hs.next hfit h ?_, h.consumer hok hout⟩
    obtain ⟨t, x, rfl, -⟩ | ⟨t, rfl, hcan, -⟩ | ⟨t, rfl, -⟩ := h.cases
    · trivial
    · obtain rfl : t = k := hok
      exact tally_dequeuing_zero hout hcan.2
    · trivial
  have hfit : s.Fits := by
    refine hlen.imp id ?_
    rintro ⟨m, rfl⟩
    rw [hinv.1]
    -- a power of two below the word size divides it
    have hm : m ≤ 32 := by
      by_contra hlt
      have := Nat.pow_le_pow_right (show 0 < 2 by decide) (show 32 ≤ m by omega)
      have hw : WORD = 2 ^ 32 := rfl
      omega
    exact pow_dvd_pow 2 hm
  exact (hinv.2 hfit).1.correct hfit

theorem mpsc_correct_crossing :
    ∃ s : Mpsc Nat, Run Step (OneConsumer 2) (create 2 3) s ∧ s.claimed = [7, 8] ∧ s.taken = [7] ∧ s.Correct := by
  obtain ⟨s, hr, hcl, htk⟩ := exists_follow_except (Mpsc.next (α := Nat)) (OneConsumer 2)
    [.enqueue 0 7, .enqueue 1 8, .step 0, .step 1, .step 0, .step 1, .enqueue 2 9, .step 2, .step 2,
      .step 1, .step 1, .step 0, .step 0, .dequeue 2, .step 2, .step 2, .step 2, .step 2]
    (create 2 3) (fun s => s.claimed = [7, 8] ∧ s.taken = [7]) (by decide +kernel)
  exact ⟨s, hr, hcl, htk, mpsc_correct (by decide) (by decide) hr (.inl (by rw [hcl]; decide))⟩

end

end Mpsc

end Yagura
