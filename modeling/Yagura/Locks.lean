import Yagura.SpinWord

/-!
# Tasks, CPUs and their locks

Tasks run on CPUs, are switched and interrupted, and call the functions of
`lock.c` for any number of mutexes and spinlocks. An interrupt handler runs as a
further frame on top of the task it has interrupted. Beside the memory the state
has what the tasks have locked, and the interrupt flag as the code outside of
`lock.c` has set it.
-/

namespace Yagura

open Function List

namespace Locks

/-! ## The system -/

inductive Lock
  | mutex (m : Nat)
  | spin (s : Nat)
  deriving DecidableEq

def mutexes (l : List Lock) : List Nat := l.filterMap fun
  | .mutex m => some m
  | .spin _ => none

def spins (l : List Lock) : List Nat := l.filterMap fun
  | .mutex _ => none
  | .spin s => some s

inductive Pc
  | idle
  | mutex (m : Nat) (p : MutexPc)
  | spin (s : Nat) (p : SpinPc)
  deriving DecidableEq

structure Frame where
  pc : Pc
  /-- The interrupt flag as the code of the frame has set it. -/
  flag : Bool
  /-- What the task had locked when the frame began. -/
  saved : List Lock

structure State where
  mutex : Nat → Mutex
  spin : Nat → Spinlock
  flag : Nat → Bool
  current : Nat → Nat
  depth : Nat → Nat
  frame : Nat → Nat → Frame
  held : Nat → List Lock

inductive Act
  | lock (l : Lock)
  | unlock (l : Lock)
  | go
  | setFlag (b : Bool)
  | interrupt
  | iret
  | switch (t : Nat)

structure Event where
  cpu : Nat
  act : Act

inductive Failure
  | impossible
  | assertion
  deriving DecidableEq

/-! ## Calls -/

def Pc.yields : Pc → Bool
  | .idle | .mutex _ .lockCas | .mutex _ .unlockCas => true
  | _ => false

def Act.onMutex : Act → Bool
  | .lock (.mutex _) | .unlock (.mutex _) => true
  | _ => false

def Pc.mutexCall : Pc → Option (Nat × MutexPc)
  | .mutex m p => some (m, p)
  | _ => none

def Pc.spinCall : Pc → Option (Nat × SpinPc)
  | .spin i p => some (i, p)
  | _ => none

def Pc.unlocking : Pc → Option Lock
  | .mutex m p => if p.unlocks then some (.mutex m) else none
  | .spin i p => if p.unlocks then some (.spin i) else none
  | .idle => none

def Frame.Light (f : Frame) : Prop :=
  f.flag = true ∧ ∀ i p, f.pc.spinCall = some (i, p) → p = .lockFlag ∨ p = .lockCli true

namespace State

/-! ## Steps -/

def top (s : State) (t : Nat) : Frame := s.frame t (s.depth t)

def setTop (s : State) (t : Nat) (f : Frame) : State :=
  { s with frame := update s.frame t (update (s.frame t) (s.depth t) f) }

def setPc (s : State) (t : Nat) (pc : Pc) : State := s.setTop t { s.top t with pc }

def settle {P : Type} (s : State) (t : Nat) (l : Lock) (pc : P → Pc) : After P → State
  | .goto p => s.setPc t (pc p)
  | .locked => { s.setPc t .idle with held := update s.held t (l :: s.held t) }
  | .unlocked => { s.setPc t .idle with held := update s.held t (s.held t).tail }
  | .freed p => { s.setPc t (pc p) with held := update s.held t (s.held t).tail }
  | .returned => s.setPc t .idle

def call (s : State) (c : Nat) : Lock → Except Failure State
  | .mutex m => if s.flag c then .ok (s.setPc (s.current c) (.mutex m .lockCas)) else .error .assertion
  | .spin i => .ok (s.setPc (s.current c) (.spin i .lockFlag))

def callUnlock (s : State) (c : Nat) : Lock → Except Failure State
  | .mutex m => if s.flag c then .ok (s.setPc (s.current c) (.mutex m .unlockCas)) else .error .assertion
  | .spin i => if s.flag c then .error .assertion else .ok (s.setPc (s.current c) (.spin i .unlockWord))

def go (s : State) (c : Nat) : Except Failure State :=
  match (s.top (s.current c)).pc with
  | .idle => .error .impossible
  | .mutex m p =>
    match mutexStep (s.mutex m) (s.current c) p with
    | none => .error .assertion
    | some (mx, after) =>
      .ok ({ s with mutex := update s.mutex m mx }.settle (s.current c) (.mutex m) (.mutex m) after)
  | .spin i p =>
    match spinStep (s.spin i) (BitVec.ofNat 8 c) (s.flag c) p with
    | none => .error .assertion
    | some (sp, flag, after) =>
      .ok ({ s with spin := update s.spin i sp, flag := update s.flag c flag }.settle
        (s.current c) (.spin i) (.spin i) after)

def push (s : State) (c : Nat) : State :=
  let t := s.current c
  { s with
    flag := update s.flag c false
    depth := update s.depth t (s.depth t + 1)
    frame := update s.frame t (update (s.frame t) (s.depth t + 1) ⟨.idle, false, s.held t⟩) }

def pop (s : State) (c : Nat) : State :=
  let t := s.current c
  { s with
    flag := update s.flag c (s.frame t (s.depth t - 1)).flag
    depth := update s.depth t (s.depth t - 1) }

def switchTo (s : State) (c u : Nat) : State :=
  { s with current := update s.current c u, flag := update s.flag c (s.top u).flag }

def putFlag (s : State) (c : Nat) (b : Bool) : State :=
  { s.setTop (s.current c) { s.top (s.current c) with flag := b } with flag := update s.flag c b }

def exec (s : State) (e : Event) : Except Failure State :=
  let c := e.cpu
  let f := s.top (s.current c)
  match e.act with
  | .lock l => if f.pc = .idle then s.call c l else .error .impossible
  | .unlock l => if f.pc = .idle then s.callUnlock c l else .error .impossible
  | .go => s.go c
  | .setFlag b => if f.pc = .idle then .ok (s.putFlag c b) else .error .impossible
  | .interrupt => if s.flag c then .ok (s.push c) else .error .impossible
  | .iret => if f.pc = .idle ∧ s.depth (s.current c) ≠ 0 then .ok (s.pop c) else .error .impossible
  | .switch u => if f.pc.yields then .ok (s.switchTo c u) else .error .impossible

def Step (s : State) (e : Event) (s' : State) : Prop := s.exec e = .ok s'

/-! ## Well-nested calls -/

/-- Unlock calls are for the latest lock of the frame, handlers give up what they lock, and the code outside touches
the interrupt flag and changes the task only when it holds no spinlock. The ids of CPUs are bytes. -/
def Nested (s : State) (e : Event) : Prop :=
  let t := s.current e.cpu
  e.cpu < 256 ∧
  match e.act with
  | .lock _ | .go | .interrupt => True
  | .unlock l => (s.held t).head? = some l ∧ s.held t ≠ (s.top t).saved
  | .setFlag _ => spins (s.held t) = []
  | .iret => s.held t = (s.top t).saved
  | .switch u => spins (s.held t) = [] ∧ ∀ d < 256, s.current d ≠ u

/-- The lock of the call that the CPU is in has not been locked `2 ^ 32 - 1` times. -/
def Shallow (s : State) (c : Nat) : Prop :=
  match (s.top (s.current c)).pc with
  | .idle => True
  | .mutex m _ => (mutexes (s.held (s.current c))).count m + 1 < 2 ^ 32
  | .spin i _ => (spins (s.held (s.current c))).count i + 1 < 2 ^ 32

/-- Moreover mutexes are locked and unlocked with interrupts on, and no lock is nested too deeply. -/
def Proper (s : State) (e : Event) : Prop :=
  s.Nested e ∧ (e.act.onMutex = true → s.flag e.cpu = true) ∧ s.Shallow e.cpu

instance (s : State) : (e : Event) → Decidable (s.Nested e)
  | ⟨_, .lock _⟩ | ⟨_, .go⟩ | ⟨_, .interrupt⟩ => inferInstanceAs (Decidable (_ ∧ True))
  | ⟨_, .unlock _⟩ => inferInstanceAs (Decidable (_ ∧ _ = _ ∧ _ ≠ _))
  | ⟨_, .setFlag _⟩ | ⟨_, .iret⟩ => inferInstanceAs (Decidable (_ ∧ _ = _))
  | ⟨_, .switch _⟩ => inferInstanceAs (Decidable (_ ∧ _ = _ ∧ _))

instance (s : State) (c : Nat) : Decidable (s.Shallow c) :=
  match h : (s.top (s.current c)).pc with
  | .idle => decidable_of_iff True (by unfold Shallow; rw [h])
  | .mutex m _ => decidable_of_iff ((mutexes (s.held (s.current c))).count m + 1 < 2 ^ 32) (by unfold Shallow; rw [h])
  | .spin i _ => decidable_of_iff ((spins (s.held (s.current c))).count i + 1 < 2 ^ 32) (by unfold Shallow; rw [h])

instance (s : State) (e : Event) : Decidable (s.Proper e) := inferInstanceAs (Decidable (_ ∧ _ ∧ _))

structure Init (s : State) : Prop where
  mutex : ∀ m, s.mutex m = ⟨false, none, 0⟩
  spin : ∀ i, s.spin i = ⟨0, 0⟩
  held : ∀ t, s.held t = []
  depth : ∀ t, s.depth t = 0
  pc : ∀ t k, (s.frame t k).pc = .idle
  saved : ∀ t k, (s.frame t k).saved = []
  current : ∀ c d, c < 256 → d < 256 → s.current c = s.current d → c = d
  flag : ∀ c < 256, s.flag c = (s.top (s.current c)).flag

def start : State where
  mutex _ := ⟨false, none, 0⟩
  spin _ := ⟨0, 0⟩
  flag _ := true
  current c := c
  depth _ := 0
  frame _ _ := ⟨.idle, true, []⟩
  held _ := []

theorem start_init : start.Init :=
  ⟨fun _ => rfl, fun _ => rfl, fun _ => rfl, fun _ => rfl, fun _ _ => rfl, fun _ _ => rfl, fun _ _ _ _ h => h,
    fun _ _ => rfl⟩

/-! ## The contract -/

def Inside (s : State) (t m : Nat) : Prop := ∃ k p, (s.frame t k).pc = .mutex m p ∧ p.inside = true

structure Safe (s : State) : Prop where
  mutexAlone : ∀ m t u, .mutex m ∈ s.held t → .mutex m ∈ s.held u → t = u
  mutexLevel : ∀ m t, .mutex m ∈ s.held t → ¬ s.Inside t m →
    (s.mutex m).holder = some t ∧ (s.mutex m).level.toNat = (s.held t).count (.mutex m)
  spinRuns : ∀ i t, .spin i ∈ s.held t → ∃ c < 256, s.current c = t
  spinAlone : ∀ i c d, c < 256 → d < 256 → .spin i ∈ s.held (s.current c) → .spin i ∈ s.held (s.current d) → c = d
  spinLevel : ∀ i c, c < 256 → .spin i ∈ s.held (s.current c) → (∀ p, (s.top (s.current c)).pc ≠ .spin i p) →
    (s.spin i).level.toNat = (s.held (s.current c)).count (.spin i)
  masked : ∀ i c, c < 256 → .spin i ∈ s.held (s.current c) → s.flag c = false
  restored : ∀ c < 256, (s.top (s.current c)).pc = .idle → spins (s.held (s.current c)) = [] →
    s.flag c = (s.top (s.current c)).flag

/-! ## What the two kinds of locks see -/

def mutexView (s : State) : MutexView where
  mutex := s.mutex
  pc t k := (s.frame t k).pc.mutexCall
  held t := mutexes (s.held t)

def spinView (s : State) : SpinView where
  spin := s.spin
  flag c := decide (c < 256) && s.flag c
  outer c := decide (c < 256) && (s.top (s.current c)).flag
  held c := if c < 256 then spins (s.held (s.current c)) else []
  pc c := if c < 256 then (s.top (s.current c)).pc.spinCall else none

def seen (s : State) (t k : Nat) : List Lock := if k = s.depth t then s.held t else (s.frame t (k + 1)).saved

structure FrameOk (seen : List Lock) (f : Frame) : Prop where
  saved : f.saved <:+ seen
  calm : spins f.saved = []
  unlocking : ∀ l, f.pc.unlocking = some l → ∃ rest, seen = l :: rest ∧ f.saved <:+ rest

structure Threads (s : State) : Prop where
  inj : ∀ c d, c < 256 → d < 256 → s.current c = s.current d → c = d
  above : ∀ t k, s.depth t < k → (s.frame t k).pc = .idle
  frames : ∀ t k, k ≤ s.depth t → FrameOk (s.seen t k) (s.frame t k)
  lower : ∀ t k, k < s.depth t → (s.frame t k).Light
  parked : ∀ t, (∀ c < 256, s.current c ≠ t) → spins (s.held t) = [] ∧ (s.top t).pc.spinCall = none

structure Inv (s : State) : Prop where
  mutex : ∃ a, MutexView.Inv a s.mutexView
  spin : ∃ a, SpinView.Inv a s.spinView
  threads : s.Threads

section
variable {s s' : State} {c t i m : Nat} {l : List Lock} {p : MutexPc}

theorem spinView_pc (hc : c < 256) : s.spinView.pc c = (s.top (s.current c)).pc.spinCall := if_pos hc

theorem spinView_held (hc : c < 256) : s.spinView.held c = spins (s.held (s.current c)) := if_pos hc

theorem spinView_flag (hc : c < 256) : s.spinView.flag c = s.flag c := by
  show (decide (c < 256) && s.flag c) = s.flag c
  rw [decide_eq_true hc, Bool.true_and]

theorem spinView_outer (hc : c < 256) : s.spinView.outer c = (s.top (s.current c)).flag := by
  show (decide (c < 256) && _) = _
  rw [decide_eq_true hc, Bool.true_and]

theorem spinView_eq {v : SpinView} (hc : c < 256) (hsp : s'.spin = v.spin)
    (hfl : s'.flag c = v.flag c) (hou : (s'.top (s'.current c)).flag = v.outer c)
    (hhe : spins (s'.held (s'.current c)) = v.held c) (hpc : (s'.top (s'.current c)).pc.spinCall = v.pc c)
    (hot : ∀ d, d ≠ c → s'.spinView.flag d = v.flag d ∧ s'.spinView.outer d = v.outer d ∧
      s'.spinView.held d = v.held d ∧ s'.spinView.pc d = v.pc d) : s'.spinView = v := by
  have hall (d : Nat) : s'.spinView.flag d = v.flag d ∧ s'.spinView.outer d = v.outer d ∧
      s'.spinView.held d = v.held d ∧ s'.spinView.pc d = v.pc d := by
    by_cases hdc : d = c
    · subst hdc
      exact ⟨(spinView_flag hc).trans hfl, (spinView_outer hc).trans hou, (spinView_held hc).trans hhe,
        (spinView_pc hc).trans hpc⟩
    · exact hot d hdc
  obtain ⟨spin, flag, outer, held, pc⟩ := v
  show (⟨_, s'.spinView.flag, s'.spinView.outer, s'.spinView.held, s'.spinView.pc⟩ : SpinView) = _
  rw [show s'.spinView.flag = flag from funext fun d => (hall d).1,
    show s'.spinView.outer = outer from funext fun d => (hall d).2.1,
    show s'.spinView.held = held from funext fun d => (hall d).2.2.1,
    show s'.spinView.pc = pc from funext fun d => (hall d).2.2.2, show s'.spin = spin from hsp]

theorem spinView_other {d : Nat} (hfl : s'.flag d = s.flag d) (hcu : s'.current d = s.current d)
    (htop : d < 256 → s'.top (s.current d) = s.top (s.current d))
    (hhe : d < 256 → spins (s'.held (s.current d)) = spins (s.held (s.current d))) :
    s'.spinView.flag d = s.spinView.flag d ∧ s'.spinView.outer d = s.spinView.outer d ∧
      s'.spinView.held d = s.spinView.held d ∧ s'.spinView.pc d = s.spinView.pc d := by
  by_cases hd : d < 256
  · simp only [spinView, hd, hfl, hcu, htop hd, hhe hd, and_self]
  · simp only [spinView, hd, decide_false, Bool.false_and, if_false, and_self]

theorem spinView_setCpu {outer flag : Bool} {pc : Option (Nat × SpinPc)} (hc : c < 256) (hsp : s'.spin = s.spin)
    (hfl : s'.flag c = flag) (hou : (s'.top (s'.current c)).flag = outer)
    (hhe : spins (s'.held (s'.current c)) = spins (s.held (s.current c)))
    (hpc : (s'.top (s'.current c)).pc.spinCall = pc)
    (hot : ∀ d, d ≠ c → s'.flag d = s.flag d ∧ s'.current d = s.current d ∧
      (d < 256 → s'.top (s.current d) = s.top (s.current d) ∧ s'.held (s.current d) = s.held (s.current d))) :
    s'.spinView = s.spinView.setCpu c outer flag pc := by
  refine spinView_eq hc hsp ?_ ?_ ?_ ?_ fun d hd => ?_
  · exact hfl.trans SpinView.setCpu_flag.symm
  · exact hou.trans SpinView.setCpu_outer.symm
  · exact hhe.trans (spinView_held hc).symm
  · exact hpc.trans SpinView.setCpu_pc.symm
  · obtain ⟨hf, hcur, hre⟩ := hot d hd
    obtain ⟨hfl, hou, hhe, hpc⟩ := spinView_other hf hcur (fun hlt => (hre hlt).1)
      fun hlt => congrArg spins (hre hlt).2
    exact ⟨hfl.trans (SpinView.setCpu_flag_ne hd).symm, hou.trans (SpinView.setCpu_outer_ne hd).symm, hhe,
      hpc.trans (SpinView.setCpu_pc_ne hd).symm⟩

/-! ## Changes of the running frame -/

def touch (s : State) (c : Nat) (f : Frame) (held : List Lock) (mutex : Nat → Mutex) (spin : Nat → Spinlock)
    (flag : Bool) : State where
  mutex := mutex
  spin := spin
  flag := update s.flag c flag
  current := s.current
  depth := s.depth
  frame := update s.frame (s.current c)
    (update (s.frame (s.current c)) (s.depth (s.current c)) f)
  held := update s.held (s.current c) held

section
variable {f : Frame} {held : List Lock} {mutex : Nat → Mutex} {spin : Nat → Spinlock} {flag : Bool} {u k : Nat}
  {list : List Nat}

theorem update_frame_ne {fr : Nat → Nat → Frame} {t j : Nat} (h : ¬ (u = t ∧ k = j)) :
    update fr t (update (fr t) j f) u k = fr u k := by
  by_cases hu : u = t
  · subst hu
    rw [update_self, update_of_ne fun hk => h ⟨rfl, hk⟩]
  · rw [update_of_ne hu]

theorem touch_frame_ne (h : ¬ (u = s.current c ∧ k = s.depth u)) :
    (s.touch c f held mutex spin flag).frame u k = s.frame u k :=
  update_frame_ne fun hu => h ⟨hu.1, hu.1 ▸ hu.2⟩

theorem touch_top : (s.touch c f held mutex spin flag).top (s.current c) = f := by
  show update s.frame _ _ (s.current c) (s.depth (s.current c)) = f
  rw [update_self, update_self]

theorem touch_top_ne (h : u ≠ s.current c) : (s.touch c f held mutex spin flag).top u = s.top u :=
  touch_frame_ne fun hu => h hu.1

theorem touch_held : (s.touch c f held mutex spin flag).held (s.current c) = held := update_self ..

theorem touch_held_ne (h : u ≠ s.current c) : (s.touch c f held mutex spin flag).held u = s.held u :=
  update_of_ne h ..

theorem Threads.change (h : s.Threads) (hc : c < 256) (hcu : s'.current = s.current)
    (hot : ∀ u, u ≠ s.current c → s'.depth u = s.depth u ∧ s'.frame u = s.frame u ∧ s'.held u = s.held u)
    (hab : ∀ k, s'.depth (s.current c) < k → (s'.frame (s.current c) k).pc = .idle)
    (hfr : ∀ k ≤ s'.depth (s.current c), FrameOk (s'.seen (s.current c) k) (s'.frame (s.current c) k))
    (hlo : ∀ k < s'.depth (s.current c), (s'.frame (s.current c) k).Light) : s'.Threads := by
  refine ⟨by rw [hcu]; exact h.inj, fun u k hk => ?_, fun u k hk => ?_, fun u k hk => ?_, fun u hu => ?_⟩
  · by_cases hut : u = s.current c
    · exact hut ▸ hab k (hut ▸ hk)
    · obtain ⟨hde, hfa, -⟩ := hot u hut
      rw [hfa]
      exact h.above u k (hde ▸ hk)
  · by_cases hut : u = s.current c
    · exact hut ▸ hfr k (hut ▸ hk)
    · obtain ⟨hde, hfa, hhe⟩ := hot u hut
      have hse : s'.seen u k = s.seen u k := by rw [seen, seen, hde, hfa, hhe]
      rw [hse, hfa]
      exact h.frames u k (hde ▸ hk)
  · by_cases hut : u = s.current c
    · exact hut ▸ hlo k (hut ▸ hk)
    · obtain ⟨hde, hfa, -⟩ := hot u hut
      rw [hfa]
      exact h.lower u k (hde ▸ hk)
  · rw [hcu] at hu
    obtain ⟨hde, hfa, hhe⟩ := hot u fun hut => hu c hc hut.symm
    rw [State.top, hhe, hde, hfa]
    exact h.parked u hu

theorem Threads.touch (h : s.Threads) (hc : c < 256) (hsa : f.saved = (s.top (s.current c)).saved)
    (hf : FrameOk held f) : (s.touch c f held mutex spin flag).Threads := by
  have htop : (s.touch c f held mutex spin flag).frame (s.current c) (s.depth (s.current c)) = f := touch_top
  refine h.change hc rfl (fun u hu => ⟨rfl, update_of_ne hu .., update_of_ne hu ..⟩) (fun k hk => ?_)
    (fun k hk => ?_) fun k hk => ?_
  · have hk : s.depth (s.current c) < k := hk
    rw [touch_frame_ne fun hu => hk.ne' hu.2]
    exact h.above _ k hk
  · rcases Nat.lt_or_eq_of_le (show k ≤ s.depth (s.current c) from hk) with hlt | rfl
    · have hse : (s.touch c f held mutex spin flag).seen (s.current c) k = s.seen (s.current c) k := by
        refine (if_neg hlt.ne).trans (.trans ?_ (if_neg hlt.ne).symm)
        by_cases hnx : k + 1 = s.depth (s.current c)
        · rw [hnx, htop]
          exact hsa
        · rw [touch_frame_ne fun hu => hnx hu.2]
      rw [hse, touch_frame_ne fun hu => hlt.ne hu.2]
      exact h.frames _ k hlt.le
    · have hse : (s.touch c f held mutex spin flag).seen (s.current c) (s.depth (s.current c)) = held :=
        (if_pos rfl).trans touch_held
      exact hse.symm ▸ htop.symm ▸ hf
  · have hk : k < s.depth (s.current c) := hk
    rw [touch_frame_ne fun hu => hk.ne hu.2]
    exact h.lower _ k hk

theorem mutexView_touch {mx : Mutex} {pc : Option (Nat × MutexPc)} (hmu : mutex = update s.mutex m mx)
    (hpc : f.pc.mutexCall = pc) (hhe : mutexes held = list) :
    (s.touch c f held mutex spin flag).mutexView =
      s.mutexView.put (s.current c) (s.depth (s.current c)) m mx pc list := by
  have hpc' : (s.touch c f held mutex spin flag).mutexView.pc =
      (s.mutexView.put (s.current c) (s.depth (s.current c)) m mx pc list).pc := by
    funext u k
    by_cases htop : u = s.current c ∧ k = s.depth u
    · obtain ⟨rfl, rfl⟩ := htop
      rw [MutexView.put_pc, ← hpc]
      exact congrArg (fun f : Frame => f.pc.mutexCall) touch_top
    · rw [MutexView.put_pc_ne fun hu => htop ⟨hu.1, hu.1 ▸ hu.2⟩]
      exact congrArg (fun f : Frame => f.pc.mutexCall) (touch_frame_ne htop)
  have hhe' : (s.touch c f held mutex spin flag).mutexView.held =
      (s.mutexView.put (s.current c) (s.depth (s.current c)) m mx pc list).held := by
    funext u
    show mutexes (update s.held (s.current c) held u) = update s.mutexView.held (s.current c) list u
    by_cases hu : u = s.current c
    · subst hu
      rw [update_self, update_self, hhe]
    · rw [update_of_ne hu, update_of_ne hu]
      rfl
  show (⟨mutex, (s.touch c f held mutex spin flag).mutexView.pc,
    (s.touch c f held mutex spin flag).mutexView.held⟩ : MutexView) = _
  rw [hpc', hhe', hmu]
  rfl

theorem mutexView_touch_same (hpc : f.pc.mutexCall = (s.top (s.current c)).pc.mutexCall)
    (hhe : mutexes held = mutexes (s.held (s.current c))) :
    (s.touch c f held s.mutex spin flag).mutexView = s.mutexView :=
  (mutexView_touch (m := 0) (update_eq_self 0 s.mutex).symm hpc hhe).trans MutexView.put_self

theorem spinView_touch_other (h : s.Threads) (hc : c < 256) {d : Nat} (hd : d ≠ c) :
    (s.touch c f held mutex spin flag).spinView.flag d = s.spinView.flag d ∧
      (s.touch c f held mutex spin flag).spinView.outer d = s.spinView.outer d ∧
      (s.touch c f held mutex spin flag).spinView.held d = s.spinView.held d ∧
      (s.touch c f held mutex spin flag).spinView.pc d = s.spinView.pc d := by
  have hne (hlt : d < 256) : s.current d ≠ s.current c := fun heq => hd (h.inj d c hlt hc heq)
  exact spinView_other (update_of_ne hd ..) rfl (fun hlt => touch_top_ne (hne hlt))
    fun hlt => by rw [touch_held_ne (hne hlt)]

theorem spinView_touch (pc : Option SpinPc) (h : s.Threads) (hc : c < 256) {sp : Spinlock}
    (hsp : spin = update s.spin i sp) (hfl : f.flag = (s.top (s.current c)).flag)
    (hpc : f.pc.spinCall = pc.map (i, ·)) (hhe : spins held = list) :
    (s.touch c f held mutex spin flag).spinView = s.spinView.put c i sp flag pc list := by
  refine spinView_eq hc hsp ?_ ?_ ?_ ?_ fun d hd => ?_
  · exact (update_self ..).trans SpinView.put_flag.symm
  · exact (congrArg Frame.flag touch_top).trans (hfl.trans (spinView_outer hc).symm)
  · exact (congrArg spins touch_held).trans (hhe.trans SpinView.put_held.symm)
  · exact (congrArg (fun f : Frame => f.pc.spinCall) touch_top).trans (hpc.trans SpinView.put_pc.symm)
  · obtain ⟨hfl, hou, hhe, hpc⟩ := spinView_touch_other h hc hd
    exact ⟨hfl.trans (SpinView.put_flag_ne hd).symm, hou, hhe.trans (SpinView.put_held_ne hd).symm,
      hpc.trans (SpinView.put_pc_ne hd).symm⟩

theorem spinView_touch_cpu (h : s.Threads) (hc : c < 256) (hhe : spins held = spins (s.held (s.current c))) :
    (s.touch c f held mutex s.spin flag).spinView = s.spinView.setCpu c f.flag flag f.pc.spinCall := by
  refine spinView_setCpu hc rfl (update_self ..) (congrArg Frame.flag touch_top)
    ((congrArg spins touch_held).trans hhe) (congrArg (fun f : Frame => f.pc.spinCall) touch_top) fun d hd => ?_
  have hne (hlt : d < 256) : s.current d ≠ s.current c := fun heq => hd (h.inj d c hlt hc heq)
  exact ⟨update_of_ne hd .., rfl, fun hlt => ⟨touch_top_ne (hne hlt), touch_held_ne (hne hlt)⟩⟩

theorem spinView_touch_same (h : s.Threads) (hc : c < 256) (hfl : f.flag = (s.top (s.current c)).flag)
    (hpc : f.pc.spinCall = (s.top (s.current c)).pc.spinCall)
    (hhe : spins held = spins (s.held (s.current c))) :
    (s.touch c f held mutex s.spin (s.flag c)).spinView = s.spinView := by
  refine spinView_eq hc rfl ?_ ?_ ?_ ?_ fun d hd => spinView_touch_other h hc hd
  · exact (update_self ..).trans (spinView_flag hc).symm
  · exact (congrArg Frame.flag touch_top).trans (hfl.trans (spinView_outer hc).symm)
  · exact (congrArg spins touch_held).trans (hhe.trans (spinView_held hc).symm)
  · exact (congrArg (fun f : Frame => f.pc.spinCall) touch_top).trans (hpc.trans (spinView_pc hc).symm)

end

/-! ## Steps of calls -/

def pcAfter {P : Type} (pc : P → Pc) : After P → Pc
  | .goto p | .freed p => pc p
  | .locked | .unlocked | .returned => .idle

def heldAfter {P : Type} (l : Lock) (held : List Lock) : After P → List Lock
  | .locked => l :: held
  | .unlocked | .freed _ => held.tail
  | .goto _ | .returned => held

theorem settle_eq {P : Type} (s : State) (c : Nat) (l : Lock) (pc : P → Pc) (after : After P) (mutex : Nat → Mutex)
    (spin : Nat → Spinlock) (flag : Bool) :
    { s with mutex, spin, flag := update s.flag c flag }.settle (s.current c) l pc after =
      s.touch c { s.top (s.current c) with pc := pcAfter pc after } (heldAfter l (s.held (s.current c)) after)
        mutex spin flag := by
  cases after <;> simp only [settle, setPc, setTop, top, touch, pcAfter, heldAfter, update_eq_self]

section
variable {f : Frame} {held : List Lock} {l : Lock} {pc : Pc}

theorem FrameOk.goto (h : FrameOk held f) (hpc : pc.unlocking = f.pc.unlocking) : FrameOk held { f with pc := pc } :=
  ⟨h.saved, h.calm, fun l hl => h.unlocking l (hpc ▸ hl)⟩

theorem FrameOk.push (h : FrameOk held f) : FrameOk (l :: held) { f with pc := .idle } :=
  ⟨h.saved.trans (suffix_cons l held), h.calm, nofun⟩

theorem FrameOk.pop (h : FrameOk held f) (hl : f.pc.unlocking = some l) (hpc : pc.unlocking = none) :
    FrameOk held.tail { f with pc := pc } := by
  obtain ⟨rest, rfl, hsa⟩ := h.unlocking l hl
  refine ⟨hsa, h.calm, fun l' hl' => ?_⟩
  rw [show (Frame.mk pc f.flag f.saved).pc.unlocking = none from hpc] at hl'
  cases hl'

theorem Threads.top (h : s.Threads) (t : Nat) : FrameOk (s.held t) (s.top t) := by
  have hok := h.frames t (s.depth t) le_rfl
  rwa [show s.seen t (s.depth t) = s.held t from if_pos rfl] at hok

end

theorem Threads.latest {l : Lock} (h : s.Threads) (hl : (s.top t).pc.unlocking = some l) :
    ∃ rest, s.held t = l :: rest := by
  obtain ⟨rest, hre, -⟩ := (h.top t).unlocking l hl
  exact ⟨rest, hre⟩

theorem Inv.touch {f : Frame} {held : List Lock} {mutex : Nat → Mutex} {spin : Nat → Spinlock} {flag : Bool}
    {mv : MutexView} {sv : SpinView} (h : s.Inv) (hc : c < 256)
    (hm : (s.touch c f held mutex spin flag).mutexView = mv) (hmu : ∃ a, MutexView.Inv a mv)
    (hs : (s.touch c f held mutex spin flag).spinView = sv) (hsp : ∃ a, SpinView.Inv a sv)
    (hsa : f.saved = (s.top (s.current c)).saved) (hok : FrameOk held f) :
    (s.touch c f held mutex spin flag).Inv :=
  ⟨hm ▸ hmu, hs ▸ hsp, h.threads.touch hc hsa hok⟩

theorem Inv.goMutex (h : s.Inv) (hc : c < 256) (hpc : (s.top (s.current c)).pc = .mutex m p)
    (hsh : (mutexes (s.held (s.current c))).count m + 1 < 2 ^ 32) : ∃ s', s.go c = .ok s' ∧ s'.Inv := by
  obtain ⟨a, ha⟩ := h.mutex
  have hvi : s.mutexView.pc (s.current c) (s.depth (s.current c)) = some (m, p) :=
    congrArg Pc.mutexCall hpc
  have htop := h.threads.top (s.current c)
  have hun (hu : p.unlocks = true) : (s.top (s.current c)).pc.unlocking = some (.mutex m) := by
    rw [hpc]
    exact if_pos hu
  obtain ⟨mx, after, hst, hres⟩ := ha.step hvi (fun hu => by
    obtain ⟨rest, hre⟩ := h.threads.latest (hun hu)
    show m ∈ mutexes (s.held (s.current c))
    rw [hre]
    exact mem_cons_self ..) hsh
  have hgo : s.go c = .ok (s.touch c { s.top (s.current c) with pc := pcAfter (.mutex m) after }
      (heldAfter (.mutex m) (s.held (s.current c)) after) (update s.mutex m mx) s.spin (s.flag c)) := by
    rw [← settle_eq, update_eq_self]
    unfold go
    rw [hpc]
    simp only [show mutexStep (s.mutex m) (s.current c) p = some (mx, after) from hst]
  refine ⟨_, hgo, ?_⟩
  cases after with
  | goto p' =>
    refine h.touch hc (mutexView_touch rfl rfl rfl) ⟨a, hres.2⟩
      (spinView_touch_same h.threads hc rfl (by rw [hpc]; rfl) rfl) h.spin rfl (htop.goto ?_)
    rw [hpc]
    show (if p'.unlocks = true then _ else _) = if p.unlocks = true then _ else _
    rw [hres.1]
  | locked =>
    exact h.touch hc (mutexView_touch rfl rfl rfl) hres.2
      (spinView_touch_same h.threads hc rfl (by rw [hpc]; rfl) rfl) h.spin rfl htop.push
  | unlocked =>
    obtain ⟨rest, hre⟩ := h.threads.latest (hun hres.1)
    refine h.touch hc (mutexView_touch rfl rfl ?_) hres.2
      (spinView_touch_same h.threads hc rfl (by rw [hpc]; rfl) ?_) h.spin rfl (htop.pop (hun hres.1) rfl)
    · show mutexes (s.held (s.current c)).tail = (mutexes (s.held (s.current c))).erase m
      rw [hre]
      exact (erase_cons_head ..).symm
    · rw [hre]
      rfl
  | freed p' => exact hres.elim
  | returned => exact hres.elim

theorem Inv.goSpin {p : SpinPc} (h : s.Inv) (hc : c < 256) (hpc : (s.top (s.current c)).pc = .spin i p)
    (hsh : (spins (s.held (s.current c))).count i + 1 < 2 ^ 32) : ∃ s', s.go c = .ok s' ∧ s'.Inv := by
  obtain ⟨a, ha⟩ := h.spin
  have hvi : s.spinView.pc c = some (i, p) := (spinView_pc hc).trans (congrArg Pc.spinCall hpc)
  have htop := h.threads.top (s.current c)
  have hun (hu : p.unlocks = true) : (s.top (s.current c)).pc.unlocking = some (.spin i) := by
    rw [hpc]
    exact if_pos hu
  obtain ⟨sp, flag, after, hst, hres⟩ := ha.step hvi (by rw [spinView_held hc]; exact hsh)
  rw [spinView_flag hc] at hst
  have hgo : s.go c = .ok (s.touch c { s.top (s.current c) with pc := pcAfter (.spin i) after }
      (heldAfter (.spin i) (s.held (s.current c)) after) s.mutex (update s.spin i sp) flag) := by
    rw [← settle_eq]
    unfold go
    rw [hpc]
    simp only [show spinStep (s.spin i) (BitVec.ofNat 8 c) (s.flag c) p = some (sp, flag, after) from hst]
  refine ⟨_, hgo, ?_⟩
  -- The latest lock is the spinlock that is given up.
  have hta (hu : p.unlocks = true) : mutexes (s.held (s.current c)).tail = mutexes (s.held (s.current c)) ∧
      spins (s.held (s.current c)).tail = (s.spinView.held c).tail := by
    obtain ⟨rest, hre⟩ := h.threads.latest (hun hu)
    rw [spinView_held hc, hre]
    exact ⟨rfl, rfl⟩
  cases after with
  | goto p' =>
    refine h.touch hc (mutexView_touch_same (by rw [hpc]; rfl) rfl) h.mutex
      (spinView_touch (some p') h.threads hc rfl rfl rfl (spinView_held hc).symm) ⟨a, hres.2⟩ rfl (htop.goto ?_)
    rw [hpc]
    show (if p'.unlocks = true then _ else _) = if p.unlocks = true then _ else _
    rw [hres.1]
  | locked =>
    exact h.touch hc (mutexView_touch_same (by rw [hpc]; rfl) rfl) h.mutex
      (spinView_touch none h.threads hc rfl rfl rfl (congrArg (i :: ·) (spinView_held hc).symm)) hres.2 rfl
      htop.push
  | unlocked =>
    obtain ⟨hmu, hsp⟩ := hta hres.1
    exact h.touch hc (mutexView_touch_same (by rw [hpc]; rfl) hmu) h.mutex
      (spinView_touch none h.threads hc rfl rfl rfl hsp) hres.2 rfl (htop.pop (hun hres.1) rfl)
  | freed p' =>
    obtain ⟨hmu, hsp⟩ := hta hres.1
    refine h.touch hc (mutexView_touch_same (by rw [hpc]; rfl) hmu) h.mutex
      (spinView_touch (some p') h.threads hc rfl rfl rfl hsp) hres.2.2 rfl (htop.pop (hun hres.1) ?_)
    exact if_neg (by rw [hres.2.1]; exact Bool.false_ne_true)
  | returned =>
    refine h.touch hc (mutexView_touch_same (by rw [hpc]; rfl) rfl) h.mutex
      (spinView_touch none h.threads hc rfl rfl rfl (spinView_held hc).symm) ⟨a, hres.2⟩ rfl (htop.goto ?_)
    rw [hpc]
    exact (if_neg (by rw [hres.1]; exact Bool.false_ne_true)).symm

/-! ## The beginning of calls -/

theorem setPc_eq (s : State) (c : Nat) (pc : Pc) : s.setPc (s.current c) pc =
    s.touch c { s.top (s.current c) with pc := pc } (s.held (s.current c)) s.mutex s.spin (s.flag c) := by
  simp only [setPc, setTop, touch, update_eq_self]

theorem Inv.beginMutex (h : s.Inv) (hc : c < 256) (hid : (s.top (s.current c)).pc = .idle) (hout : p.inside = false)
    (hok : FrameOk (s.held (s.current c)) { s.top (s.current c) with pc := .mutex m p }) :
    (s.setPc (s.current c) (.mutex m p)).Inv := by
  obtain ⟨a, ha⟩ := h.mutex
  have hnn : s.mutexView.pc (s.current c) (s.depth (s.current c)) = none := congrArg Pc.mutexCall hid
  rw [setPc_eq]
  exact h.touch hc (mutexView_touch (update_eq_self m s.mutex).symm rfl rfl) ⟨a, ha.begin hnn hout⟩
    (spinView_touch_same h.threads hc rfl (by rw [hid]; rfl) rfl) h.spin rfl hok

theorem Inv.flag_eq (h : s.Inv) (hc : c < 256) (hnn : (s.top (s.current c)).pc.spinCall = none) :
    s.flag c = ((s.top (s.current c)).flag && (spins (s.held (s.current c))).isEmpty) := by
  obtain ⟨a, ha⟩ := h.spin
  have hfl := ha.flag c
  rwa [SpinView.want, SpinView.masked, spinView_pc hc, hnn, spinView_flag hc, spinView_outer hc, spinView_held hc,
    Option.any_none, Bool.not_false, Bool.and_true] at hfl

theorem Inv.beginSpin {p : SpinPc} (h : s.Inv) (hc : c < 256) (hid : (s.top (s.current c)).pc = .idle)
    (hma : p.masks = false)
    (hat : ∀ a (v : SpinView), v.held c = spins (s.held (s.current c)) → v.At a c i p)
    (hok : FrameOk (s.held (s.current c)) { s.top (s.current c) with pc := .spin i p }) :
    (s.setPc (s.current c) (.spin i p)).Inv := by
  obtain ⟨a, ha⟩ := h.spin
  have hnn : s.spinView.pc c = none := (spinView_pc hc).trans (congrArg Pc.spinCall hid)
  rw [setPc_eq]
  refine h.touch hc (mutexView_touch_same (by rw [hid]; rfl) rfl) h.mutex
    (spinView_touch_cpu h.threads hc rfl) ⟨a, ?_⟩ rfl hok
  refine ha.setCpu (fun _ => hc) (.inl (spinView_outer hc).symm) ?_ (fun i' q hq => ?_) (fun i' w => ?_) ?_
  · rw [spinView_held hc, h.flag_eq hc (congrArg Pc.spinCall hid)]
    show _ = (_ && !p.masks)
    rw [hma, Bool.not_false, Bool.and_true]
  · rw [hnn] at hq
    cases hq
  · rw [hnn]
    exact nofun
  · rintro _ _ ⟨⟩
    exact hat a _ (spinView_held hc)

/-! ## Interrupts and task switches -/

theorem Inv.putFlag (h : s.Inv) (hc : c < 256) (hid : (s.top (s.current c)).pc = .idle)
    (hca : spins (s.held (s.current c)) = []) (b : Bool) :
    (s.putFlag c b).Inv := by
  have heq : s.putFlag c b =
      s.touch c { s.top (s.current c) with flag := b } (s.held (s.current c)) s.mutex s.spin b := by
    simp only [State.putFlag, setTop, State.touch, update_eq_self]
  obtain ⟨a, ha⟩ := h.spin
  have hnn : s.spinView.pc c = none := (spinView_pc hc).trans (congrArg Pc.spinCall hid)
  have htop := h.threads.top (s.current c)
  rw [heq]
  refine h.touch hc (mutexView_touch_same rfl rfl) h.mutex (spinView_touch_cpu h.threads hc rfl) ⟨a, ?_⟩ rfl
    ⟨htop.saved, htop.calm, htop.unlocking⟩
  refine ha.setCpu (fun _ => hc) (.inr ((spinView_held hc).trans hca)) ?_ (fun i' q hq => ?_) (fun i' w => ?_) ?_
  · rw [spinView_held hc, hca]
    rw [hid]
    cases b <;> rfl
  · rw [hnn] at hq
    cases hq
  · rw [hnn]
    exact nofun
  · intro i' p' hp'
    rw [show ({ s.top (s.current c) with flag := b } : Frame).pc.spinCall = none from
      congrArg Pc.spinCall hid] at hp'
    cases hp'

theorem Inv.light (h : s.Inv) (hc : c < 256) (hfl : s.flag c = true) :
    (s.top (s.current c)).Light ∧ spins (s.held (s.current c)) = [] := by
  obtain ⟨a, ha⟩ := h.spin
  have hwa := ha.flag c
  rw [spinView_flag hc, hfl, eq_comm, Bool.and_eq_true] at hwa
  obtain ⟨hwa, hma⟩ := hwa
  have hpa := Bool.and_eq_true_iff.mp hwa
  rw [spinView_outer hc, spinView_held hc, List.isEmpty_iff] at hpa
  refine ⟨⟨hpa.1, fun i p hp => ?_⟩, hpa.2⟩
  have hpc : s.spinView.pc c = some (i, p) := (spinView_pc hc).trans hp
  have hca := ha.call hpc
  have hnil : s.spinView.held c = [] := (spinView_held hc).trans hpa.2
  rw [SpinView.Inv.masked_eq hpc] at hma
  have hhe (hs : ∃ rest, s.spinView.held c = i :: rest) : False := by
    obtain ⟨rest, hs⟩ := hs
    rw [hnil] at hs
    cases hs
  cases p with
  | lockFlag => exact .inl rfl
  | lockCli pushed =>
    have hpu : pushed = s.spinView.want c := hca
    rw [hpu, hwa]
    exact .inr rfl
  | unlockWord => exact (hhe hca).elim
  | unlockLoad | unlockStore | unlockFree => exact (hhe hca.1).elim
  | _ => cases hma

theorem Inv.replace {f : Frame} (h : s.Inv) (hc : c < 256) (hca : spins (s.held (s.current c)) = [])
    (hli : ∀ i p, (s.top (s.current c)).pc.spinCall = some (i, p) → p = .lockFlag ∨ p = .lockCli true)
    (hf : ∀ i p, f.pc.spinCall = some (i, p) → f.flag = true ∧ (p = .lockFlag ∨ p = .lockCli true)) :
    ∃ a, SpinView.Inv a (s.spinView.setCpu c f.flag f.flag f.pc.spinCall) := by
  obtain ⟨a, ha⟩ := h.spin
  have hnil : s.spinView.held c = [] := (spinView_held hc).trans hca
  have hold {i p} (hp : s.spinView.pc c = some (i, p)) : p = .lockFlag ∨ p = .lockCli true :=
    hli i p ((spinView_pc hc).symm.trans hp)
  refine ⟨a, ha.setCpu (fun _ => hc) (.inr hnil) ?_ (fun i p hp ht => ?_) (fun i w hp => ?_) fun i p hp => ?_⟩
  · rw [hnil]
    cases hcl : f.pc.spinCall with
    | none => simp
    | some call =>
      obtain ⟨i, p⟩ := call
      obtain ⟨hfl, rfl | rfl⟩ := hf i p hcl
      · rw [hfl]
        rfl
      · rw [hfl]
        rfl
  · rcases hold hp with rfl | rfl
    · cases ht
    · cases ht
  · rcases hold hp with heq | heq
    · cases heq
    · cases heq
  · obtain ⟨hfl, rfl | rfl⟩ := hf i p hp
    · trivial
    · show true = _
      rw [SpinView.setCpu_want, hfl, hnil]
      rfl

section
variable {u k : Nat}

theorem push_depth : (s.push c).depth (s.current c) = s.depth (s.current c) + 1 := update_self ..

theorem push_depth_ne (h : u ≠ s.current c) : (s.push c).depth u = s.depth u := update_of_ne h ..

theorem push_frame_ne (h : ¬ (u = s.current c ∧ k = s.depth u + 1)) : (s.push c).frame u k = s.frame u k :=
  update_frame_ne fun hu => h ⟨hu.1, hu.1 ▸ hu.2⟩

theorem push_frame : (s.push c).frame (s.current c) (s.depth (s.current c) + 1) =
    ⟨.idle, false, s.held (s.current c)⟩ := by
  show update s.frame _ _ (s.current c) _ = _
  rw [update_self, update_self]

theorem push_top : (s.push c).top (s.current c) = ⟨.idle, false, s.held (s.current c)⟩ := by
  unfold top
  rw [push_depth, push_frame]

theorem push_top_ne (h : u ≠ s.current c) : (s.push c).top u = s.top u := by
  unfold top
  rw [push_depth_ne h]
  exact push_frame_ne fun hu => h hu.1

theorem push_seen (hk : k ≤ s.depth (s.current c)) : (s.push c).seen (s.current c) k = s.seen (s.current c) k := by
  unfold seen
  rw [push_depth, if_neg (by omega)]
  by_cases hk' : k = s.depth (s.current c)
  · rw [if_pos hk', hk', push_frame]
  · rw [if_neg hk', push_frame_ne (by omega)]

end

theorem Inv.push (h : s.Inv) (hc : c < 256) (hfl : s.flag c = true) : (s.push c).Inv := by
  obtain ⟨hli, hca⟩ := h.light hc hfl
  obtain ⟨a, ha⟩ := h.replace hc hca hli.2 (f := ⟨.idle, false, s.held (s.current c)⟩) nofun
  have hmu : (s.push c).mutexView = s.mutexView := by
    have hpc : (s.push c).mutexView.pc = s.mutexView.pc := by
      funext u k
      by_cases hu : u = s.current c ∧ k = s.depth u + 1
      · obtain ⟨rfl, rfl⟩ := hu
        have hold := h.threads.above (s.current c) (s.depth (s.current c) + 1) (Nat.lt_succ_self _)
        show ((s.push c).frame _ _).pc.mutexCall = (s.frame _ _).pc.mutexCall
        rw [hold, push_frame]
      · exact congrArg (fun f : Frame => f.pc.mutexCall) (push_frame_ne hu)
    show (⟨_, (s.push c).mutexView.pc, _⟩ : MutexView) = _
    rw [hpc]
    rfl
  have hsp : (s.push c).spinView = s.spinView.setCpu c false false none := by
    refine spinView_setCpu hc rfl (update_self ..) (congrArg Frame.flag push_top) rfl
      (congrArg (fun f : Frame => f.pc.spinCall) push_top)
      fun d hd => ⟨update_of_ne hd .., rfl, fun hlt => ?_⟩
    exact ⟨push_top_ne fun heq => hd (h.threads.inj d c hlt hc heq), rfl⟩
  refine ⟨hmu ▸ h.mutex, ⟨a, hsp ▸ ha⟩, h.threads.change hc rfl (fun u hu => ⟨push_depth_ne hu, ?_, rfl⟩)
    (fun k hk => ?_) (fun k hk => ?_) fun k hk => ?_⟩
  · exact update_of_ne hu ..
  · rw [push_depth] at hk
    rw [push_frame_ne (by omega)]
    exact h.threads.above _ k (by omega)
  · rw [push_depth] at hk
    by_cases htop : k = s.depth (s.current c) + 1
    · have hse : (s.push c).seen (s.current c) (s.depth (s.current c) + 1) = s.held (s.current c) :=
        if_pos push_depth.symm
      rw [htop, push_frame, hse]
      exact ⟨suffix_refl _, hca, nofun⟩
    · rw [push_frame_ne fun hu => htop hu.2, push_seen (by omega)]
      exact h.threads.frames _ k (by omega)
  · rw [push_depth] at hk
    rw [push_frame_ne (by omega)]
    by_cases htop : k = s.depth (s.current c)
    · exact htop ▸ hli
    · exact h.threads.lower _ k (by omega)

section
variable {u k : Nat}

theorem pop_depth : (s.pop c).depth (s.current c) = s.depth (s.current c) - 1 := update_self ..

theorem pop_depth_ne (h : u ≠ s.current c) : (s.pop c).depth u = s.depth u := update_of_ne h ..

theorem pop_top_ne (h : u ≠ s.current c) : (s.pop c).top u = s.top u := by
  unfold top
  rw [pop_depth_ne h]
  rfl

theorem pop_top : (s.pop c).top (s.current c) = s.frame (s.current c) (s.depth (s.current c) - 1) := by
  unfold top
  rw [pop_depth]
  rfl

end

theorem Inv.pop (h : s.Inv) (hc : c < 256) (hid : (s.top (s.current c)).pc = .idle)
    (hde : s.depth (s.current c) ≠ 0) (hhe : s.held (s.current c) = (s.top (s.current c)).saved) :
    (s.pop c).Inv := by
  have hca : spins (s.held (s.current c)) = [] := hhe ▸ (h.threads.top _).calm
  have hli := h.threads.lower (s.current c) (s.depth (s.current c) - 1) (by omega)
  obtain ⟨a, ha⟩ := h.replace hc hca (by rw [hid]; nofun) fun i p hp => ⟨hli.1, hli.2 i p hp⟩
  have hsp : (s.pop c).spinView = s.spinView.setCpu c (s.frame (s.current c) (s.depth (s.current c) - 1)).flag
      (s.frame (s.current c) (s.depth (s.current c) - 1)).flag
      (s.frame (s.current c) (s.depth (s.current c) - 1)).pc.spinCall := by
    refine spinView_setCpu hc rfl (update_self ..) (congrArg Frame.flag pop_top) rfl
      (congrArg (fun f : Frame => f.pc.spinCall) pop_top)
      fun d hd => ⟨update_of_ne hd .., rfl, fun hlt => ?_⟩
    exact ⟨pop_top_ne fun heq => hd (h.threads.inj d c hlt hc heq), rfl⟩
  refine ⟨h.mutex, ⟨a, hsp ▸ ha⟩, h.threads.change hc rfl (fun u hu => ⟨pop_depth_ne hu, rfl, rfl⟩) (fun k hk => ?_)
    (fun k hk => ?_) fun k hk => ?_⟩
  · rw [pop_depth] at hk
    by_cases htop : k = s.depth (s.current c)
    · exact htop ▸ hid
    · exact h.threads.above _ k (by omega)
  · rw [pop_depth] at hk
    have hse : (s.pop c).seen (s.current c) k = s.seen (s.current c) k := by
      unfold seen
      rw [pop_depth, if_neg (show k ≠ s.depth (s.current c) by omega)]
      by_cases htop : k = s.depth (s.current c) - 1
      · rw [if_pos htop, show k + 1 = s.depth (s.current c) by omega]
        exact hhe
      · rw [if_neg htop]
        rfl
    rw [hse]
    exact h.threads.frames _ k (by omega)
  · rw [pop_depth] at hk
    exact h.threads.lower _ k (by omega)

theorem Inv.switchTo {u : Nat} (h : s.Inv) (hc : c < 256) (hyi : (s.top (s.current c)).pc.yields = true)
    (hca : spins (s.held (s.current c)) = []) (hu : ∀ d < 256, s.current d ≠ u) : (s.switchTo c u).Inv := by
  have hnn : (s.top (s.current c)).pc.spinCall = none := by
    cases hpc : (s.top (s.current c)).pc with
    | spin i p =>
      rw [hpc] at hyi
      cases hyi
    | _ => rfl
  obtain ⟨hca', hnn'⟩ := h.threads.parked u hu
  obtain ⟨a, ha⟩ := h.replace hc hca (by rw [hnn]; nofun) (f := s.top u) (by rw [hnn']; nofun)
  have hse : (s.switchTo c u).current c = u := update_self ..
  have hot {d : Nat} (hd : d ≠ c) : (s.switchTo c u).current d = s.current d := update_of_ne hd ..
  have hsp : (s.switchTo c u).spinView = s.spinView.setCpu c (s.top u).flag (s.top u).flag (s.top u).pc.spinCall := by
    refine spinView_setCpu hc rfl (update_self ..) ?_ ?_ ?_ fun d hd =>
      ⟨update_of_ne hd .., hot hd, fun _ => ⟨rfl, rfl⟩⟩
    · rw [hse]
      rfl
    · rw [hse]
      exact hca'.trans hca.symm
    · rw [hse]
      rfl
  refine ⟨h.mutex, ⟨a, hsp ▸ ha⟩, fun d e hd he heq => ?_, h.threads.above, h.threads.frames, h.threads.lower,
    fun x hx => ?_⟩
  · by_cases hdc : d = c
    · by_cases hec : e = c
      · exact hdc.trans hec.symm
      · rw [hdc, hse, hot hec] at heq
        exact absurd heq.symm (hu e he)
    · by_cases hec : e = c
      · rw [hec, hse, hot hdc] at heq
        exact absurd heq (hu d hd)
      · rw [hot hdc, hot hec] at heq
        exact h.threads.inj d e hd he heq
  · by_cases hxt : x = s.current c
    · subst hxt
      exact ⟨hca, hnn⟩
    · refine h.threads.parked x fun d hd heq => ?_
      by_cases hdc : d = c
      · exact hxt (hdc ▸ heq.symm)
      · exact hx d hd ((hot hdc).trans heq)

/-! ## Whole runs -/

theorem Inv.call (h : s.Inv) (hc : c < 256) (hid : (s.top (s.current c)).pc = .idle) (l : Lock)
    (hfl : (Act.lock l).onMutex = true → s.flag c = true) : ∃ s', s.call c l = .ok s' ∧ s'.Inv := by
  have htop := h.threads.top (s.current c)
  cases l with
  | mutex m => exact ⟨_, if_pos (hfl rfl), h.beginMutex hc hid rfl (htop.goto (by rw [hid]; rfl))⟩
  | spin i =>
    exact ⟨_, rfl, h.beginSpin hc hid rfl (fun _ _ _ => trivial) (htop.goto (by rw [hid]; rfl))⟩

theorem Inv.callUnlock (h : s.Inv) (hc : c < 256) (hid : (s.top (s.current c)).pc = .idle) {l : Lock}
    (hhe : (s.held (s.current c)).head? = some l)
    (hown : s.held (s.current c) ≠ (s.top (s.current c)).saved)
    (hfl : (Act.unlock l).onMutex = true → s.flag c = true) : ∃ s', s.callUnlock c l = .ok s' ∧ s'.Inv := by
  have htop := h.threads.top (s.current c)
  obtain ⟨rest, hre⟩ := head?_eq_some_iff.mp hhe
  have hsa : (s.top (s.current c)).saved <:+ rest := by
    rcases suffix_cons_iff.mp (hre ▸ htop.saved) with heq | hsu
    · exact absurd (hre.trans heq.symm) hown
    · exact hsu
  have hok {pc : Pc} (hpc : pc.unlocking = some l) :
      FrameOk (s.held (s.current c)) { s.top (s.current c) with pc := pc } := by
    refine ⟨htop.saved, htop.calm, fun l' hl' => ?_⟩
    rw [show ({ s.top (s.current c) with pc := pc } : Frame).pc.unlocking = some l from hpc] at hl'
    cases hl'
    exact ⟨rest, hre, hsa⟩
  cases l with
  | mutex m => exact ⟨_, if_pos (hfl rfl), h.beginMutex hc hid rfl (hok rfl)⟩
  | spin i =>
    have hoff : s.flag c = false := by
      rw [h.flag_eq hc (congrArg Pc.spinCall hid), hre]
      exact Bool.and_false _
    refine ⟨_, if_neg (by rw [hoff]; exact Bool.false_ne_true), h.beginSpin hc hid rfl (fun _ v hv => ?_) (hok rfl)⟩
    exact ⟨spins rest, by rw [hv, hre]; rfl⟩

theorem Inv.exec {e : Event} (h : s.Inv) (hp : s.Proper e) :
    (∃ s', s.exec e = .ok s' ∧ s'.Inv) ∨ s.exec e = .error .impossible := by
  obtain ⟨c, act⟩ := e
  obtain ⟨⟨hc, hns⟩, hfl, hsh⟩ := hp
  have hif {p : Prop} [Decidable p] {x : Except Failure State} (hx : p → ∃ s', x = .ok s' ∧ s'.Inv) :
      (∃ s', (if p then x else .error .impossible) = .ok s' ∧ s'.Inv) ∨
        (if p then x else .error .impossible) = .error .impossible := by
    by_cases hp : p
    · rw [if_pos hp]
      exact .inl (hx hp)
    · rw [if_neg hp]
      exact .inr rfl
  cases act with
  | lock l => exact hif fun hid => h.call hc hid l hfl
  | unlock l => exact hif fun hid => h.callUnlock hc hid hns.1 hns.2 hfl
  | go =>
    unfold Shallow at hsh
    show (∃ s', s.go c = .ok s' ∧ s'.Inv) ∨ s.go c = .error .impossible
    cases hpc : (s.top (s.current c)).pc with
    | idle =>
      right
      unfold go
      rw [hpc]
    | mutex m p =>
      rw [hpc] at hsh
      exact .inl (h.goMutex hc hpc hsh)
    | spin i p =>
      rw [hpc] at hsh
      exact .inl (h.goSpin hc hpc hsh)
  | setFlag b => exact hif fun hid => ⟨_, rfl, h.putFlag hc hid hns b⟩
  | interrupt => exact hif fun hfl => ⟨_, rfl, h.push hc hfl⟩
  | iret => exact hif fun hid => ⟨_, rfl, h.pop hc hid.1 hid.2 hns⟩
  | switch u => exact hif fun hyi => ⟨_, rfl, h.switchTo hc hyi hns.1 hns.2⟩

theorem Init.inv (h : Init s) : s.Inv := by
  have hpc (t k : Nat) : (s.frame t k).pc = .idle := h.pc t k
  refine ⟨⟨.free, ?_⟩, ⟨.free, ?_⟩, h.current, fun t k _ => hpc t k, fun t k hk => ?_, fun t k hk => ?_,
    fun t _ => ?_⟩
  · have hnn (t k : Nat) : s.mutexView.pc t k = none := congrArg Pc.mutexCall (hpc t k)
    refine ⟨?_, fun {t k m p} hp => ?_, fun {t k t' k' m p p'} hp => ?_, fun {t k m p} hp => ?_, fun m _ => ?_⟩
    · rw [show s.mutexView.held = fun _ => [] from funext fun t => congrArg mutexes (h.held t)]
      exact Mutexes.holds_free
    · rw [hnn] at hp
      cases hp
    · rw [hnn] at hp
      cases hp
    · rw [hnn] at hp
      cases hp
    · show MutexView.Same _ (s.mutex m) m
      rw [h.mutex]
      exact ⟨rfl, rfl⟩
  · have hnn (c : Nat) : s.spinView.pc c = none := by
      show (if c < 256 then _ else none) = _
      split
      · exact congrArg Pc.spinCall (hpc _ _)
      · rfl
    have hhe (c : Nat) : s.spinView.held c = [] := by
      show (if c < 256 then _ else []) = _
      split
      · rw [h.held]
        rfl
      · rfl
    refine ⟨?_, fun c hc => ?_, fun c => ?_, fun i _ => ?_, fun i c hc => ?_, fun {c i p} hp => ?_⟩
    · rw [show s.spinView.held = fun _ => [] from funext hhe]
      exact Mutexes.holds_free
    · rw [hnn, hhe] at hc
      exact absurd hc (by simp)
    · rw [SpinView.want, SpinView.masked, hhe, hnn]
      show (decide (c < 256) && s.flag c) = (((decide (c < 256) && _) && true) && true)
      by_cases hc : c < 256
      · rw [h.flag c hc]
        simp
      · simp [hc]
    · show (s.spin i).level = 0 ∧ ((s.spin i).lock = 0 ∨ _)
      rw [h.spin]
      exact ⟨rfl, .inl rfl⟩
    · cases hc
    · rw [hnn] at hp
      cases hp
  · have hse : s.seen t k = [] := by
      unfold seen
      rw [h.held, h.saved, ite_self]
    rw [hse]
    refine ⟨?_, ?_, ?_⟩
    · rw [h.saved]
    · rw [h.saved]
      rfl
    · intro l hl
      rw [hpc] at hl
      cases hl
  · rw [h.depth] at hk
    exact absurd hk (Nat.not_lt_zero k)
  · refine ⟨?_, ?_⟩
    · rw [h.held]
      rfl
    · exact congrArg Pc.spinCall (hpc t _)

theorem mem_mutexes : m ∈ mutexes l ↔ .mutex m ∈ l := by
  rw [mutexes, mem_filterMap]
  exact ⟨by rintro ⟨_ | _, hmem, heq⟩ <;> cases heq; exact hmem, fun hmem => ⟨_, hmem, rfl⟩⟩

theorem mem_spins : i ∈ spins l ↔ .spin i ∈ l := by
  rw [spins, mem_filterMap]
  exact ⟨by rintro ⟨_ | _, hmem, heq⟩ <;> cases heq; exact hmem, fun hmem => ⟨_, hmem, rfl⟩⟩

theorem count_mutexes : (mutexes l).count m = l.count (.mutex m) := by
  rw [mutexes, count_filterMap, count_eq_countP]
  exact countP_congr fun x _ => by cases x <;> simp

theorem count_spins : (spins l).count i = l.count (.spin i) := by
  rw [spins, count_filterMap, count_eq_countP]
  exact countP_congr fun x _ => by cases x <;> simp

theorem mutexCall_eq {pc : Pc} (h : pc.mutexCall = some (m, p)) : pc = .mutex m p := by
  cases pc <;> cases h
  rfl

theorem spinCall_eq {pc : Pc} {p : SpinPc} (h : pc.spinCall = some (i, p)) : pc = .spin i p := by
  cases pc <;> cases h
  rfl

theorem Inv.safe (h : s.Inv) : s.Safe := by
  obtain ⟨⟨a, hm⟩, ⟨b, hs⟩, ht⟩ := h
  have hmx (m t : Nat) (hmem : Lock.mutex m ∈ s.held t) : a.holder m = some t :=
    (hm.holds.mem t m).mp (mem_mutexes.mpr hmem)
  have hsp (i c : Nat) (hc : c < 256) (hmem : Lock.spin i ∈ s.held (s.current c)) : b.holder i = some c :=
    (hs.holds.mem c i).mp (by rw [spinView_held hc]; exact mem_spins.mpr hmem)
  refine ⟨fun m t u hmt hmu => ?_, fun m t hmt hout => ?_, fun i t hmem => ?_, fun i c d hc hd hic hid => ?_,
    fun i c hc hmem hout => ?_, fun i c hc hmem => ?_, fun c hc hil hnn => ?_⟩
  · exact Option.some.inj ((hmx m t hmt).symm.trans (hmx m u hmu))
  · have hho := hmx m t hmt
    obtain ⟨hh, hl⟩ := hm.same_of_holder hho fun k p hpc => by
      rw [← Bool.not_eq_true]
      exact fun hin => hout ⟨k, p, mutexCall_eq hpc, hin⟩
    exact ⟨hh.trans hho, hl.trans ((hm.holds.level t m hho).trans count_mutexes)⟩
  · by_contra hpa
    have hnil := (ht.parked t fun c hc heq => hpa ⟨c, hc, heq⟩).1
    exact absurd (mem_spins.mpr hmem) (by rw [hnil]; exact not_mem_nil)
  · exact Option.some.inj ((hsp i c hc hic).symm.trans (hsp i d hd hid))
  · have hho := hsp i c hc hmem
    have hle := (hs.owned i c hho).2 fun w hpc => hout _ (spinCall_eq ((spinView_pc hc).symm.trans hpc))
    have hco := hs.holds.level c i hho
    rw [spinView_held hc, count_spins] at hco
    exact hle.trans hco
  · have hfl := hs.flag c
    have hne : (s.spinView.held c).isEmpty = false := by
      rw [spinView_held hc, isEmpty_eq_false_iff]
      exact ne_nil_of_mem (mem_spins.mpr hmem)
    rw [spinView_flag hc, SpinView.want, hne, Bool.and_false, Bool.false_and] at hfl
    exact hfl
  · have hfl := Inv.flag_eq ⟨⟨a, hm⟩, ⟨b, hs⟩, ht⟩ hc (congrArg Pc.spinCall hil)
    rw [hnn] at hfl
    exact hfl.trans (Bool.and_true _)

theorem locks_safe {s₀ : State} (h₀ : s₀.Init) (hr : Run Step Proper s₀ s) :
    s.Safe ∧ ∀ e, s.Proper e → s.exec e ≠ .error .assertion := by
  have hinv : s.Inv := by
    refine hr.invariant (I := Inv) h₀.inv fun s e s' h hst hp => ?_
    rcases h.exec hp with ⟨s'', heq, hs⟩ | heq
    · cases heq.symm.trans hst
      exact hs
    · cases heq.symm.trans hst
  refine ⟨hinv.safe, fun e hp => ?_⟩
  rcases hinv.exec hp with ⟨s', heq, -⟩ | heq
  all_goals
    rw [heq]
    nofun

theorem locks_safe_waiting : ∃ s, Run Step Proper start s ∧
      (s.held 0 = [.spin 1, .spin 1, .mutex 0] ∧ (s.top 1).pc = .spin 1 (.lockCas true 1)) ∧
      s.Safe ∧ ∀ e, s.Proper e → s.exec e ≠ .error .assertion := by
  obtain ⟨s, hr, hs⟩ := exists_follow_except exec Proper
    (⟨0, .lock (.mutex 0)⟩ :: replicate 6 ⟨0, .go⟩ ++ ⟨0, .lock (.spin 1)⟩ :: replicate 7 ⟨0, .go⟩ ++
      ⟨1, .lock (.spin 1)⟩ :: replicate 4 ⟨1, .go⟩ ++ ⟨0, .lock (.spin 1)⟩ :: replicate 6 ⟨0, .go⟩)
    start (fun s => s.held 0 = [.spin 1, .spin 1, .mutex 0] ∧ (s.top 1).pc = .spin 1 (.lockCas true 1))
    (by decide +kernel)
  exact ⟨s, hr, hs, locks_safe start_init hr⟩

/-- A task that has locked a spinlock calls `mutex_lock`, with interrupts off. -/
theorem mutex_lock_under_spinlock : ∃ s, Run Step Nested start s ∧ s.Nested ⟨0, .lock (.mutex 0)⟩ ∧
      s.exec ⟨0, .lock (.mutex 0)⟩ = .error .assertion := by
  obtain ⟨s, hr, hid, hfl⟩ := exists_follow_except exec Nested
    (⟨0, .lock (.spin 0)⟩ :: replicate 7 ⟨0, .go⟩) start
    (fun s => (s.top (s.current 0)).pc = .idle ∧ s.flag 0 = false) (by decide +kernel)
  refine ⟨s, hr, ⟨by decide, trivial⟩, ?_⟩
  show (if (s.top (s.current 0)).pc = .idle then s.call 0 (.mutex 0) else _) = _
  rw [if_pos hid]
  exact if_neg (by rw [hfl]; exact Bool.false_ne_true)

/-- Unlocks in the order of the locks, mutexes with interrupts on, any number of nested locks. -/
def Unbounded (s : State) (e : Event) : Prop := s.Nested e ∧ (e.act.onMutex = true → s.flag e.cpu = true)

/-- `s` while task 0 is at `p` of a call for mutex 0. -/
def calling (s : State) (mx : Mutex) (p : MutexPc) : State :=
  { s with mutex := update s.mutex 0 mx }.setPc 0 (.mutex 0 p)

theorem calling_go {s u : State} {mx mx' : Mutex} {p q : MutexPc} (hc : s.current 0 = 0)
    (hr : Run Step Unbounded u (s.calling mx p)) (h : mutexStep mx 0 p = some (mx', .goto q)) :
    Run Step Unbounded u (s.calling mx' q) := by
  refine hr.tail (e := ⟨0, .go⟩) ?_ ⟨⟨by decide, trivial⟩, nofun⟩
  simp [Step, calling, exec, go, setPc, setTop, top, hc, h, settle]

structure LockedTimes (n : Nat) (s : State) : Prop where
  current : s.current 0 = 0
  flag : s.flag 0 = true
  pc : ∀ k, (s.frame 0 k).pc = .idle
  held : s.held 0 = replicate n (.mutex 0)
  mutex : ∃ h, s.mutex 0 = ⟨false, h, BitVec.ofNat 32 n⟩ ∧ (h = none ∨ h = some 0)

theorem LockedTimes.lock {n : Nat} {s : State} (hs : LockedTimes n s) :
    ∃ s', Run Step Unbounded s s' ∧ LockedTimes (n + 1) s' := by
  obtain ⟨hc, hf, hpc, hh, h, hm, hor⟩ := hs
  have hcas : Run Step Unbounded s (s.calling ⟨false, h, BitVec.ofNat 32 n⟩ .lockCas) := by
    refine .tail (e := ⟨0, .lock (.mutex 0)⟩) (.refl s) ?_ ⟨⟨by decide, trivial⟩, fun _ => hf⟩
    simp [Step, exec, top, hc, hpc, call, hf, calling, ← hm]
  have hhold := calling_go hc (calling_go hc hcas rfl) (if_pos hor)
  have hdone := calling_go hc (calling_go hc (calling_go hc hhold rfl) rfl) rfl
  have hlast : Step (s.calling ⟨true, some 0, BitVec.ofNat 32 n + 1⟩ .lockDone) ⟨0, .go⟩
      { s.setPc 0 .idle with
        mutex := update s.mutex 0 ⟨false, some 0, BitVec.ofNat 32 n + 1⟩
        held := update s.held 0 (.mutex 0 :: s.held 0) } := by
    simp [Step, calling, exec, go, setPc, setTop, top, hc, mutexStep, settle]
  refine ⟨_, hdone.tail hlast ⟨⟨by decide, trivial⟩, nofun⟩, hc, hf, fun k => ?_, ?_, some 0, ?_, .inr rfl⟩
  · by_cases hk : k = s.depth 0 <;> simp [setPc, setTop, hk, hpc]
  · simp [hh, replicate_succ]
  · simp [BitVec.ofNat_add]

theorem lockedTimes (n : Nat) : ∃ s, Run Step Unbounded start s ∧ LockedTimes n s := by
  induction n with
  | zero => exact ⟨_, .refl _, rfl, rfl, fun _ => rfl, rfl, none, rfl, .inl rfl⟩
  | succ n ih =>
    obtain ⟨s, hr, hs⟩ := ih
    obtain ⟨s', hr', hs'⟩ := hs.lock
    exact ⟨s', hr.trans hr', hs'⟩

/-- The level of a mutex locked 2^32 times by its holder is 0 again. -/
theorem mutex_level_wraps : ∃ s, Run Step Unbounded start s ∧ ¬ s.Safe := by
  obtain ⟨s, hr, hs⟩ := lockedTimes (2 ^ 32)
  refine ⟨s, hr, fun h => ?_⟩
  obtain ⟨x, hm, -⟩ := hs.mutex
  have hmem : Lock.mutex 0 ∈ s.held 0 := by
    rw [hs.held]
    exact mem_replicate.mpr ⟨by decide, rfl⟩
  have hout : ¬ s.Inside 0 0 := by
    rintro ⟨k, p, hp, -⟩
    cases (hs.pc k).symm.trans hp
  have hlev := (h.mutexLevel 0 0 hmem hout).2
  rw [hm, hs.held, count_replicate_self] at hlev
  exact absurd hlev (by simp)

end

end State

end Locks

end Yagura
