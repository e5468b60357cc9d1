import Yagura.Pipe

/-!
# Hanging up

What `unix_socket_pwrite` and `unix_socket_pread` do on one endpoint of a
connected pair once the other one is closed or shut down. The connecting and the
accepting endpoint are not treated alike: `is_writable` of the connecting
endpoint never becomes true again. Which is which, `is_connector` tells by the
address of the file, also when the connecting file is freed before the accepting
one is allocated.
-/

namespace Yagura

open Function List Option UnixSocket

namespace UnixSocket

/-! ## Steps of other threads -/

def Event.thread : Event → Option Nat
  | .read t _ _ | .write t _ _ | .resume t | .giveUp t _ => some t
  | .accept | .acceptFile _ | .shutdown _ _ | .close _ => none

/-- An endpoint is closed, or the one of side `g` is shut down for reading. -/
def endsReading (s : UnixSocket) (g : Side) : Event → Prop
  | .close _ => True
  | .shutdown file how => s.side file = g ∧ how ≠ .SHUT_WR
  | _ => False

def endsWriting (s : UnixSocket) (g : Side) : Event → Prop
  | .close _ => True
  | .shutdown file how => s.side file = g ∧ how ≠ .SHUT_RD
  | _ => False

section
variable {s s' : UnixSocket} {t u : Nat} {e : Event} {f : Side}

theorem goto_pc (p : SocketPc) : (s.goto t p).pc = update s.pc t p := rfl

theorem resume_frame (h : s.resume t = some s') : (∃ p, s'.pc = update s.pc t p) ∧ s'.isOpen = s.isOpen ∧
      ∀ f, (s.chan f).transfers <+: (s'.chan f).transfers := by
  have hco : ∀ (f : Side) (c : Channel), (s.chan f).transfers <+: c.transfers →
      ∀ g, (s.chan g).transfers <+: ((s.setChan f c).chan g).transfers := by
    intro f c hc g
    by_cases hg : g = f
    · subst hg
      rwa [setChan_self]
    · rw [setChan_of_ne s hg]
  unfold resume at h
  generalize hpc : s.pc t = p at h
  cases p with
  | user r =>
    cases h
  | readBlock f count | readLock f count | writeBlock f bytes | writeLock f bytes =>
    dsimp only at h
    split at h
    · cases h
      exact ⟨⟨_, rfl⟩, rfl, fun _ => prefix_rfl⟩
    · cases h
  | readLocked f count | readUnlock f count | readOpen f count | writeOpen f bytes | writeLocked f bytes
  | writeUnlock f bytes | done f x =>
    cases h
    exact ⟨⟨_, rfl⟩, rfl, fun _ => prefix_rfl⟩
  | readCopy | writeCopy =>
    cases h
    exact ⟨⟨_, rfl⟩, rfl, hco _ _ (prefix_append _ _)⟩

theorem giveUp_frame {rc : Errno} (h : s.giveUp t rc = some s') : s' = s.goto t (.user (.error rc)) ∧
    ((∃ f count, s.pc t = .readBlock f count) ∨ ∃ f bytes, s.pc t = .writeBlock f bytes) := by
  unfold giveUp at h
  split at h
  · rename_i f count hpc
    cases h
    exact ⟨rfl, .inl ⟨f, count, hpc⟩⟩
  · rename_i f bytes hpc
    cases h
    exact ⟨rfl, .inr ⟨f, bytes, hpc⟩⟩
  · cases h

theorem exec_frame (h : s.exec e = some s') :
    (∀ u, e.thread ≠ some u → s'.pc u = s.pc u) ∧ (∀ f, s.isOpen f = false → s'.isOpen f = false) ∧
      ∀ f, (s.chan f).transfers <+: (s'.chan f).transfers := by
  have hgo : ∀ t p, (∀ u, some t ≠ some u → (s.goto t p).pc u = s.pc u) ∧
      (∀ f, s.isOpen f = false → (s.goto t p).isOpen f = false) ∧
        ∀ f, (s.chan f).transfers <+: ((s.goto t p).chan f).transfers := fun t p =>
    ⟨fun u hu => update_of_ne (fun heq => hu (congrArg some heq.symm)) _ _, fun _ hf => hf, fun _ => prefix_rfl⟩
  cases e with
  | accept =>
    cases h
    exact ⟨fun _ _ => rfl, fun _ hf => hf, fun _ => prefix_rfl⟩
  | acceptFile file =>
    simp only [exec] at h
    split at h
    · cases h
      exact ⟨fun _ _ => rfl, fun _ hf => hf, fun _ => prefix_rfl⟩
    · cases h
  | shutdown file how =>
    simp only [exec] at h
    split at h
    · cases h
      refine ⟨fun _ _ => rfl, fun f hf => ?_, fun _ => prefix_rfl⟩
      show (if _ then false else s.isOpen f) = false
      rw [hf, ite_self]
    · cases h
  | close file =>
    simp only [exec] at h
    split at h
    · cases h
      exact ⟨fun _ _ => rfl, fun _ _ => rfl, fun _ => prefix_rfl⟩
    · cases h
  | read t g count =>
    simp only [exec] at h
    split at h
    · split at h
      · cases h
        exact hgo t _
      · cases h
    · cases h
  | write t g bytes =>
    simp only [exec] at h
    split at h
    · split at h
      · cases h
        exact hgo t _
      · cases h
    · cases h
  | resume t =>
    obtain ⟨⟨p, hpc⟩, hop, htr⟩ := resume_frame h
    refine ⟨fun u hu => ?_, fun f hf => hop ▸ hf, htr⟩
    rw [hpc]
    exact update_of_ne (fun heq => hu (congrArg some heq.symm)) _ _
  | giveUp t rc =>
    obtain ⟨rfl, -⟩ := giveUp_frame h
    exact hgo t _

theorem isOpen_of_ends {g : Side} (h : s.exec e = some s') (he : s.endsReading g e ∨ s.endsWriting g.other e) :
    s'.isOpen g = false := by
  cases e with
  | close file =>
    simp only [exec] at h
    split at h
    · cases h
      rfl
    · cases h
  | shutdown file how =>
    simp only [exec] at h
    split at h
    case isFalse => cases h
    cases h
    have hco : (g = s.side file ∧ (how = .SHUT_RD ∨ how = .SHUT_RDWR)) ∨
        (g = (s.side file).other ∧ (how = .SHUT_WR ∨ how = .SHUT_RDWR)) := by
      rcases he with ⟨hsi, hhow⟩ | ⟨hsi, hhow⟩
      · refine .inl ⟨hsi.symm, ?_⟩
        cases how <;> simp_all
      · refine .inr ⟨by rw [hsi]; cases g <;> rfl, ?_⟩
        cases how <;> simp_all
    exact if_pos hco
  | accept | acceptFile | read | write | resume | giveUp => simp [endsReading, endsWriting] at he

theorem isOpen_of_run {ok : UnixSocket → Event → Prop} (hr : Run Step ok s s') (hf : s.isOpen f = false) :
    s'.isOpen f = false :=
  hr.invariant (I := fun u => u.isOpen f = false) hf fun _ _ _ h hs _ => (exec_frame hs).2.1 f h

end

/-! ## One call -/

def Ready (s : UnixSocket) (t : Nat) : Prop :=
  match s.pc t with
  | .readBlock f _ => s.isReadable f = true
  | .writeBlock f _ => s.isWritable f = true
  | _ => False

/-- The thread begins no other call, and `file_block` does not fail when it need not wait. -/
def Stays (t : Nat) (s : UnixSocket) (e : Event) : Prop :=
  match e with
  | .read u _ _ | .write u _ _ => u ≠ t
  | .giveUp u _ => u = t → ¬ s.Ready t
  | _ => True

section
variable {s s' : UnixSocket} {t : Nat} {e : Event}

theorem Stays.cases (hok : Stays t s e) (h : s.exec e = some s') :
    e ≠ .resume t ∧ s'.pc t = s.pc t ∨ e = .resume t ∨ ¬ s.Ready t ∧
      ((∃ f count, s.pc t = .readBlock f count) ∨ ∃ f bytes, s.pc t = .writeBlock f bytes) ∧
        ∃ rc, s'.pc t = .user (.error rc) := by
  by_cases hth : e.thread = some t
  · cases e with
    | accept | acceptFile | shutdown | close => cases hth
    | read | write => exact absurd (some.inj hth) hok
    | resume u =>
      obtain rfl : u = t := some.inj hth
      exact .inr (.inl rfl)
    | giveUp u rc =>
      obtain rfl : u = t := some.inj hth
      obtain ⟨rfl, hbl⟩ := giveUp_frame h
      exact .inr (.inr ⟨hok rfl, hbl, rc, update_self ..⟩)
  · refine .inl ⟨?_, (exec_frame h).1 t hth⟩
    rintro rfl
    exact hth rfl

end

end UnixSocket

/-! ## Writing -/

/-- A socket, and how often a write of each thread has sent the thread a `SIGPIPE`. -/
structure SignallingSocket where
  socket : UnixSocket
  sigpipe : Nat → Nat

namespace SignallingSocket

open UnixSocket (Stays Ready)

def sends (s : UnixSocket) (t : Nat) : Bool :=
  match s.pc t with
  | .writeOpen f _ => f = .acceptor ∧ s.isOpen .connector = false
  | _ => false

def create (file : Nat) (rings : Side → Nat → UInt8) : SignallingSocket := ⟨.create file rings, fun _ => 0⟩

def exec (s : SignallingSocket) (e : UnixSocket.Event) : Option SignallingSocket :=
  (s.socket.exec e).map fun s' => ⟨s', match e with
    | .resume t => if sends s.socket t then update s.sigpipe t (s.sigpipe t + 1) else s.sigpipe
    | _ => s.sigpipe⟩

def Step (s : SignallingSocket) (e : UnixSocket.Event) (s' : SignallingSocket) : Prop := s.exec e = some s'

/-- Left alone, the call of the thread returns within `n` steps, with `P`. -/
def ReturnsWithin (t : Nat) (P : SignallingSocket → Result → Prop) : Nat → SignallingSocket → Prop
  | 0, s => ∃ r, s.socket.pc t = .user r ∧ P s r
  | n + 1, s => (∃ r, s.socket.pc t = .user r ∧ P s r) ∨ ∃ s', s.Step (.resume t) s' ∧ ReturnsWithin t P n s'

/-- Of a socket that was connected through `file`: whatever else happens, a write through a file of side `f`
that waits or begins when the other endpoint no longer reads is on its way to return `EPIPE`, after one
`SIGPIPE`. -/
def WritesSeeHangUp (file : Nat) (f : Side) : Prop :=
  ∀ rings s₀ e s₁ s t bytes, Run Step (fun _ _ => True) (create file rings) s₀ → s₀.Step e s₁ →
    s₀.socket.endsReading f.other e → Run Step (fun _ _ => True) s₁ s → s.socket.pc t = .writeBlock f bytes →
      ∀ s', Run Step (fun s e => Stays t s.socket e) s s' →
        ReturnsWithin t (fun u r => r = .error .EPIPE ∧ u.sigpipe t = s.sigpipe t + 1) 2 s'

section
variable {s s' : SignallingSocket} {t : Nat} {e : UnixSocket.Event} {bytes : List UInt8} {k : Nat}

theorem exec_socket (h : s.exec e = some s') : s.socket.exec e = some s'.socket := by
  obtain ⟨u, hu, rfl⟩ := map_eq_some_iff.mp h
  exact hu

theorem exec_sigpipe (h : s.exec e = some s') (ht : e ≠ .resume t ∨ sends s.socket t = false) :
    s'.sigpipe t = s.sigpipe t := by
  obtain ⟨u, hu, rfl⟩ := map_eq_some_iff.mp h
  cases e with
  | resume v =>
    show (if sends s.socket v then update s.sigpipe v (s.sigpipe v + 1) else s.sigpipe) t = s.sigpipe t
    split
    · rename_i hse
      refine update_of_ne ?_ _ _
      rintro rfl
      rcases ht with hne | hfa
      · exact hne rfl
      · cases hse.symm.trans hfa
    · rfl
  | _ => rfl

structure Refused (t : Nat) (bytes : List UInt8) (k : Nat) (s : SignallingSocket) : Prop where
  closed : s.socket.isOpen .connector = false
  place : (s.socket.pc t = .writeBlock .acceptor bytes ∧ s.sigpipe t = k) ∨
    (s.socket.pc t = .writeOpen .acceptor bytes ∧ s.sigpipe t = k) ∨
    s.socket.pc t = .user (.error .EPIPE) ∧ s.sigpipe t = k + 1

theorem resume_writeBlock (hc : s.socket.isOpen .connector = false)
    (hpc : s.socket.pc t = .writeBlock .acceptor bytes) :
    s.exec (.resume t) = some ⟨s.socket.goto t (.writeOpen .acceptor bytes), s.sigpipe⟩ := by
  have hwr : s.socket.isWritable .acceptor = true := by simp [UnixSocket.isWritable, hc]
  have hre : s.socket.exec (.resume t) = some (s.socket.goto t (.writeOpen .acceptor bytes)) := by
    simp only [UnixSocket.exec, UnixSocket.resume, hpc, hwr, if_true]
  have hse : sends s.socket t = false := by rw [sends, hpc]
  rw [exec, hre]
  simp only [map_some, hse]
  rfl

theorem resume_writeOpen (hc : s.socket.isOpen .connector = false)
    (hpc : s.socket.pc t = .writeOpen .acceptor bytes) :
    s.exec (.resume t) = some ⟨s.socket.goto t (.user (.error .EPIPE)), update s.sigpipe t (s.sigpipe t + 1)⟩ := by
  have hre : s.socket.exec (.resume t) = some (s.socket.goto t (.user (.error .EPIPE))) := by
    simp only [UnixSocket.exec, UnixSocket.resume, hpc, hc, and_self, if_true]
  have hse : sends s.socket t = true := by
    rw [sends, hpc]
    simp [hc]
  rw [exec, hre]
  simp only [map_some, hse, if_true]

theorem Refused.ready (h : Refused t bytes k s)
    (hbl : (∃ f count, s.socket.pc t = .readBlock f count) ∨ ∃ f b, s.socket.pc t = .writeBlock f b) :
    s.socket.Ready t := by
  rcases h.place with ⟨hpc, -⟩ | ⟨hpc, -⟩ | ⟨hpc, -⟩
  · simp [Ready, hpc, isWritable, h.closed]
  · simp [hpc] at hbl
  · simp [hpc] at hbl

theorem Refused.step (h : Refused t bytes k s) (hs : s.Step e s') (hok : Stays t s.socket e) :
    Refused t bytes k s' := by
  have hso := exec_socket hs
  refine ⟨(UnixSocket.exec_frame hso).2.1 _ h.closed, ?_⟩
  rcases hok.cases hso with ⟨hne, hpc⟩ | rfl | ⟨hnot, hbl, -⟩
  · rw [hpc, exec_sigpipe hs (.inl hne)]
    exact h.place
  · rcases h.place with ⟨hpc, hk⟩ | ⟨hpc, hk⟩ | ⟨hpc, hk⟩
    · cases (resume_writeBlock h.closed hpc).symm.trans hs
      exact .inr (.inl ⟨update_self .., hk⟩)
    · cases (resume_writeOpen h.closed hpc).symm.trans hs
      refine .inr (.inr ⟨update_self .., ?_⟩)
      rw [← hk]
      exact update_self ..
    · have hnn : s.socket.exec (.resume t) = none := by
        simp only [UnixSocket.exec, UnixSocket.resume, hpc]
      cases hnn.symm.trans hso
  · exact absurd (h.ready hbl) hnot

theorem Refused.returns (h : Refused t bytes k s) :
    ReturnsWithin t (fun u r => r = .error .EPIPE ∧ u.sigpipe t = k + 1) 2 s := by
  have hop : ∀ u : SignallingSocket, u.socket.isOpen .connector = false →
      u.socket.pc t = .writeOpen .acceptor bytes → u.sigpipe t = k →
      ReturnsWithin t (fun u r => r = .error .EPIPE ∧ u.sigpipe t = k + 1) 1 u := by
    intro u hc hpc hk
    refine .inr ⟨_, resume_writeOpen hc hpc, _, update_self .., rfl, ?_⟩
    rw [← hk]
    exact update_self ..
  rcases h.place with ⟨hpc, hk⟩ | ⟨hpc, hk⟩ | ⟨hpc, hk⟩
  · exact .inr ⟨_, resume_writeBlock h.closed hpc, hop _ h.closed (update_self ..) hk⟩
  · obtain hret | ⟨u, hu, hret⟩ := hop s h.closed hpc hk
    · exact .inl hret
    · exact .inr ⟨u, hu, .inl hret⟩
  · exact .inl ⟨_, hpc, rfl, hk⟩

theorem isOpen_of_run {f : Side} {ok : SignallingSocket → UnixSocket.Event → Prop} (hr : Run Step ok s s')
    (hf : s.socket.isOpen f = false) : s'.socket.isOpen f = false :=
  hr.invariant (I := fun u => u.socket.isOpen f = false) hf fun _ _ _ h hs _ =>
    (exec_frame (exec_socket hs)).2.1 f h

theorem acceptor_writes_see_hang_up (file : Nat) : WritesSeeHangUp file .acceptor := by
  intro rings s₀ e s₁ s t bytes _ he hen hrun hpc s' hr
  have hcl : s.socket.isOpen .connector = false :=
    isOpen_of_run hrun (isOpen_of_ends (exec_socket he) (.inl hen))
  have h : Refused t bytes (s.sigpipe t) s' :=
    hr.invariant (I := Refused t bytes (s.sigpipe t)) ⟨hcl, .inl ⟨hpc, rfl⟩⟩ fun _ _ _ h hs hok => h.step hs hok
  exact h.returns

theorem resume_stuck (hcl : s.socket.isOpen .acceptor = false)
    (hpc : s.socket.pc t = .writeBlock .connector bytes ∨ ∃ r, s.socket.pc t = .user r) :
    s.exec (.resume t) = none := by
  have hnn : s.socket.exec (.resume t) = none := by
    rcases hpc with hpc | ⟨r, hpc⟩
    · simp [UnixSocket.exec, UnixSocket.resume, hpc, UnixSocket.isWritable, hcl]
    · simp only [UnixSocket.exec, UnixSocket.resume, hpc]
  rw [exec, hnn]
  rfl

theorem connector_write_blocks (hcl : s.socket.isOpen .acceptor = false)
    (hpc : s.socket.pc t = .writeBlock .connector bytes) (hr : Run Step (fun s e => Stays t s.socket e) s s') :
    s'.exec (.resume t) = none := by
  have h : s'.socket.isOpen .acceptor = false ∧
      (s'.socket.pc t = .writeBlock .connector bytes ∨ ∃ r, s'.socket.pc t = .user r) := by
    refine hr.invariant (I := fun u => u.socket.isOpen .acceptor = false ∧
      (u.socket.pc t = .writeBlock .connector bytes ∨ ∃ r, u.socket.pc t = .user r))
      ⟨hcl, .inl hpc⟩ fun u e v ⟨hu, hpl⟩ hs hok => ?_
    have hso := exec_socket hs
    refine ⟨(exec_frame hso).2.1 _ hu, ?_⟩
    rcases hok.cases hso with ⟨-, hpc⟩ | rfl | ⟨-, -, rc, hrc⟩
    · rwa [hpc]
    · cases (resume_stuck hu hpl).symm.trans hs
    · exact .inr ⟨_, hrc⟩
  exact resume_stuck h.1 h.2

end

end SignallingSocket

/-! ## Reading -/

namespace UnixSocket

section
variable {s s' : UnixSocket} {t u : Nat} {e : Event} {f : Side} {count : Nat}

def Holding (s : UnixSocket) : Prop := ∀ t, s.lock = some t → (s.pc t).locked = true

theorem Holding.move {p : SocketPc} (hs : s.Holding) (hlo : s'.lock = s.lock) (hpc : s'.pc = update s.pc t p)
    (hp : (s.pc t).locked = true → p.locked = true) : s'.Holding := by
  intro u hu
  rw [hlo] at hu
  rw [hpc]
  by_cases hut : u = t
  · subst hut
    rw [update_self]
    exact hp (hs u hu)
  · rw [update_of_ne hut]
    exact hs u hu

theorem Holding.acquire {p : SocketPc} (hlo : s'.lock = some t) (hpc : s'.pc = update s.pc t p)
    (hp : p.locked = true) : s'.Holding := by
  intro u hu
  obtain rfl : t = u := mem_unique hlo hu
  rw [hpc, update_self]
  exact hp

theorem Holding.release (hlo : s'.lock = none) : s'.Holding := by
  intro u hu
  cases hlo.symm.trans hu

theorem Holding.resume (hs : s.Holding) (h : s.resume t = some s') : s'.Holding := by
  unfold UnixSocket.resume at h
  generalize hpc : s.pc t = p at h
  cases p with
  | user r =>
    cases h
  | readBlock f count | writeBlock f bytes =>
    dsimp only at h
    split at h
    · cases h
      exact hs.move rfl rfl (by rw [hpc]; nofun)
    · cases h
  | readLock f count | writeLock f bytes =>
    dsimp only at h
    split at h
    · cases h
      exact .acquire rfl rfl rfl
    · cases h
  | readLocked f count | writeLocked f bytes =>
    cases h
    exact hs.move rfl rfl fun _ => by split <;> rfl
  | readCopy f count | writeCopy f bytes =>
    cases h
    exact hs.move rfl rfl fun _ => rfl
  | readUnlock f count | writeUnlock f bytes | done f x =>
    cases h
    exact .release rfl
  | readOpen f count | writeOpen f bytes =>
    cases h
    exact hs.move rfl rfl (by rw [hpc]; nofun)

theorem Holding.step (hs : s.Holding) (h : s.Step e s') : s'.Holding := by
  unfold Step at h
  cases e with
  | accept =>
    cases h
    exact hs
  | acceptFile | shutdown | close =>
    simp only [exec] at h
    split at h
    · cases h
      exact hs
    · cases h
  | read t g count =>
    simp only [exec] at h
    split at h
    · rename_i r hpc
      split at h
      · cases h
        exact hs.move rfl rfl (by rw [hpc]; nofun)
      · cases h
    · cases h
  | write t g bytes =>
    simp only [exec] at h
    split at h
    · rename_i r hpc
      split at h
      · cases h
        exact hs.move rfl rfl (by rw [hpc]; nofun)
      · cases h
    · cases h
  | resume t => exact hs.resume h
  | giveUp t rc =>
    obtain ⟨rfl, hbl⟩ := giveUp_frame h
    refine hs.move rfl rfl fun hlo => ?_
    rcases hbl with ⟨f, count, hpc⟩ | ⟨f, bytes, hpc⟩
    · rw [hpc] at hlo
      cases hlo
    · rw [hpc] at hlo
      cases hlo

def LeavesWithin (u : Nat) : Nat → UnixSocket → Prop
  | 0, s => s.lock = none
  | n + 1, s => s.lock = none ∨ ∃ s', s.resume u = some s' ∧ LeavesWithin u n s'

def inside : SocketPc → Nat
  | .readLocked _ _ | .writeLocked _ _ => 3
  | .readCopy _ _ | .writeCopy _ _ => 2
  | .readUnlock _ _ | .writeUnlock _ _ | .done _ _ => 1
  | _ => 0

theorem inside_of_locked {p : SocketPc} (h : p.locked = true) : 0 < inside p ∧ inside p ≤ 3 := by
  cases p with
  | readLocked | readCopy | readUnlock | writeLocked | writeCopy | writeUnlock | done => simp [inside]
  | _ => cases h

theorem inside_resume (h : 0 < inside (s.pc u)) : ∃ s', s.resume u = some s' ∧
    (s'.lock = none ∨ 0 < inside (s'.pc u) ∧ inside (s'.pc u) < inside (s.pc u)) := by
  unfold resume
  cases hpc : s.pc u with
  | readLocked f n =>
    refine ⟨_, rfl, .inr ?_⟩
    simp only [goto_pc, update_self]
    split <;> simp [inside]
  | writeLocked f b =>
    refine ⟨_, rfl, .inr ?_⟩
    simp only [goto_pc, update_self]
    split <;> simp [inside]
  | readCopy f n =>
    refine ⟨_, rfl, .inr ?_⟩
    simp [goto_pc, inside]
  | writeCopy f b =>
    refine ⟨_, rfl, .inr ?_⟩
    simp [goto_pc, inside]
  | readUnlock | writeUnlock | done => exact ⟨_, rfl, .inl rfl⟩
  | _ =>
    rw [hpc] at h
    cases h

theorem leaves_within (n : Nat) (h : 0 < inside (s.pc u)) (hn : inside (s.pc u) ≤ n) : LeavesWithin u n s := by
  induction n generalizing s with
  | zero => omega
  | succ n ih =>
    obtain ⟨s', hs', hfr | ⟨hpos, hlt⟩⟩ := inside_resume h
    · refine .inr ⟨s', hs', ?_⟩
      cases n with
      | zero => exact hfr
      | succ n => exact .inl hfr
    · exact .inr ⟨s', hs', ih hpos (by omega)⟩

/-! ### A read after the hang-up -/

def looksAhead (f : Side) : SocketPc → Prop
  | .readBlock g _ | .readLock g _ | .readLocked g _ => g = f
  | _ => False

def left : SocketPc → Nat
  | .readBlock _ _ => 5
  | .readLock _ _ => 4
  | .readLocked _ _ => 3
  | .readCopy _ _ | .readUnlock _ _ => 2
  | .readOpen _ _ | .done _ _ => 1
  | _ => 0

/-- The read returns `0` only when all of `sent` has been delivered, and it waits only for the lock. -/
structure Drains (f : Side) (t : Nat) (sent : List UInt8) (s : UnixSocket) : Prop where
  result : ∀ r, s.pc t = .user r → (r = .eof ∧ sent <+: (s.chan f).delivered) ∨
    ∃ count bytes, r = .transfer (.read count bytes) ∧ bytes ≠ []
  goes : (∀ r, s.pc t ≠ .user r) → (∃ s', s.resume t = some s' ∧ left (s'.pc t) < left (s.pc t)) ∨
    ∃ u, u ≠ t ∧ s.lock = some u ∧ LeavesWithin u 3 s

/-- A read through a file of side `f` that has not looked at the ring when the other endpoint no longer writes,
or begins later, gets what has been sent before it gets `0`. -/
def ReadsSeeHangUp (file : Nat) (f : Side) : Prop :=
  ∀ rings s₀ e s₁ s t, Run Step (fun _ _ => True) (create file rings) s₀ → s₀.Step e s₁ →
    s₀.endsWriting f.other e → Run Step (fun _ _ => True) s₁ s → looksAhead f (s.pc t) →
      ∀ s', Run Step (Stays t) s s' → Drains f t (s.chan f).accepted s'

def Place (f : Side) (t : Nat) (sent : List UInt8) (s : UnixSocket) : Prop :=
  match s.pc t with
  | .readBlock g _ | .readLock g _ | .readLocked g _ | .readCopy g _ => g = f
  | .readUnlock g _ | .readOpen g _ => g = f ∧ sent <+: (s.chan f).delivered
  | .done _ x => ∃ count bytes, x = .read count bytes ∧ bytes ≠ []
  | .user r => (r = .eof ∧ sent <+: (s.chan f).delivered) ∨
    ∃ count bytes, r = .transfer (.read count bytes) ∧ bytes ≠ []
  | _ => False

structure Reading (f : Side) (t : Nat) (sent : List UInt8) (s : UnixSocket) : Prop where
  closed : s.isOpen f = false
  inv : s.Inv
  holding : s.Holding
  counted : sent <+: (s.chan f).accepted
  place : Place f t sent s

theorem delivered_mono (h : (s.chan f).transfers <+: (s'.chan f).transfers) :
    (s.chan f).delivered <+: (s'.chan f).delivered ∧ (s.chan f).accepted <+: (s'.chan f).accepted := by
  obtain ⟨ts, hts⟩ := h
  unfold Channel.delivered Channel.accepted
  rw [← hts, flatMap_append, flatMap_append]
  exact ⟨prefix_append _ _, prefix_append _ _⟩

section
variable {sent : List UInt8}

theorem Place.congr (h : Place f t sent s) (hpc : s'.pc t = s.pc t)
    (hd : (s.chan f).delivered <+: (s'.chan f).delivered) : Place f t sent s' := by
  unfold Place at h ⊢
  rw [hpc]
  generalize hp : s.pc t = p at h
  cases p with
  | readUnlock | readOpen =>
    exact ⟨h.1, h.2.trans hd⟩
  | user r =>
    exact h.imp_left fun ⟨hr, hs⟩ => ⟨hr, hs.trans hd⟩
  | _ =>
    exact h

section
variable (h : Reading f t sent s)
include h

theorem Reading.delivered_of_isEmpty (he : (s.chan f).buf.isEmpty = true) : sent <+: (s.chan f).delivered := by
  have hst := h.inv.stream f
  have hem : (s.chan f).buf.contents = [] := hst.valid.isEmpty_iff.mp he
  have hall : (s.chan f).accepted = (s.chan f).delivered := by
    rw [hst.stream, hem, append_nil]
  exact hall ▸ h.counted

theorem Reading.resume (hs : s.resume t = some s') : Place f t sent s' := by
  have hpl := h.place
  have hso := h.inv.threads t
  unfold Place at hpl ⊢
  unfold UnixSocket.resume at hs
  generalize hpc : s.pc t = p at hs hpl hso
  cases p with
  | user r =>
    cases hs
  | readBlock g n =>
    dsimp only at hs
    split at hs
    · cases hs
      simpa only [goto_pc, update_self] using hpl
    · cases hs
  | readLock g n =>
    dsimp only at hs
    split at hs
    · cases hs
      simpa only [goto_pc, update_self] using hpl
    · cases hs
  | readLocked g n =>
    cases hs
    subst hpl
    simp only [goto_pc, update_self]
    cases he : (s.chan (bufToRead g)).buf.isEmpty with
    | true => exact ⟨rfl, h.delivered_of_isEmpty he⟩
    | false => exact rfl
  | readCopy g n =>
    cases hs
    have hpart := ((h.inv.stream _).read hso.2 hso.1).part _ (Channel.mem_transfers_read n)
    simp only [goto_pc, update_self]
    exact ⟨n, _, rfl, ne_nil_of_length_pos hpart.1⟩
  | readUnlock g n =>
    cases hs
    simp only [goto_pc, update_self]
    exact hpl
  | readOpen g n =>
    cases hs
    obtain ⟨rfl, hse⟩ := hpl
    simp only [goto_pc, update_self, h.closed]
    exact .inl ⟨rfl, hse⟩
  | done g x =>
    cases hs
    obtain ⟨n, bytes, rfl, hby⟩ := hpl
    simp only [goto_pc, update_self]
    exact .inr ⟨n, bytes, rfl, hby⟩
  | writeBlock | writeOpen | writeLock | writeLocked | writeCopy | writeUnlock => cases hpl

theorem Reading.ready (hbl : (∃ g n, s.pc t = .readBlock g n) ∨ ∃ g b, s.pc t = .writeBlock g b) : s.Ready t := by
  have hpl := h.place
  rcases hbl with ⟨g, n, hpc⟩ | ⟨g, b, hpc⟩
  · simp only [Place, hpc] at hpl
    subst hpl
    simp [Ready, hpc, isReadable, h.closed]
  · simp only [Place, hpc] at hpl

theorem Reading.step (hs : s.Step e s') (hok : Stays t s e) : Reading f t sent s' := by
  obtain ⟨-, hop, htr⟩ := exec_frame hs
  obtain ⟨hd, ha⟩ := delivered_mono (htr f)
  refine ⟨hop f h.closed, step_inv h.inv hs, h.holding.step hs, h.counted.trans ha, ?_⟩
  rcases hok.cases hs with ⟨-, hpc⟩ | rfl | ⟨hnot, hbl, -⟩
  · exact h.place.congr hpc hd
  · exact h.resume hs
  · exact absurd (h.ready hbl) hnot

theorem Reading.goes (hin : ∀ r, s.pc t ≠ .user r) : (∃ s', s.resume t = some s' ∧ left (s'.pc t) < left (s.pc t)) ∨
      ∃ u, u ≠ t ∧ s.lock = some u ∧ LeavesWithin u 3 s := by
  have hpl := h.place
  unfold Place at hpl
  unfold UnixSocket.resume
  cases hpc : s.pc t with
  | user r => exact absurd hpc (hin r)
  | readBlock g n =>
    simp only [hpc] at hpl
    subst hpl
    have hre : s.isReadable g = true := by simp [isReadable, h.closed]
    simp only [hre, if_true]
    exact .inl ⟨_, rfl, by simp [goto_pc, left]⟩
  | readLock g n =>
    cases hl : s.lock with
    | none => exact .inl ⟨_, if_pos rfl, by simp [goto_pc, left]⟩
    | some u =>
      have hlo := h.holding u hl
      obtain ⟨hpos, hle⟩ := inside_of_locked hlo
      refine .inr ⟨u, ?_, rfl, leaves_within 3 hpos hle⟩
      rintro rfl
      rw [hpc] at hlo
      cases hlo
  | readLocked g n =>
    refine .inl ⟨_, rfl, ?_⟩
    simp only [goto_pc, update_self]
    split <;> simp [left]
  | readCopy g n =>
    refine .inl ⟨_, rfl, ?_⟩
    simp [goto_pc, left]
  | readUnlock g n =>
    refine .inl ⟨_, rfl, ?_⟩
    simp [goto_pc, left]
  | readOpen g n =>
    simp only [hpc] at hpl
    obtain ⟨rfl, -⟩ := hpl
    refine .inl ⟨_, rfl, ?_⟩
    simp [goto_pc, left, h.closed]
  | done g x =>
    refine .inl ⟨_, rfl, ?_⟩
    simp [goto_pc, left]
  | writeBlock | writeOpen | writeLock | writeLocked | writeCopy | writeUnlock =>
    simp only [hpc] at hpl

theorem Reading.drains : Drains f t sent s := by
  refine ⟨fun r hr => ?_, h.goes⟩
  have hpl := h.place
  simpa only [Place, hr] using hpl

end

end

theorem reads_see_hang_up (file : Nat) (f : Side) : ReadsSeeHangUp file f := by
  intro rings s₀ e s₁ s t hr0 he hen hrun hah s' hr'
  have hcl : s.isOpen f = false := isOpen_of_run hrun (isOpen_of_ends he (.inr hen))
  have hso : s.Inv ∧ s.Holding := by
    have hcr : (create file rings).Inv ∧ (create file rings).Holding :=
      ⟨create_inv file rings, fun _ hl => nomatch hl⟩
    have hst : ∀ (u : UnixSocket) e (v : UnixSocket), u.Inv ∧ u.Holding → u.Step e v → True → v.Inv ∧ v.Holding :=
      fun _ _ _ h hs _ => ⟨step_inv h.1 hs, h.2.step hs⟩
    exact hrun.invariant (hst _ _ _ (hr0.invariant hcr hst) he trivial) hst
  have hpl : Place f t (s.chan f).accepted s := by
    unfold Place
    generalize hpc : s.pc t = p at hah
    cases p with
    | readBlock | readLock | readLocked =>
      exact hah
    | _ =>
      cases hah
  have h : Reading f t (s.chan f).accepted s' :=
    hr'.invariant (I := Reading f t (s.chan f).accepted) ⟨hcl, hso.1, hso.2, prefix_rfl, hpl⟩
      fun _ _ _ h hs hok => h.step hs hok
  exact h.drains

end

end UnixSocket

/-- A connected pair. -/
def UnixSocket.pair (file : Nat) : UnixSocket :=
  { create file fun _ _ => 0 with isConnected := true, acceptorFile := some (file + 1) }

theorem exists_write_after_close (file : Nat) : ∃ s₀ s₁ s : SignallingSocket,
    Run SignallingSocket.Step (fun _ _ => True) (.create file fun _ _ => 0) s₀ ∧
      s₀.Step (.close (file + 1)) s₁ ∧ Run SignallingSocket.Step (fun _ _ => True) s₁ s ∧
        s.socket.pc 0 = .writeBlock .connector [7] ∧ s.socket.isOpen .acceptor = false := by
  let closed : UnixSocket := { pair file with isOpen := fun _ => false, acceptorFreed := true }
  refine ⟨⟨pair file, fun _ => 0⟩, ⟨closed, fun _ => 0⟩, ⟨closed.goto 0 (.writeBlock .connector [7]), fun _ => 0⟩,
    .tail (e := .acceptFile (file + 1)) (.tail (e := .accept) (.refl _) rfl trivial) ?_ trivial, ?_,
    .tail (e := .write 0 file [7]) (.refl _) ?_ trivial, rfl, rfl⟩
  · simp [SignallingSocket.Step, SignallingSocket.exec, SignallingSocket.create, exec, hasFile, pair, create]
  · simp [SignallingSocket.Step, SignallingSocket.exec, exec, hasFile, pair, create, closed]
  · simp [SignallingSocket.Step, SignallingSocket.exec, exec, hasFile, pair, create, closed, side, sideOf]

/-- Only writes through a file that is not at `connector_file` see the hang-up; a read through either gets all
that was sent, then `0`. -/
theorem hang_up_seen (connectorFile file : Nat) :
    (SignallingSocket.WritesSeeHangUp connectorFile (sideOf connectorFile file) ↔ file ≠ connectorFile) ∧
      UnixSocket.ReadsSeeHangUp connectorFile (sideOf connectorFile file) := by
  refine ⟨⟨fun hsee => ?_, fun hne => ?_⟩, reads_see_hang_up connectorFile _⟩
  · rintro rfl
    rw [sideOf, if_pos rfl] at hsee
    obtain ⟨s₀, s₁, s, hr₀, hcl, hr, hpc, hop⟩ := exists_write_after_close file
    have hst := SignallingSocket.resume_stuck hop (.inl hpc)
    rcases hsee _ s₀ _ s₁ s 0 [7] hr₀ hcl trivial hr hpc s (.refl s) with ⟨r, hr, -⟩ | ⟨s', hs', -⟩
    · cases hpc.symm.trans hr
    · cases hst.symm.trans hs'
  · rw [sideOf, if_neg hne]
    exact SignallingSocket.acceptor_writes_see_hang_up connectorFile

/-- The write sleeps for good. -/
def SleepsForGood (s : SignallingSocket) : Prop :=
  s.socket.pc 0 = .writeBlock .connector [7] ∧
    ∀ s', Run SignallingSocket.Step (fun s e => UnixSocket.Stays 0 s.socket e) s s' → s'.exec (.resume 0) = none

/-- A write on the connecting endpoint after the accepting one has been closed sleeps for good, and so does one on
the accepting endpoint whose file was allocated where the connecting one had been freed. -/
theorem connector_write_sleeps :
    (∃ s, Run SignallingSocket.Step (fun _ _ => True) (.create 100 fun _ _ => 0) s ∧ s.socket.connectorFreed = false ∧
      s.socket.acceptorFile = some 200 ∧ SleepsForGood s) ∧
    ∃ s, Run SignallingSocket.Step (fun _ _ => True) (.create 100 fun _ _ => 0) s ∧ s.socket.connectorFreed = true ∧
      s.socket.acceptorFile = some 100 ∧ SleepsForGood s := by
  constructor
  · obtain ⟨s, hr, ⟨hfr, hac⟩, hpc, hop⟩ := exists_follow SignallingSocket.exec (fun _ _ => True)
      [.accept, .acceptFile 200, .close 200, .write 0 100 [7]] (.create 100 fun _ _ => 0)
      (fun s => (s.socket.connectorFreed = false ∧ s.socket.acceptorFile = some 200) ∧
        s.socket.pc 0 = .writeBlock .connector [7] ∧ s.socket.isOpen .acceptor = false) (by decide +kernel)
    exact ⟨s, hr, hfr, hac, hpc, fun _ => SignallingSocket.connector_write_blocks hop hpc⟩
  · obtain ⟨s, hr, ⟨hfr, hac⟩, hpc, hop⟩ := exists_follow SignallingSocket.exec (fun _ _ => True)
      [.close 100, .accept, .acceptFile 100, .write 0 100 [7]] (.create 100 fun _ _ => 0)
      (fun s => (s.socket.connectorFreed = true ∧ s.socket.acceptorFile = some 100) ∧
        s.socket.pc 0 = .writeBlock .connector [7] ∧ s.socket.isOpen .acceptor = false) (by decide +kernel)
    exact ⟨s, hr, hfr, hac, hpc, fun _ => SignallingSocket.connector_write_blocks hop hpc⟩

end Yagura
