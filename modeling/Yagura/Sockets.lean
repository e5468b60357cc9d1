import Yagura.Errno
import Yagura.Mutex

/-!
# Connecting sockets

`unix_socket_bind`, `unix_socket_listen`, `unix_socket_accept` and
`unix_socket_connect` of `unix_socket.c`, run by any number of tasks. A step is
one `mutex_lock`, one `mutex_unlock`, one `file_block` or what the source does
between two of them. Sockets are numbers; all exist from the start, as
`unix_socket_create` makes them. An address is an inode with its
`bound_socket`. A pending list runs through the `next` fields of its sockets.
-/

namespace Yagura

open Function

inductive SocketState
  | opened
  | listening
  | pending
  | connected
  deriving DecidableEq

structure SocketNode where
  isBound : Bool
  state : SocketState
  backlog : Int
  numPending : Nat
  next : Option Nat
  isConnected : Bool

namespace SocketNode

def created : SocketNode := ⟨false, .opened, 0, 0, none, false⟩

def room (u : SocketNode) : Nat := (u.backlog % 2 ^ 32).toNat

end SocketNode

abbrev SockResult := Except Errno (Option Nat)

/-- Where a task stands: before the named operation, or back from a call. -/
inductive SockPc
  | idle (r : SockResult)
  | leave (x : Nat) (r : SockResult)
  | bindLock (c a : Nat)
  | bind (c a : Nat)
  | listenLock (l : Nat) (backlog : Int)
  | listen (l : Nat) (backlog : Int)
  | acceptLock (l : Nat)
  | acceptCheck (l : Nat)
  | acceptUnlock (l : Nat) (isListening : Bool)
  | acceptBlock (l : Nat)
  | popLock (l : Nat)
  | pop (l : Nat)
  | popUnlock (l : Nat) (connector : Option Nat)
  | markLock (c : Nat)
  | mark (c : Nat)
  | connectLock (c l : Nat)
  | connectCheck (c l : Nat)
  | listenerLock (c l : Nat)
  | queue (c l : Nat)
  | listenerUnlock (c l : Nat) (refused : Bool)
  | connectorUnlock (c : Nat)
  | connectBlock (c : Nat)

namespace SockPc

def held : SockPc → List Nat
  | .leave x _ | .bind x _ | .listen x _ | .acceptCheck x | .acceptUnlock x _ | .pop x | .popUnlock x _ | .mark x
  | .connectCheck x _ | .listenerLock x _ | .connectorUnlock x => [x]
  | .queue c l | .listenerUnlock c l _ => [l, c]
  | _ => []

def wants : SockPc → Option Nat
  | .bindLock x _ | .listenLock x _ | .acceptLock x | .popLock x | .markLock x | .connectLock x _
  | .listenerLock _ x => some x
  | _ => none

def carries : SockPc → Option Nat
  | .popUnlock _ c => c
  | .markLock c | .mark c => some c
  | _ => none

end SockPc

/-- `queued l` are the connectors in the order in which they were put on the list of `l`, `accepted l` those that
were taken from it. -/
structure Sockets where
  sock : Nat → SocketNode
  bound : Nat → Option Nat
  mutexes : Mutexes Nat
  pc : Nat → SockPc
  queued : Nat → List Nat
  accepted : Nat → List Nat

/-- `unable`: the task waits or is in no call; `diverge`: the walk along a list does not end. -/
inductive SockFault
  | unable
  | assert
  | diverge
  deriving DecidableEq

inductive SockCall
  | bind (c a : Nat)
  | listen (l : Nat) (backlog : Int)
  | accept (l : Nat)
  | connect (c a : Nat)

inductive SockEvent
  | call (t : Nat) (c : SockCall)
  | go (t : Nat)
  | interrupt (t : Nat)
  | again (t : Nat)

def SockEvent.task : SockEvent → Nat
  | .call t _ | .go t | .interrupt t | .again t => t

def lastFrom (next : Nat → Option Nat) : Nat → Nat → Option Nat
  | 0, _ => none
  | fuel + 1, i =>
    match next i with
    | none => some i
    | some j => lastFrom next fuel j

namespace Sockets

def create : Sockets := ⟨fun _ => .created, fun _ => none, .free, fun _ => .idle (.ok none), fun _ => [], fun _ => []⟩

section
variable (s : Sockets)

def next (i : Nat) : Option Nat := (s.sock i).next

def state (i : Nat) : SocketState := (s.sock i).state

def set (i : Nat) (u : SocketNode) : Sockets := { s with sock := update s.sock i u }

def goto (t : Nat) (p : SockPc) : Sockets := { s with pc := update s.pc t p }

def lockThen (t x : Nat) (p : SockPc) : Except SockFault Sockets :=
  match s.mutexes.lock t x with
  | some m => .ok ({ s with mutexes := m }.goto t p)
  | none => .error .unable

def unlockThen (t x : Nat) (p : SockPc) : Except SockFault Sockets :=
  match s.mutexes.unlock t x with
  | some m => .ok ({ s with mutexes := m }.goto t p)
  | none => .error .assert

def bindTo (c a : Nat) : Sockets × SockResult :=
  if (s.sock c).isBound then (s, .error .EINVAL)
  else ({ s with bound := update s.bound a (some c) }.set c { s.sock c with isBound := true }, .ok none)

def listenOn (l : Nat) (backlog : Int) : Sockets × SockResult :=
  match (s.sock l).state with
  | .opened | .listening =>
    if (s.sock l).isBound then
      (s.set l { s.sock l with backlog := backlog, state := .listening }, .ok none)
    else (s, .error .EINVAL)
  | _ => (s, .error .EINVAL)

def popFrom (l : Nat) : Sockets × Option Nat :=
  match s.next l with
  | none => (s, none)
  | some c =>
    ({ s with accepted := update s.accepted l (s.accepted l ++ [c]) }.set l
      { s.sock l with next := s.next c, numPending := (s.sock l).numPending - 1 }, some c)

def link (c l : Nat) : Except SockFault Sockets :=
  match s.next l with
  | none => .ok (s.set l { s.sock l with next := some c })
  | some i =>
    match lastFrom s.next (s.sock l).numPending i with
    | none => .error .diverge
    | some j => .ok (s.set j { s.sock j with next := some c })

/-- `c` is counted as pending at `l`, but not on its list yet. -/
def announce (c l : Nat) : Sockets :=
  let s' := s.set l { s.sock l with numPending := (s.sock l).numPending + 1 }
  { s' with queued := update s.queued l (s.queued l ++ [c]) }.set c
    { s'.sock c with state := .pending, next := none }

def pushTo (c l : Nat) : Except SockFault Sockets := (s.announce c l).link c l

def stepTask (t : Nat) : Except SockFault Sockets :=
  match s.pc t with
  | .idle _ => .error .unable
  | .leave x r => s.unlockThen t x (.idle r)
  | .bindLock c a => s.lockThen t c (.bind c a)
  | .bind c a => .ok ((s.bindTo c a).1.goto t (.leave c (s.bindTo c a).2))
  | .listenLock l backlog => s.lockThen t l (.listen l backlog)
  | .listen l backlog => .ok ((s.listenOn l backlog).1.goto t (.leave l (s.listenOn l backlog).2))
  | .acceptLock l => s.lockThen t l (.acceptCheck l)
  | .acceptCheck l => .ok (s.goto t (.acceptUnlock l (s.state l = .listening)))
  | .acceptUnlock l isListening => s.unlockThen t l (if isListening then .acceptBlock l else .idle (.error .EINVAL))
  | .acceptBlock l => if 0 < (s.sock l).numPending then .ok (s.goto t (.popLock l)) else .error .unable
  | .popLock l => s.lockThen t l (.pop l)
  | .pop l => .ok ((s.popFrom l).1.goto t (.popUnlock l (s.popFrom l).2))
  | .popUnlock l connector =>
    s.unlockThen t l (match connector with
      | none => .acceptBlock l
      | some c => .markLock c)
  | .markLock c => s.lockThen t c (.mark c)
  | .mark c =>
    if s.state c = .pending then
      .ok ((s.set c { s.sock c with state := .connected, isConnected := true }).goto t (.leave c (.ok (some c))))
    else .error .assert
  | .connectLock c l => s.lockThen t c (.connectCheck c l)
  | .connectCheck c l =>
    .ok (s.goto t (match s.state c with
      | .listening => .leave c (.error .EINVAL)
      | .pending | .connected => .leave c (.error .EISCONN)
      | .opened => .listenerLock c l))
  | .listenerLock c l => s.lockThen t l (.queue c l)
  | .queue c l =>
    if s.state l ≠ .listening ∨ (s.sock l).room ≤ (s.sock l).numPending then
      .ok (s.goto t (.listenerUnlock c l true))
    else (s.pushTo c l).map fun s' => s'.goto t (.listenerUnlock c l false)
  | .listenerUnlock c l refused =>
    s.unlockThen t l (if refused then .leave c (.error .ECONNREFUSED) else .connectorUnlock c)
  | .connectorUnlock c => s.unlockThen t c (.connectBlock c)
  | .connectBlock c => if (s.sock c).isConnected then .ok (s.goto t (.idle (.ok none))) else .error .unable

/-- The first step of a call. `unix_socket_connect` reads the address without a lock. -/
def enter : SockCall → SockPc
  | .bind c a => .bindLock c a
  | .listen l backlog => .listenLock l backlog
  | .accept l => .acceptLock l
  | .connect c a =>
    match s.bound a with
    | none => .idle (.error .ECONNREFUSED)
    | some l => .connectLock c l

def exec : SockEvent → Except SockFault Sockets
  | .call t c =>
    match s.pc t with
    | .idle _ => .ok (s.goto t (s.enter c))
    | _ => .error .unable
  | .go t => s.stepTask t
  | .interrupt t =>
    match s.pc t with
    | .acceptBlock _ | .connectBlock _ => .ok (s.goto t (.idle (.error .EINTR)))
    | _ => .error .unable
  | .again t =>
    match s.pc t with
    | .acceptBlock l =>
      if (s.sock l).numPending = 0 then .ok (s.goto t (.idle (.error .EAGAIN))) else .error .unable
    | .connectBlock c =>
      if (s.sock c).isConnected then .error .unable else .ok (s.goto t (.idle (.error .EAGAIN)))
    | _ => .error .unable

end

def Step (s : Sockets) (e : SockEvent) (s' : Sockets) : Prop := s.exec e = .ok s'

def wants (s : Sockets) (t : Nat) : Option Nat := (s.pc t).wants

def Deadlock (s : Sockets) : Prop := s.mutexes.Deadlock s.wants

/-! ## Mutual exclusion -/

def Locked (s : Sockets) : Prop := s.mutexes.Holds fun t => (s.pc t).held

section
variable {s s' : Sockets} {t u x : Nat} {p : SockPc} {l c : Nat}

theorem Locked.alone (hs : s.Locked) (ht : x ∈ (s.pc t).held) (hu : x ∈ (s.pc u).held) : t = u :=
  Option.some.inj (((hs.mem t x).mp ht).symm.trans ((hs.mem u x).mp hu))

theorem held_update (f : Nat → SockPc) (t : Nat) (p : SockPc) :
    (fun u => (update f t p u).held) = update (fun u => (f u).held) t p.held := by
  funext u
  exact apply_update (fun _ q => SockPc.held q) f t p u

theorem Locked.goto (hs : s.Locked) (hm : s'.mutexes = s.mutexes) (hpc : s'.pc = s.pc)
    (hp : p.held = (s.pc t).held) : (s'.goto t p).Locked := by
  have hhe : (fun u => ((s'.goto t p).pc u).held) = fun u => (s.pc u).held := by
    have hupd : (s'.goto t p).pc = update s.pc t p := by
      rw [← hpc]
      rfl
    rw [hupd, held_update, hp]
    exact update_eq_self t _
  have hmu : (s'.goto t p).mutexes = s.mutexes := hm
  rw [Locked, hhe, hmu]
  exact hs

theorem lockThen_ok (h : s.lockThen t x p = .ok s') :
    ∃ m, s.mutexes.lock t x = some m ∧ s' = { s with mutexes := m }.goto t p := by
  unfold lockThen at h
  split at h
  · rename_i m hm
    cases h
    exact ⟨m, hm, rfl⟩
  · cases h

theorem unlockThen_ok (h : s.unlockThen t x p = .ok s') :
    ∃ m, s.mutexes.unlock t x = some m ∧ s' = { s with mutexes := m }.goto t p := by
  unfold unlockThen at h
  split at h
  · rename_i m hm
    cases h
    exact ⟨m, hm, rfl⟩
  · cases h

theorem Locked.lockThen (hs : s.Locked) (hp : p.held = x :: (s.pc t).held) (h : s.lockThen t x p = .ok s') :
    s'.Locked := by
  obtain ⟨m, hm, rfl⟩ := lockThen_ok h
  have hnew := Mutexes.Holds.lock hs hm
  rw [← hp, ← held_update] at hnew
  exact hnew

theorem Locked.unlockThen (hs : s.Locked) (hp : (s.pc t).held = x :: p.held) (h : s.unlockThen t x p = .ok s') :
    s'.Locked := by
  obtain ⟨m, hm, rfl⟩ := unlockThen_ok h
  have hnew := Mutexes.Holds.unlock hs hm
  rw [hp, List.erase_cons_head, ← held_update] at hnew
  exact hnew

theorem Locked.unlockThen_ne (hs : s.Locked) (hp : x ∈ (s.pc t).held) (f : SockFault) :
    s.unlockThen t x p ≠ .error f := by
  obtain ⟨m, hm⟩ := Mutexes.Holds.exists_unlock hs hp
  rw [Sockets.unlockThen, hm]
  nofun

/-! ## What a step does -/

theorem link_ok (h : s.link c l = .ok s') : ∃ j, s' = s.set j { s.sock j with next := some c } := by
  unfold link at h
  split at h
  · cases h
    exact ⟨l, rfl⟩
  · split at h
    · cases h
    · rename_i j _
      cases h
      exact ⟨j, rfl⟩

theorem pushTo_frame (h : s.pushTo c l = .ok s') : s'.mutexes = s.mutexes ∧ s'.pc = s.pc ∧
    s'.queued = update s.queued l (s.queued l ++ [c]) := by
  obtain ⟨j, rfl⟩ := link_ok (s := s.announce c l) h
  exact ⟨rfl, rfl, rfl⟩

/-- The steps that change no socket, from one place to the next. -/
inductive Moves (s : Sockets) : SockPc → SockPc → Prop
  | callBind (r : SockResult) (c a : Nat) : Moves s (.idle r) (.bindLock c a)
  | callListen (r : SockResult) (l : Nat) (b : Int) : Moves s (.idle r) (.listenLock l b)
  | callAccept (r : SockResult) (l : Nat) : Moves s (.idle r) (.acceptLock l)
  | callConnect (r : SockResult) (c a l : Nat) : s.bound a = some l → Moves s (.idle r) (.connectLock c l)
  | callNowhere (r r' : SockResult) : Moves s (.idle r) (.idle r')
  | leave (x : Nat) (r : SockResult) : Moves s (.leave x r) (.idle r)
  | bindLock (c a : Nat) : Moves s (.bindLock c a) (.bind c a)
  | bind (c a : Nat) (r : SockResult) : Moves s (.bind c a) (.leave c r)
  | listenLock (l : Nat) (b : Int) : Moves s (.listenLock l b) (.listen l b)
  | listen (l : Nat) (b : Int) (r : SockResult) : Moves s (.listen l b) (.leave l r)
  | acceptLock (l : Nat) : Moves s (.acceptLock l) (.acceptCheck l)
  | acceptCheck (l : Nat) : Moves s (.acceptCheck l) (.acceptUnlock l (s.state l = .listening))
  | accept (l : Nat) : Moves s (.acceptUnlock l true) (.acceptBlock l)
  | acceptFail (l : Nat) (r : SockResult) : Moves s (.acceptUnlock l false) (.idle r)
  | acceptable (l : Nat) : Moves s (.acceptBlock l) (.popLock l)
  | acceptEnd (l : Nat) (r : SockResult) : Moves s (.acceptBlock l) (.idle r)
  | popLock (l : Nat) : Moves s (.popLock l) (.pop l)
  | popNone (l : Nat) : Moves s (.pop l) (.popUnlock l none)
  | retry (l : Nat) : Moves s (.popUnlock l none) (.acceptBlock l)
  | popped (l c : Nat) : Moves s (.popUnlock l (some c)) (.markLock c)
  | markLock (c : Nat) : Moves s (.markLock c) (.mark c)
  | connectLock (c l : Nat) : Moves s (.connectLock c l) (.connectCheck c l)
  | connectFail (c l : Nat) (r : SockResult) : Moves s (.connectCheck c l) (.leave c r)
  | connect (c l : Nat) : s.state c = .opened → Moves s (.connectCheck c l) (.listenerLock c l)
  | listenerLock (c l : Nat) : Moves s (.listenerLock c l) (.queue c l)
  | refuse (c l : Nat) : Moves s (.queue c l) (.listenerUnlock c l true)
  | refused (c l : Nat) (r : SockResult) : Moves s (.listenerUnlock c l true) (.leave c r)
  | queued (c l : Nat) : Moves s (.listenerUnlock c l false) (.connectorUnlock c)
  | connectorUnlock (c : Nat) : Moves s (.connectorUnlock c) (.connectBlock c)
  | connectEnd (c : Nat) (r : SockResult) : Moves s (.connectBlock c) (.idle r)

inductive Effect (s : Sockets) (t : Nat) : Sockets → Prop
  | move (m : Mutexes Nat) (p : SockPc) : Moves s (s.pc t) p → (s.Locked → ({ s with mutexes := m }.goto t p).Locked) →
      Effect s t ({ s with mutexes := m }.goto t p)
  | bind (c a : Nat) : s.pc t = .bind c a → (s.sock c).isBound = false →
      Effect s t (({ s with bound := update s.bound a (some c) }.set c
        { s.sock c with isBound := true }).goto t (.leave c (.ok none)))
  | listen (l : Nat) (b : Int) : s.pc t = .listen l b → s.state l = .opened ∨ s.state l = .listening →
      (s.sock l).isBound = true →
      Effect s t ((s.set l { s.sock l with backlog := b, state := .listening }).goto t (.leave l (.ok none)))
  | pop (l c : Nat) : s.pc t = .pop l → s.next l = some c →
      Effect s t (({ s with accepted := update s.accepted l (s.accepted l ++ [c]) }.set l
        { s.sock l with next := s.next c, numPending := (s.sock l).numPending - 1 }).goto t (.popUnlock l (some c)))
  | mark (c : Nat) : s.pc t = .mark c → s.state c = .pending →
      Effect s t ((s.set c { s.sock c with state := .connected, isConnected := true }).goto t
        (.leave c (.ok (some c))))
  | push (c l : Nat) (s₁ : Sockets) : s.pc t = .queue c l → s.state l = .listening →
      (s.sock l).numPending < (s.sock l).room → s.pushTo c l = .ok s₁ →
      Effect s t (s₁.goto t (.listenerUnlock c l false))

theorem Effect.locked (hs : s.Locked) (h : Effect s t s') : s'.Locked := by
  cases h with
  | move m p hp hl => exact hl hs
  | bind _ _ hpc | listen _ _ hpc | pop _ _ hpc | mark _ hpc => exact hs.goto rfl rfl (by rw [hpc]; rfl)
  | push c l s₁ hpc _ _ hs1 => exact hs.goto (pushTo_frame hs1).1 (pushTo_frame hs1).2.1 (by rw [hpc]; rfl)

section
variable {q : SockPc} (hpc : s.pc t = q) (hp : Moves s q p)
include hpc hp

theorem Effect.goto (hhe : p.held = q.held) : Effect s t (s.goto t p) := by
  subst hpc
  exact .move s.mutexes p hp fun hs => hs.goto rfl rfl hhe

theorem Effect.lockThen (hhe : p.held = x :: q.held) (h : s.lockThen t x p = .ok s') : Effect s t s' := by
  subst hpc
  have hl := fun hs : s.Locked => hs.lockThen hhe h
  obtain ⟨m, -, rfl⟩ := lockThen_ok h
  exact .move m p hp hl

theorem Effect.unlockThen (hhe : q.held = x :: p.held) (h : s.unlockThen t x p = .ok s') : Effect s t s' := by
  subst hpc
  have hl := fun hs : s.Locked => hs.unlockThen hhe h
  obtain ⟨m, -, rfl⟩ := unlockThen_ok h
  exact .move m p hp hl

end

theorem bind_effect {a : Nat} (hpc : s.pc t = .bind c a) :
    Effect s t ((s.bindTo c a).1.goto t (.leave c (s.bindTo c a).2)) := by
  unfold bindTo
  split
  · exact .goto hpc (.bind c a _) rfl
  · rename_i hb
    exact .bind c a hpc (by simpa using hb)

theorem listen_effect {b : Int} (hpc : s.pc t = .listen l b) :
    Effect s t ((s.listenOn l b).1.goto t (.leave l (s.listenOn l b).2)) := by
  have hfa : Effect s t (s.goto t (.leave l (.error .EINVAL))) :=
    .goto hpc (.listen l b _) rfl
  unfold listenOn
  split
  · rename_i hst
    split
    · rename_i hb
      exact .listen l b hpc (.inl hst) hb
    · exact hfa
  · rename_i hst
    split
    · rename_i hb
      exact .listen l b hpc (.inr hst) hb
    · exact hfa
  · exact hfa

theorem pop_effect (hpc : s.pc t = .pop l) : Effect s t ((s.popFrom l).1.goto t (.popUnlock l (s.popFrom l).2)) := by
  unfold popFrom
  split
  · exact .goto hpc (.popNone l) rfl
  · rename_i c hc
    exact .pop l c hpc hc

theorem push_effect (hpc : s.pc t = .queue c l)
    (hl : ¬ (s.state l ≠ .listening ∨ (s.sock l).room ≤ (s.sock l).numPending))
    (h : (s.pushTo c l).map (fun s₁ => s₁.goto t (.listenerUnlock c l false)) = .ok s') : Effect s t s' := by
  obtain ⟨hst, hro⟩ := not_or.mp hl
  generalize hs1 : s.pushTo c l = p at h
  cases p with
  | error f =>
    cases h
  | ok s₁ =>
    cases h
    exact .push c l s₁ hpc (not_not.mp hst) (Nat.not_le.mp hro) hs1

theorem stepTask_effect (h : s.stepTask t = .ok s') : Effect s t s' := by
  unfold stepTask at h
  generalize hpc : s.pc t = p at h
  cases p with
  | idle r =>
    cases h
  | leave x r =>
    exact .unlockThen hpc (.leave x r) rfl h
  | bindLock c a =>
    exact .lockThen hpc (.bindLock c a) rfl h
  | bind c a =>
    cases h
    exact bind_effect hpc
  | listenLock l b =>
    exact .lockThen hpc (.listenLock l b) rfl h
  | listen l b =>
    cases h
    exact listen_effect hpc
  | acceptLock l =>
    exact .lockThen hpc (.acceptLock l) rfl h
  | acceptCheck l =>
    cases h
    exact .goto hpc (.acceptCheck l) rfl
  | acceptUnlock l b =>
    cases b with
    | false => exact .unlockThen hpc (.acceptFail l _) rfl h
    | true => exact .unlockThen hpc (.accept l) rfl h
  | acceptBlock l =>
    dsimp only at h
    split at h
    · cases h
      exact .goto hpc (.acceptable l) rfl
    · cases h
  | popLock l =>
    exact .lockThen hpc (.popLock l) rfl h
  | pop l =>
    cases h
    exact pop_effect hpc
  | popUnlock l c =>
    cases c with
    | none => exact .unlockThen hpc (.retry l) rfl h
    | some c => exact .unlockThen hpc (.popped l c) rfl h
  | markLock c =>
    exact .lockThen hpc (.markLock c) rfl h
  | mark c =>
    dsimp only at h
    split at h
    · rename_i hst
      cases h
      exact .mark c hpc hst
    · cases h
  | connectLock c l =>
    exact .lockThen hpc (.connectLock c l) rfl h
  | connectCheck c l =>
    dsimp only at h
    split at h <;> rename_i hst <;> cases h
    · exact .goto hpc (.connectFail c l _) rfl
    · exact .goto hpc (.connectFail c l _) rfl
    · exact .goto hpc (.connectFail c l _) rfl
    · exact .goto hpc (.connect c l hst) rfl
  | listenerLock c l =>
    exact .lockThen hpc (.listenerLock c l) rfl h
  | queue c l =>
    dsimp only at h
    split at h
    · cases h
      exact .goto hpc (.refuse c l) rfl
    · rename_i hl
      exact push_effect hpc hl h
  | listenerUnlock c l b =>
    cases b with
    | false => exact .unlockThen hpc (.queued c l) rfl h
    | true => exact .unlockThen hpc (.refused c l _) rfl h
  | connectorUnlock c =>
    exact .unlockThen hpc (.connectorUnlock c) rfl h
  | connectBlock c =>
    dsimp only at h
    split at h
    · cases h
      exact .goto hpc (.connectEnd c _) rfl
    · cases h

theorem enter_moves (r : SockResult) (c : SockCall) : Moves s (.idle r) (s.enter c) ∧ (s.enter c).held = [] := by
  cases c with
  | bind c a => exact ⟨.callBind r c a, rfl⟩
  | listen l b => exact ⟨.callListen r l b, rfl⟩
  | accept l => exact ⟨.callAccept r l, rfl⟩
  | connect c a =>
    cases hb : s.bound a with
    | none =>
      rw [enter, hb]
      exact ⟨.callNowhere r _, rfl⟩
    | some l =>
      rw [enter, hb]
      exact ⟨.callConnect r c a l hb, rfl⟩

theorem exec_effect {e : SockEvent} (h : s.exec e = .ok s') : Effect s e.task s' := by
  cases e with
  | call t c =>
    dsimp only [exec] at h
    generalize hpc : s.pc t = p at h
    cases p with
    | idle r =>
      cases h
      exact .goto hpc (enter_moves r c).1 (enter_moves r c).2
    | _ =>
      cases h
  | go t => exact stepTask_effect h
  | interrupt t =>
    dsimp only [exec] at h
    generalize hpc : s.pc t = p at h
    cases p with
    | acceptBlock l =>
      cases h
      exact .goto hpc (.acceptEnd l _) rfl
    | connectBlock c =>
      cases h
      exact .goto hpc (.connectEnd c _) rfl
    | _ =>
      cases h
  | again t =>
    dsimp only [exec] at h
    generalize hpc : s.pc t = p at h
    cases p with
    | acceptBlock l =>
      dsimp only at h
      split at h
      · cases h
        exact .goto hpc (.acceptEnd l _) rfl
      · cases h
    | connectBlock c =>
      dsimp only at h
      split at h
      · cases h
      · cases h
        exact .goto hpc (.connectEnd c _) rfl
    | _ =>
      cases h

theorem create_locked : create.Locked := Mutexes.holds_free

end

end Sockets

end Yagura
