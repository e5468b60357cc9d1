import Yagura.Fds
import Yagura.Sockets

/-!
# Sockets and their addresses

The lifetimes of sockets and of the inodes they are bound to: `sys_socket`,
`sys_bind`, `sys_listen`, `sys_accept4`, `sys_connect`, `sys_close`,
`sys_unlink` and the end of a process, with the reference counts of
`inode_ref` and `inode_unref`. A descriptor refers to a file of its own, so it
stands for one reference to its socket; a connector on a pending list has one
more. `bound_socket` comes without a reference. The files that `sys_bind` and
`sys_connect` open for an address are never closed.
-/

namespace Yagura

open Function List Nat Option Prod Prog

structure SocketObj where
  refCount : Nat
  freed : Bool
  isBound : Bool
  state : SocketState
  backlog : Int

structure AddrInode where
  refCount : Nat
  numLinks : Nat
  boundSocket : Option Nat
  freed : Bool

structure Descriptor where
  task : Nat
  fd : Nat
  sock : Nat
  deriving DecidableEq

/-- `pending` holds the connectors of all lists, each behind its listener; `dropped` are the sockets whose
references `inode_destroy` has dropped for an address. -/
structure SocketFs where
  sock : Nat → SocketObj
  numSocks : Nat
  addr : Nat → AddrInode
  numAddrs : Nat
  names : Nat → Option Nat
  table : List Descriptor
  pending : List (Nat × Nat)
  dropped : List Nat

inductive SocketTrap
  | useAfterFree
  | assert
  deriving DecidableEq

abbrev SocketProg := Prog SocketFs SocketTrap

inductive Memory
  | enough
  | noFile
  | noInode

namespace SocketFs

def setSock (s : SocketFs) (i : Nat) (u : SocketObj) : SocketFs := { s with sock := update s.sock i u }

def setAddr (s : SocketFs) (a : Nat) (u : AddrInode) : SocketFs := { s with addr := update s.addr a u }

def addName (s : SocketFs) (name : Nat) (u : AddrInode) : SocketFs :=
  { s with
    addr := update s.addr s.numAddrs u
    numAddrs := s.numAddrs + 1
    names := update s.names name (some s.numAddrs) }

def lookup (s : SocketFs) (t fd : Nat) : Option Descriptor := s.table.find? fun d => d.task = t ∧ d.fd = fd

def freeFd (s : SocketFs) (t : Nat) : Option Nat := (List.range OPEN_MAX).find? fun fd => (s.lookup t fd).isNone

def firstPending (s : SocketFs) (l : Nat) : Option Nat := (s.pending.find? fun p => p.1 = l).map Prod.snd

def numPending (s : SocketFs) (l : Nat) : Nat := s.pending.countP fun p => p.1 = l

def room (s : SocketFs) (l : Nat) : Nat := ((s.sock l).backlog % 2 ^ 32).toNat

def empty : SocketFs where
  sock _ := ⟨0, false, false, .opened, 0⟩
  numSocks := 0
  addr _ := ⟨0, 0, none, false⟩
  numAddrs := 0
  names _ := none
  table := []
  pending := []
  dropped := []

section
variable (s : SocketFs) {i j a b : Nat} {u : SocketObj} {x : AddrInode}

theorem setSock_self : (s.setSock i u).sock i = u := update_self ..

theorem setSock_ne (h : j ≠ i) : (s.setSock i u).sock j = s.sock j := update_of_ne h ..

theorem setAddr_self : (s.setAddr a x).addr a = x := update_self ..

theorem setAddr_ne (h : b ≠ a) : (s.setAddr a x).addr b = s.addr b := update_of_ne h ..

end

end SocketFs

/-! ## References -/

def derefSocket (i : Nat) : SocketProg SocketObj := do
  let s ← get
  ensure ((s.sock i).freed = false) .useAfterFree
  return s.sock i

def socketRef (i : Nat) : SocketProg Unit := do
  let u ← derefSocket i
  modify fun s => s.setSock i { u with refCount := u.refCount + 1 }

/-- `inode_unref` of a socket's inode, which has no links. -/
def socketUnref (i : Nat) : SocketProg Unit := do
  let u ← derefSocket i
  ensure (0 < u.refCount) .assert
  modify fun s => s.setSock i { u with refCount := u.refCount - 1, freed := u.refCount = 1 }

def derefAddr (a : Nat) : SocketProg AddrInode := do
  let s ← get
  ensure ((s.addr a).freed = false) .useAfterFree
  return s.addr a

def addrDestroy (a : Nat) : SocketProg Unit := do
  let u ← derefAddr a
  match u.boundSocket with
  | none => pure ()
  | some i =>
    socketUnref i
    modify fun s => { s with dropped := s.dropped ++ [i] }
  modify fun s => s.setAddr a { s.addr a with freed := true }

def addrUnref (a : Nat) : SocketProg Unit := do
  let u ← derefAddr a
  ensure (0 < u.refCount) .assert
  modify fun s => s.setAddr a { u with refCount := u.refCount - 1 }
  if u.refCount = 1 ∧ u.numLinks = 0 then addrDestroy a else pure ()

/-! ## Files -/

/-- A file for the socket `i`, which takes over a reference, and a descriptor for it. -/
def openSocket (t i : Nat) (m : Memory) : SocketProg (Except Errno Nat) := do
  match m with
  | .noFile | .noInode =>
    socketUnref i
    return .error .ENOMEM
  | .enough =>
    match (← get).freeFd t with
    | none =>
      socketUnref i
      return .error .EMFILE
    | some fd =>
      modify fun s => { s with table := ⟨t, fd, i⟩ :: s.table }
      return .ok fd

def closeFile (d : Descriptor) : SocketProg Unit := do
  socketUnref d.sock
  modify fun s => { s with table := s.table.erase d }

/-- `vfs_open(path, O_CREAT | O_EXCL, S_IFSOCK)`: the directory has one reference to the new inode, the file
another. -/
def createAddr (name : Nat) (m : Memory) : SocketProg (Except Errno Nat) := do
  match (← get).names name, m with
  | some _, _ => return .error .EEXIST
  | none, .noInode => return .error .ENOMEM
  | none, .noFile =>
    modify fun s => s.addName name ⟨1, 1, none, false⟩
    return .error .ENOMEM
  | none, .enough =>
    let a := (← get).numAddrs
    modify fun s => s.addName name ⟨2, 1, none, false⟩
    return .ok a

def openAddr (name : Nat) (m : Memory) : SocketProg (Except Errno Nat) := do
  match (← get).names name, m with
  | none, _ => return .error .ENOENT
  | some _, .noFile | some _, .noInode => return .error .ENOMEM
  | some a, .enough =>
    let u ← derefAddr a
    modify fun s => s.setAddr a { u with refCount := u.refCount + 1 }
    return .ok a

/-! ## Calls -/

def sysSocket (t : Nat) (m : Memory) : SocketProg (Except Errno Nat) := do
  match m with
  | .noInode => return .error .ENOMEM
  | _ =>
    let i := (← get).numSocks
    modify fun s => { s with numSocks := s.numSocks + 1 }.setSock s.numSocks ⟨1, false, false, .opened, 0⟩
    openSocket t i m

def unixSocketBind (i a : Nat) : SocketProg (Except Errno Unit) := do
  let u ← derefSocket i
  if u.isBound then return .error .EINVAL
  else
    modify fun s => s.setAddr a { s.addr a with boundSocket := some i }
    modify fun s => s.setSock i { u with isBound := true }
    return .ok ()

def sysBind (t fd name : Nat) (m : Memory) : SocketProg (Except Errno Unit) := do
  match (← get).lookup t fd with
  | none => return .error .EBADF
  | some d =>
    match ← createAddr name m with
    | .error .EEXIST => return .error .EADDRINUSE
    | .error e => return .error e
    | .ok a =>
      match ← unixSocketBind d.sock a with
      | .error e =>
        addrUnref a
        return .error e
      | .ok () => return .ok ()

def unixSocketListen (i : Nat) (backlog : Int) : SocketProg (Except Errno Unit) := do
  let u ← derefSocket i
  if u.state ≠ .opened ∧ u.state ≠ .listening then return .error .EINVAL
  else if u.isBound = false then return .error .EINVAL
  else
    modify fun s => s.setSock i { u with backlog := backlog, state := .listening }
    return .ok ()

def sysListen (t fd : Nat) (backlog : Int) : SocketProg (Except Errno Unit) := do
  match (← get).lookup t fd with
  | none => return .error .EBADF
  | some d => unixSocketListen d.sock backlog

/-- The connector behind the others on the list of `l`; the walk to its place reads each of them. -/
def pushPending (c l : Nat) : SocketProg Unit := do
  let u ← derefSocket c
  modify fun s => s.setSock c { u with state := .pending }
  socketRef c
  forEach (fun p => do let _ ← derefSocket p.2) ((← get).pending.filter fun p => p.1 = l)
  modify fun s => { s with pending := s.pending ++ [(l, c)] }

def unixSocketConnect (c a : Nat) : SocketProg (Except Errno Unit) := do
  match (← derefAddr a).boundSocket with
  | none => return .error .ECONNREFUSED
  | some l =>
    match (← derefSocket c).state with
    | .listening => return .error .EINVAL
    | .pending | .connected => return .error .EISCONN
    | .opened =>
      let v ← derefSocket l
      let s ← get
      if v.state ≠ .listening ∨ s.room l ≤ s.numPending l then return .error .ECONNREFUSED
      else
        pushPending c l
        return .ok ()

def sysConnect (t fd name : Nat) (m : Memory) : SocketProg (Except Errno Unit) := do
  match (← get).lookup t fd with
  | none => return .error .EBADF
  | some d =>
    match ← openAddr name m with
    | .error e => return .error e
    | .ok a => unixSocketConnect d.sock a

/-- `unix_socket_accept`; with nothing pending, the call waits until a signal ends it. -/
def unixSocketAccept (l : Nat) : SocketProg (Except Errno Nat) := do
  let u ← derefSocket l
  if u.state ≠ .listening then return .error .EINVAL
  else
    match (← get).firstPending l with
    | none => return .error .EINTR
    | some c =>
      modify fun s => { s with pending := s.pending.erase (l, c) }
      let v ← derefSocket c
      ensure (v.state = .pending) .assert
      modify fun s => s.setSock c { v with state := .connected }
      return .ok c

def sysAccept (t fd : Nat) (m : Memory) : SocketProg (Except Errno Nat) := do
  match (← get).lookup t fd with
  | none => return .error .EBADF
  | some d =>
    match ← unixSocketAccept d.sock with
    | .error e => return .error e
    | .ok c => openSocket t c m

def sysClose (t fd : Nat) : SocketProg (Except Errno Unit) := do
  match (← get).lookup t fd with
  | none => return .error .EBADF
  | some d =>
    closeFile d
    return .ok ()

def sysUnlink (name : Nat) : SocketProg (Except Errno Unit) := do
  match (← get).names name with
  | none => return .error .ENOENT
  | some a =>
    modify fun s => { s with names := update s.names name none }
    let u ← derefAddr a
    ensure (0 < u.numLinks) .assert
    modify fun s => s.setAddr a { u with numLinks := u.numLinks - 1 }
    addrUnref a
    return .ok ()

def taskExit (t : Nat) : SocketProg Unit := do
  forEach closeFile ((← get).table.filter fun d => d.task = t)

inductive AddrCall
  | socket (t : Nat) (m : Memory)
  | bind (t fd name : Nat) (m : Memory)
  | listen (t fd : Nat) (backlog : Int)
  | connect (t fd name : Nat) (m : Memory)
  | accept (t fd : Nat) (m : Memory)
  | close (t fd : Nat)
  | unlink (name : Nat)
  | exit (t : Nat)

def AddrCall.exec : AddrCall → SocketProg Unit
  | .socket t m => do let _ ← sysSocket t m
  | .bind t fd name m => do let _ ← sysBind t fd name m
  | .listen t fd backlog => do let _ ← sysListen t fd backlog
  | .connect t fd name m => do let _ ← sysConnect t fd name m
  | .accept t fd m => do let _ ← sysAccept t fd m
  | .close t fd => do let _ ← sysClose t fd
  | .unlink name => do let _ ← sysUnlink name
  | .exit t => taskExit t

namespace SocketFs

def Step (s : SocketFs) (c : AddrCall) (s' : SocketFs) : Prop := ∃ r, c.exec s = .ok (r, s')

def drops (s : SocketFs) : AddrCall → List Nat
  | .close t fd =>
    match s.lookup t fd with
    | some d => [d.sock]
    | none => []
  | .exit t => (s.table.filter fun d => d.task = t).map Descriptor.sock
  | .accept t fd m =>
    match (s.lookup t fd).bind fun d => s.firstPending d.sock, m with
    | some c, .enough => if s.freeFd t = none then [c] else []
    | some c, _ => [c]
    | none, _ => []
  | _ => []

def Spares (s : SocketFs) (ds : List Nat) : Prop :=
  ∀ i ∈ ds, (s.sock i).isBound = true → ds.count i < (s.sock i).refCount
  deriving Decidable

/-- No call drops the last reference to a bound socket. -/
def Orderly (s : SocketFs) (c : AddrCall) : Prop := s.Spares (s.drops c)
  deriving Decidable

/-! ## Counted references -/

/-- A socket is referred to by the descriptors, by the pending lists and by the call that is going on. -/
structure Counted (s : SocketFs) (hand : List Nat) : Prop where
  refs : ∀ i, (s.sock i).refCount =
    (s.table.map Descriptor.sock).count i + (s.pending.map Prod.snd).count i + hand.count i
  freed : ∀ i, (s.sock i).freed = true → (s.sock i).refCount = 0
  unborn : ∀ i, s.numSocks ≤ i → (s.sock i).refCount = 0 ∧ (s.sock i).freed = false ∧ (s.sock i).isBound = false
  once : (s.pending.map Prod.snd).Nodup
  waiting : ∀ p ∈ s.pending, (s.sock p.2).state = .pending

structure Addressed (s : SocketFs) : Prop where
  bound : ∀ a i, (s.addr a).boundSocket = some i → (s.sock i).isBound = true ∧ (s.sock i).freed = false
  opened : ∀ a i, (s.addr a).boundSocket = some i → (s.addr a).numLinks < (s.addr a).refCount
  linked : ∀ n a, s.names n = some a →
    a < s.numAddrs ∧ (s.addr a).freed = false ∧ (s.addr a).numLinks = 1 ∧ 1 ≤ (s.addr a).refCount
  named : ∀ n m a, s.names n = some a → s.names m = some a → n = m
  unborn : ∀ a, s.numAddrs ≤ a → (s.addr a).boundSocket = none
  dropped : s.dropped = []

structure Sound (s : SocketFs) (hand : List Nat) : Prop where
  counted : s.Counted hand
  addressed : s.Addressed

theorem empty_sound : empty.Sound [] :=
  ⟨⟨fun _ => rfl, nofun, fun _ _ => ⟨rfl, rfl, rfl⟩, nodup_nil, nofun⟩,
    ⟨nofun, nofun, nofun, nofun, fun _ _ => rfl, rfl⟩⟩

section
variable {s s' : SocketFs} {hand : List Nat} {i c l : Nat} {u : SocketObj}

theorem Counted.live_of_pos (h : s.Counted hand) (hpos : 0 < (s.sock i).refCount) : (s.sock i).freed = false := by
  refine Bool.eq_false_iff.mpr fun hf => ?_
  rw [h.freed i hf] at hpos
  exact lt_irrefl 0 hpos

theorem Counted.pos_of_table (h : s.Counted hand) {d : Descriptor} (hd : d ∈ s.table) :
    0 < (s.sock d.sock).refCount := by
  have hco : 0 < (s.table.map Descriptor.sock).count d.sock := count_pos_iff.mpr (mem_map_of_mem hd)
  rw [h.refs]
  omega

theorem Counted.pos_of_pending (h : s.Counted hand) (hp : (l, c) ∈ s.pending) : 0 < (s.sock c).refCount := by
  have hmem : c ∈ s.pending.map snd := mem_map_of_mem (f := snd) hp
  have hco := count_pos_iff.mpr hmem
  rw [h.refs]
  omega

theorem Counted.pos_of_hand (h : s.Counted hand) (hi : i ∈ hand) : 0 < (s.sock i).refCount := by
  have hco := count_pos_iff.mpr hi
  rw [h.refs]
  omega

theorem Counted.born (h : s.Counted hand) (hpos : 0 < (s.sock i).refCount) : i < s.numSocks := by
  by_contra hi
  have := (h.unborn i (not_lt.mp hi)).1
  omega

theorem Addressed.congr (h : s.Addressed) (har : s'.addr = s.addr) (hna : s'.names = s.names)
    (hnum : s'.numAddrs = s.numAddrs) (hdr : s'.dropped = s.dropped)
    (hbo : ∀ i, (s.sock i).isBound = true → (s.sock i).freed = false →
      (s'.sock i).isBound = true ∧ (s'.sock i).freed = false) : s'.Addressed := by
  obtain ⟨h1, h2, h3, h4, h5, h6⟩ := h
  refine ⟨fun a i hai => ?_, ?_, ?_, ?_, ?_, ?_⟩
  · rw [har] at hai
    exact hbo i (h1 a i hai).1 (h1 a i hai).2
  · rwa [har]
  · rwa [har, hna, hnum]
  · rwa [hna]
  · rwa [har, hnum]
  · rwa [hdr]

theorem Addressed.setSock (h : s.Addressed) (hb : (s.sock i).isBound = true → u.isBound = true ∧ u.freed = false) :
    (s.setSock i u).Addressed := by
  refine h.congr rfl rfl rfl rfl fun j hbo hfr => ?_
  by_cases hji : j = i
  · subst hji
    rw [setSock_self]
    exact hb hbo
  · rw [setSock_ne s hji]
    exact ⟨hbo, hfr⟩

theorem Counted.setSock {hand' : List Nat} (h : s.Counted hand) (hi : i < s.numSocks)
    (hre : u.refCount + hand.count i = (s.sock i).refCount + hand'.count i)
    (hot : ∀ j, j ≠ i → hand'.count j = hand.count j) (hfr : u.freed = true → u.refCount = 0)
    (hsa : u.state = (s.sock i).state ∨ i ∉ s.pending.map snd) : (s.setSock i u).Counted hand' := by
  refine ⟨fun j => ?_, fun j hj => ?_, fun j hj => ?_, h.once, fun p hp => ?_⟩
  · show ((s.setSock i u).sock j).refCount =
      (s.table.map Descriptor.sock).count j + (s.pending.map snd).count j + hand'.count j
    by_cases hji : j = i
    · subst hji
      have := h.refs j
      rw [setSock_self]
      omega
    · rw [setSock_ne s hji, h.refs j, hot j hji]
  · by_cases hji : j = i
    · subst hji
      rw [setSock_self] at hj ⊢
      exact hfr hj
    · rw [setSock_ne s hji] at hj ⊢
      exact h.freed j hj
  · have hji : j ≠ i := by
      rintro rfl
      exact not_lt.mpr hj hi
    rw [setSock_ne s hji]
    exact h.unborn j hj
  · have hwa := h.waiting p hp
    by_cases hpi : p.2 = i
    · rw [hpi] at hwa ⊢
      rw [setSock_self]
      rcases hsa with hst | hst
      · rw [hst]
        exact hwa
      · exact absurd (hpi ▸ mem_map_of_mem (f := snd) hp) hst
    · rw [setSock_ne s hpi]
      exact hwa

theorem Sound.unref (h : s.Sound (i :: hand)) (hb : (s.sock i).isBound = true → 1 < (s.sock i).refCount) :
    (s.setSock i { s.sock i with refCount := (s.sock i).refCount - 1, freed := (s.sock i).refCount = 1 }).Sound
      hand := by
  have hpos := h.counted.pos_of_hand (i := i) (.head _)
  refine ⟨h.counted.setSock (h.counted.born hpos) ?_ (fun j hj => ?_) (fun hf => ?_) (.inl rfl),
    h.addressed.setSock fun hbo => ⟨hbo, ?_⟩⟩
  · simp only [count_cons_self]
    omega
  · exact (count_cons_of_ne (Ne.symm hj)).symm
  · have hone : (s.sock i).refCount = 1 := of_decide_eq_true hf
    show (s.sock i).refCount - 1 = 0
    omega
  · have := hb hbo
    exact decide_eq_false (by omega)

end

end SocketFs

/-! ## What the calls keep -/

section
variable {s : SocketFs} {bad : SocketTrap → Prop} {hand : List Nat} {i c l t fd a name : Nat} {m : Memory}

theorem derefSocket_run (h : (s.sock i).freed = false) : derefSocket i s = .ok (s.sock i, s) := by
  unfold derefSocket
  rw [Prog.get_bind, Prog.ensure_bind, if_pos h]
  exact Prog.pure_run _

theorem derefAddr_run (h : (s.addr a).freed = false) : derefAddr a s = .ok (s.addr a, s) := by
  unfold derefAddr
  rw [Prog.get_bind, Prog.ensure_bind, if_pos h]
  exact Prog.pure_run _

theorem addrDestroy_run (h : (s.addr a).freed = false) (hnn : (s.addr a).boundSocket = none) :
    addrDestroy a s = .ok ((), s.setAddr a { s.addr a with freed := true }) := by
  unfold addrDestroy
  rw [Prog.bind_run (derefAddr_run h)]
  simp only [hnn]
  rw [Prog.modify_run, hnn]

theorem socketUnref_run (h : (s.sock i).freed = false) (hpos : 0 < (s.sock i).refCount) :
    socketUnref i s = .ok ((), s.setSock i
      { s.sock i with refCount := (s.sock i).refCount - 1, freed := (s.sock i).refCount = 1 }) := by
  unfold socketUnref
  rw [Prog.bind_run (derefSocket_run h), Prog.ensure_bind, if_pos hpos]
  exact Prog.modify_run _

theorem socketUnref_ends (h : s.Sound (i :: hand)) (hb : (s.sock i).isBound = true → 1 < (s.sock i).refCount) :
    Ends bad (socketUnref i) s fun _ s' => s'.Sound hand := by
  have hpos := h.counted.pos_of_hand (i := i) (.head _)
  exact .of_ok (socketUnref_run (h.counted.live_of_pos hpos) hpos) (h.unref hb)

theorem SocketFs.lookup_mem {d : Descriptor} (h : s.lookup t fd = some d) : d ∈ s.table :=
  mem_of_find?_eq_some h

theorem SocketFs.Sound.retable (h : s.Sound hand) {table : List Descriptor} {hand' : List Nat}
    (hco : ∀ j, (table.map Descriptor.sock).count j + hand'.count j =
      (s.table.map Descriptor.sock).count j + hand.count j) : SocketFs.Sound { s with table := table } hand' := by
  obtain ⟨⟨hre, hfr, hun, hon, hwa⟩, har⟩ := h
  refine ⟨⟨fun j => ?_, hfr, hun, hon, hwa⟩, har.congr rfl rfl rfl rfl fun _ hb hf => ⟨hb, hf⟩⟩
  have := hre j
  have := hco j
  dsimp only
  omega

theorem SocketFs.Sound.install (h : s.Sound (i :: hand)) (t fd : Nat) :
    SocketFs.Sound { s with table := ⟨t, fd, i⟩ :: s.table } hand := by
  refine h.retable fun j => ?_
  simp only [map_cons, count_cons]
  omega

theorem openSocket_ends (h : s.Sound [i])
    (hb : m ≠ .enough ∨ s.freeFd t = none → (s.sock i).isBound = true → 1 < (s.sock i).refCount) :
    Ends bad (openSocket t i m) s fun _ s' => s'.Sound [] := by
  cases m with
  | noFile | noInode => exact (socketUnref_ends h (hb (.inl nofun))).bind fun _ _ h' => .pure h'
  | enough =>
    refine .get ?_
    cases hfd : s.freeFd t with
    | none => exact (socketUnref_ends h (hb (.inr hfd))).bind fun _ _ h' => .pure h'
    | some fd => exact .modify_bind (.pure (h.install t fd))

theorem closeFile_ends {d : Descriptor} (h : s.Sound hand) (hd : d ∈ s.table)
    (hb : (s.sock d.sock).isBound = true → 1 < (s.sock d.sock).refCount) :
    Ends bad (closeFile d) s fun _ s' => s'.Sound hand ∧ s'.table = s.table.erase d ∧
      ∀ j, (s'.sock j).isBound = (s.sock j).isBound ∧
        (s'.sock j).refCount = (s.sock j).refCount - [d.sock].count j := by
  have hpos := h.counted.pos_of_table hd
  refine .run_bind (socketUnref_run (h.counted.live_of_pos hpos) hpos) (.modify ⟨?_, rfl, fun j => ?_⟩)
  · -- without the descriptor the reference is in hand
    have her : SocketFs.Sound { s with table := s.table.erase d } (d.sock :: hand) := by
      refine h.retable fun j => ?_
      have hpe := ((perm_cons_erase hd).map Descriptor.sock).count_eq j
      simp only [map_cons, count_cons] at hpe ⊢
      omega
    exact her.unref hb
  · by_cases hj : j = d.sock
    · subst hj
      simp [SocketFs.setSock]
    · simp [SocketFs.setSock, hj, Ne.symm hj]

theorem closeAll_ends (ds : List Descriptor) (h : s.Sound []) (hsub : ds.Subperm s.table)
    (hsp : s.Spares (ds.map Descriptor.sock)) : Ends bad (forEach closeFile ds) s fun _ s' => s'.Sound [] := by
  induction ds generalizing s with
  | nil => exact .pure h
  | cons d ds ih =>
    have hd : d ∈ s.table := hsub.subset (.head _)
    have hone : (s.sock d.sock).isBound = true → 1 < (s.sock d.sock).refCount := by
      intro hb
      have := hsp d.sock (.head _) hb
      simp only [map_cons, count_cons_self] at this
      omega
    refine (closeFile_ends h hd hone).bind fun _ s' ⟨h', hta, hso⟩ => ih h' ?_ fun j hj hb => ?_
    · rw [hta]
      have her := hsub.erase d
      rwa [erase_cons_head] at her
    · obtain ⟨hbo, hre⟩ := hso j
      rw [hbo] at hb
      have := hsp j (.tail _ hj) hb
      rw [hre]
      simp only [map_cons, count_cons, count_nil] at this ⊢
      omega

theorem SocketFs.Counted.not_pending (h : s.Counted hand) (hi : (s.sock i).state ≠ .pending) :
    i ∉ s.pending.map snd := by
  intro hmem
  obtain ⟨p, hp, rfl⟩ := mem_map.mp hmem
  exact hi (h.waiting p hp)

theorem SocketFs.Sound.setSock {u : SocketObj} (h : s.Sound hand) (hpos : 0 < (s.sock i).refCount)
    (hre : u.refCount = (s.sock i).refCount) (hfr : u.freed = (s.sock i).freed)
    (hbo : (s.sock i).isBound = true → u.isBound = true)
    (hst : u.state = (s.sock i).state ∨ i ∉ s.pending.map snd) : (s.setSock i u).Sound hand := by
  have hli := h.counted.live_of_pos hpos
  refine ⟨h.counted.setSock (h.counted.born hpos) (by omega) (fun _ _ => rfl) (fun hf => ?_) hst,
    h.addressed.setSock fun hb => ⟨hbo hb, hfr.trans hli⟩⟩
  rw [hfr, hli] at hf
  cases hf

theorem unixSocketListen_ends (h : s.Sound []) (hpos : 0 < (s.sock i).refCount) (backlog : Int) :
    Ends bad (unixSocketListen i backlog) s fun _ s' => s'.Sound [] := by
  refine .run_bind (derefSocket_run (h.counted.live_of_pos hpos)) ?_
  split
  · exact .pure h
  · rename_i hst
    split
    · exact .pure h
    · refine .modify_bind (.pure (h.setSock hpos rfl rfl id (.inr (h.counted.not_pending ?_))))
      intro hp
      rw [hp] at hst
      exact hst ⟨nofun, nofun⟩

theorem unixSocketAccept_ends (h : s.Sound []) (hpos : 0 < (s.sock l).refCount) :
    Ends bad (unixSocketAccept l) s fun r s' =>
      (∀ e, r = .error e → s'.Sound []) ∧ ∀ c, r = .ok c → s.firstPending l = some c ∧ s'.Sound [c] ∧
        s'.table = s.table ∧ (s'.sock c).isBound = (s.sock c).isBound ∧
          (s'.sock c).refCount = (s.sock c).refCount := by
  refine .run_bind (derefSocket_run (h.counted.live_of_pos hpos)) ?_
  split
  · exact .pure ⟨fun _ _ => h, nofun⟩
  · refine .get ?_
    cases hfi : s.firstPending l with
    | none => exact .pure ⟨fun _ _ => h, nofun⟩
    | some c =>
      obtain ⟨p, hp, rfl⟩ := map_eq_some_iff.mp hfi
      have hmem : p ∈ s.pending := mem_of_find?_eq_some hp
      obtain rfl : p.1 = l := by simpa using find?_some hp
      have hcp := h.counted.pos_of_pending (l := p.1) (c := p.2) hmem
      -- taken from the list, the connector's reference is in hand
      have hpo : SocketFs.Sound { s with pending := s.pending.erase p } [p.2] ∧
          p.2 ∉ (s.pending.erase p).map snd := by
        obtain ⟨⟨hre, hfr, hun, hon, hwa⟩, har⟩ := h
        have hpe := (perm_cons_erase hmem).map snd
        have hnd := hpe.nodup_iff.mp hon
        rw [map_cons, nodup_cons] at hnd
        refine ⟨⟨⟨fun j => ?_, hfr, hun, hnd.2, fun q hq => hwa q (mem_of_mem_erase hq)⟩,
          har.congr rfl rfl rfl rfl fun _ hb hf => ⟨hb, hf⟩⟩, hnd.1⟩
        have := hre j
        have hco := hpe.count_eq j
        simp only [map_cons, count_cons, count_nil] at this hco ⊢
        omega
      refine .modify_bind (.run_bind (derefSocket_run (h.counted.live_of_pos hcp)) ?_)
      refine .ensure_bind (h.counted.waiting p hmem) (.modify_bind (.pure ⟨nofun, fun c hc => ?_⟩))
      obtain rfl : p.2 = c := Except.ok.inj hc
      refine ⟨rfl, hpo.1.setSock hcp rfl rfl id (.inr hpo.2), rfl, ?_, ?_⟩
      · rw [SocketFs.setSock_self]
      · rw [SocketFs.setSock_self]

/-! ### Addresses -/

theorem SocketFs.Sound.setAddr {u : AddrInode} (h : s.Sound hand) (ha : a < s.numAddrs)
    (hbo : ∀ i, u.boundSocket = some i →
      ((s.sock i).isBound = true ∧ (s.sock i).freed = false) ∧ u.numLinks < u.refCount)
    (hli : (∃ n, s.names n = some a) → u.freed = false ∧ u.numLinks = 1 ∧ 1 ≤ u.refCount) :
    (s.setAddr a u).Sound hand := by
  obtain ⟨hc, h1, h2, h3, h4, h5, h6⟩ := h
  refine ⟨⟨hc.refs, hc.freed, hc.unborn, hc.once, hc.waiting⟩, fun b i hbi => ?_, fun b i hbi => ?_,
    fun n b hnb => ?_, h4, fun b hb => ?_, h6⟩
  · by_cases hba : b = a
    · subst hba
      rw [SocketFs.setAddr_self] at hbi
      exact (hbo i hbi).1
    · rw [SocketFs.setAddr_ne s hba] at hbi
      exact h1 b i hbi
  · by_cases hba : b = a
    · subst hba
      rw [SocketFs.setAddr_self] at hbi ⊢
      exact (hbo i hbi).2
    · rw [SocketFs.setAddr_ne s hba] at hbi ⊢
      exact h2 b i hbi
  · by_cases hba : b = a
    · subst hba
      rw [SocketFs.setAddr_self]
      exact ⟨ha, hli ⟨n, hnb⟩⟩
    · rw [SocketFs.setAddr_ne s hba]
      exact h3 n b hnb
  · have hba : b ≠ a := by
      rintro rfl
      exact not_lt.mpr hb ha
    rw [SocketFs.setAddr_ne s hba]
    exact h5 b hb

theorem SocketFs.Sound.addName (h : s.Sound hand) (hna : s.names name = none) {k : Nat} (hk : 1 ≤ k) :
    (s.addName name ⟨k, 1, none, false⟩).Sound hand := by
  refine ⟨⟨h.counted.refs, h.counted.freed, h.counted.unborn, h.counted.once, h.counted.waiting⟩, ?_⟩
  obtain ⟨h1, h2, h3, h4, h5, h6⟩ := h.addressed
  have hse : (s.addName name ⟨k, 1, none, false⟩).addr s.numAddrs = ⟨k, 1, none, false⟩ :=
    update_self ..
  have hne : ∀ b, b ≠ s.numAddrs → (s.addName name ⟨k, 1, none, false⟩).addr b = s.addr b := fun b hb =>
    update_of_ne hb ..
  have hnm : ∀ n b, (s.addName name ⟨k, 1, none, false⟩).names n = some b →
      (n = name ∧ b = s.numAddrs) ∨ s.names n = some b ∧ b < s.numAddrs := by
    intro n b hn
    have hnew : (s.addName name ⟨k, 1, none, false⟩).names name = some s.numAddrs := update_self ..
    by_cases hnn : n = name
    · subst hnn
      exact .inl ⟨rfl, mem_unique hn hnew⟩
    · have hold : s.names n = some b := (update_of_ne hnn ..).symm.trans hn
      exact .inr ⟨hold, (h3 n b hold).1⟩
  refine ⟨fun b i hbi => ?_, fun b i hbi => ?_, fun n b hnb => ?_, fun n n' b hn hn' => ?_, fun b hb => ?_, h6⟩
  · by_cases hb : b = s.numAddrs
    · rw [hb, hse] at hbi
      cases hbi
    · rw [hne b hb] at hbi
      exact h1 b i hbi
  · by_cases hb : b = s.numAddrs
    · rw [hb, hse] at hbi
      cases hbi
    · rw [hne b hb] at hbi ⊢
      exact h2 b i hbi
  · have hlt : (s.addName name ⟨k, 1, none, false⟩).numAddrs = s.numAddrs + 1 := rfl
    rcases hnm n b hnb with ⟨-, rfl⟩ | ⟨hold, hb⟩
    · rw [hse, hlt]
      exact ⟨Nat.lt_succ_self _, rfl, rfl, hk⟩
    · rw [hne b (Nat.ne_of_lt hb), hlt]
      exact ⟨Nat.lt_succ_of_lt hb, (h3 n b hold).2⟩
  · rcases hnm n b hn with ⟨rfl, rfl⟩ | ⟨hold, hb⟩
    · rcases hnm n' _ hn' with ⟨rfl, -⟩ | ⟨-, hb'⟩
      · rfl
      · exact absurd hb' (Nat.lt_irrefl _)
    · rcases hnm n' b hn' with ⟨-, rfl⟩ | ⟨hold', -⟩
      · exact absurd hb (Nat.lt_irrefl _)
      · exact h4 n n' b hold hold'
  · have hb' : s.numAddrs + 1 ≤ b := hb
    rw [hne b (by omega)]
    exact h5 b (by omega)

theorem createAddr_ends (h : s.Sound []) :
    Ends bad (createAddr name m) s fun r s' => s'.Sound [] ∧ (∀ j, s'.sock j = s.sock j) ∧
      ∀ a, r = .ok a → s'.names name = some a ∧ s'.addr a = ⟨2, 1, none, false⟩ := by
  refine .get ?_
  cases hna : s.names name with
  | some b => exact .pure ⟨h, fun _ => rfl, nofun⟩
  | none =>
    cases m with
    | noInode => exact .pure ⟨h, fun _ => rfl, nofun⟩
    | noFile => exact .modify_bind (.pure ⟨h.addName hna le_rfl, fun _ => rfl, nofun⟩)
    | enough =>
      refine .get (.modify_bind (.pure ⟨h.addName hna (by decide), fun _ => rfl, fun a ha => ?_⟩))
      obtain rfl : s.numAddrs = a := Except.ok.inj ha
      exact ⟨update_self .., update_self ..⟩

theorem unixSocketBind_ends (h : s.Sound []) (hpos : 0 < (s.sock i).refCount) (hna : s.names name = some a)
    (ha : s.addr a = ⟨2, 1, none, false⟩) :
    Ends bad (unixSocketBind i a) s fun r s' => s'.Sound [] ∧ ((∃ e, r = .error e) → s' = s) := by
  have hli := h.counted.live_of_pos hpos
  refine .run_bind (derefSocket_run hli) ?_
  split
  · exact .pure ⟨h, fun _ => rfl⟩
  · have hbo : (s.setSock i { s.sock i with isBound := true }).Sound [] :=
      h.setSock hpos rfl rfl (fun _ => rfl) (.inl rfl)
    refine .modify_bind (.modify_bind (.pure ⟨?_, nofun⟩))
    refine hbo.setAddr (h.addressed.linked name a hna).1 (fun j hj => ?_) fun _ => ?_
    · obtain rfl : i = j := some.inj hj
      rw [SocketFs.setSock_self, ha]
      exact ⟨⟨rfl, hli⟩, lt_succ_self 1⟩
    · rw [ha]
      exact ⟨rfl, rfl, le_succ 1⟩

theorem addrUnref_ends (h : s.Sound []) (hlt : a < s.numAddrs) (hfr : (s.addr a).freed = false)
    (hpos : 0 < (s.addr a).refCount)
    (hbo : ∀ i, (s.addr a).boundSocket = some i → (s.addr a).numLinks + 1 < (s.addr a).refCount)
    (hli : (∃ n, s.names n = some a) → 1 < (s.addr a).refCount) :
    Ends bad (addrUnref a) s fun _ s' => s'.Sound [] := by
  have hdr : (s.setAddr a { s.addr a with refCount := (s.addr a).refCount - 1 }).Sound [] := by
    refine h.setAddr hlt (fun i hi => ⟨h.addressed.bound a i hi, ?_⟩) fun hn => ?_
    · have := hbo i hi
      show (s.addr a).numLinks < (s.addr a).refCount - 1
      omega
    · obtain ⟨n, hn⟩ := hn
      obtain ⟨-, -, hone, -⟩ := h.addressed.linked n a hn
      have := hli ⟨n, hn⟩
      exact ⟨hfr, hone, by show 1 ≤ (s.addr a).refCount - 1; omega⟩
  refine .run_bind (derefAddr_run hfr) (.ensure_bind hpos (.modify_bind ?_))
  split
  · have hnn : (s.addr a).boundSocket = none := by
      refine eq_none_iff_forall_ne_some.mpr fun i hi => ?_
      have := hbo i hi
      omega
    refine .of_ok (addrDestroy_run (by rwa [SocketFs.setAddr_self]) (by rwa [SocketFs.setAddr_self])) ?_
    refine hdr.setAddr hlt (fun i hi => ?_) fun hn => ?_
    · rw [SocketFs.setAddr_self] at hi
      cases hnn.symm.trans hi
    · obtain ⟨n, hn⟩ := hn
      obtain ⟨-, -, hone, -⟩ := h.addressed.linked n a hn
      omega
  · exact .pure hdr

/-! ### The calls -/

theorem SocketFs.Sound.addSocket (h : s.Sound []) :
    SocketFs.Sound ({ s with numSocks := s.numSocks + 1 }.setSock s.numSocks ⟨1, false, false, .opened, 0⟩)
      [s.numSocks] := by
  obtain ⟨hre, -, hun⟩ := h.counted.unborn s.numSocks le_rfl
  have hco : SocketFs.Counted { s with numSocks := s.numSocks + 1 } [] :=
    ⟨h.counted.refs, h.counted.freed, fun i hi => h.counted.unborn i (le_of_succ_le hi), h.counted.once,
      h.counted.waiting⟩
  have har : SocketFs.Addressed { s with numSocks := s.numSocks + 1 } :=
    h.addressed.congr rfl rfl rfl rfl fun _ hb hf => ⟨hb, hf⟩
  refine ⟨hco.setSock (lt_succ_self _) ?_ (fun j hj => ?_) nofun (.inr fun hmem => ?_), har.setSock fun hb => ?_⟩
  · show 1 + 0 = (s.sock s.numSocks).refCount + [s.numSocks].count s.numSocks
    rw [hre, count_singleton_self]
  · exact count_eq_zero_of_not_mem (by simpa using hj)
  · obtain ⟨p, hp, hnum⟩ := mem_map.mp hmem
    have hpos := h.counted.pos_of_pending (l := p.1) (c := p.2) hp
    rw [hnum, hre] at hpos
    exact lt_irrefl 0 hpos
  · cases hun.symm.trans hb

theorem sysSocket_ends (h : s.Sound []) : Ends bad (sysSocket t m) s fun _ s' => s'.Sound [] := by
  have hop : Ends bad (openSocket t s.numSocks m)
      ({ s with numSocks := s.numSocks + 1 }.setSock s.numSocks ⟨1, false, false, .opened, 0⟩)
      fun _ s' => s'.Sound [] := by
    refine openSocket_ends h.addSocket fun _ hb => ?_
    rw [SocketFs.setSock_self] at hb
    cases hb
  cases m with
  | noInode => exact .pure h
  | noFile | enough => exact .get (.modify_bind hop)

theorem sysBind_ends (h : s.Sound []) : Ends bad (sysBind t fd name m) s fun _ s' => s'.Sound [] := by
  refine .get ?_
  cases hd : s.lookup t fd with
  | none => exact .pure h
  | some d =>
    have hpos := h.counted.pos_of_table (SocketFs.lookup_mem hd)
    refine (createAddr_ends h).bind fun r s' ⟨h', hso, hok⟩ => ?_
    cases r with
    | ok a =>
      obtain ⟨hna, ha⟩ := hok a rfl
      have hpos' : 0 < (s'.sock d.sock).refCount := by rwa [hso]
      refine (unixSocketBind_ends h' hpos' hna ha).bind fun r s'' ⟨h'', hsa⟩ => ?_
      cases r with
      | ok u => exact .pure h''
      | error e =>
        obtain rfl := hsa ⟨e, rfl⟩
        obtain ⟨hlt, hfr, -, hone⟩ := h''.addressed.linked name a hna
        refine (addrUnref_ends h'' hlt hfr hone (fun i hi => ?_) fun _ => ?_).bind fun _ _ hs => .pure hs
        · rw [ha] at hi
          cases hi
        · rw [ha]
          exact lt_succ_self 1
    | error e =>
      split
      · exact .pure h'
      · exact .pure h'
      · rename_i heq
        cases heq

theorem sysListen_ends (h : s.Sound []) (backlog : Int) :
    Ends bad (sysListen t fd backlog) s fun _ s' => s'.Sound [] := by
  refine .get ?_
  cases hd : s.lookup t fd with
  | none => exact .pure h
  | some d => exact unixSocketListen_ends h (h.counted.pos_of_table (SocketFs.lookup_mem hd)) backlog

theorem openAddr_ends (h : s.Sound []) : Ends bad (openAddr name m) s fun r s' => s'.Sound [] ∧ s'.sock = s.sock ∧
      ∀ a, r = .ok a → (s'.addr a).freed = false := by
  refine .get ?_
  cases hn : s.names name with
  | none => exact .pure ⟨h, rfl, nofun⟩
  | some a =>
    cases m with
    | noFile => exact .pure ⟨h, rfl, nofun⟩
    | noInode => exact .pure ⟨h, rfl, nofun⟩
    | enough =>
      obtain ⟨hlt, hfr, hli, hone⟩ := h.addressed.linked name a hn
      refine .run_bind (derefAddr_run hfr) (.modify_bind (.pure ⟨?_, rfl, fun b hb => ?_⟩))
      · refine h.setAddr hlt (fun i hi => ⟨h.addressed.bound a i hi, ?_⟩) fun _ => ⟨hfr, hli, ?_⟩
        · exact lt_succ_of_lt (h.addressed.opened a i hi)
        · exact le_succ_of_le hone
      · obtain rfl : a = b := Except.ok.inj hb
        rw [SocketFs.setAddr_self]
        exact hfr

theorem walkPending_run (ps : List (Nat × Nat)) (h : ∀ p ∈ ps, (s.sock p.2).freed = false) :
    forEach (fun p => do let _ ← derefSocket p.2) ps s = .ok ((), s) := by
  induction ps with
  | nil => exact Prog.pure_run ()
  | cons p ps ih =>
    have hp : (do let _ ← derefSocket p.2 : SocketProg Unit) s = .ok ((), s) := by
      rw [Prog.bind_run (derefSocket_run (h p (.head _)))]
      exact Prog.pure_run ()
    exact (Prog.bind_run hp).trans (ih fun q hq => h q (mem_cons_of_mem p hq))

theorem SocketFs.Sound.append (h : s.Sound (c :: hand)) (hc : (s.sock c).state = .pending)
    (hnew : c ∉ s.pending.map snd) : SocketFs.Sound { s with pending := s.pending ++ [(l, c)] } hand := by
  obtain ⟨⟨hre, hfr, hun, hon, hwa⟩, har⟩ := h
  refine ⟨⟨fun j => ?_, hfr, hun, ?_, fun p hp => ?_⟩, har.congr rfl rfl rfl rfl fun _ hb hf => ⟨hb, hf⟩⟩
  · have := hre j
    simp only [map_append, map_cons, map_nil, count_append, count_cons,
      count_nil] at this ⊢
    omega
  · rw [map_append]
    refine nodup_append.mpr ⟨hon, nodup_singleton _, fun x hx y hy => ?_⟩
    obtain rfl : y = c := mem_singleton.mp hy
    rintro rfl
    exact hnew hx
  · rcases mem_append.mp hp with hp | hp
    · exact hwa p hp
    · obtain rfl := mem_singleton.mp hp
      exact hc

theorem SocketFs.Sound.ref (h : s.Sound hand) (hpos : 0 < (s.sock i).refCount) :
    (s.setSock i { s.sock i with refCount := (s.sock i).refCount + 1 }).Sound (i :: hand) := by
  have hli := h.counted.live_of_pos hpos
  refine ⟨h.counted.setSock (h.counted.born hpos) ?_ (fun j hj => ?_) (fun hf => ?_) (.inl rfl),
    h.addressed.setSock fun hb => ⟨hb, hli⟩⟩
  · show (s.sock i).refCount + 1 + hand.count i = (s.sock i).refCount + (i :: hand).count i
    rw [count_cons_self]
    omega
  · exact count_cons_of_ne (Ne.symm hj)
  · cases hli.symm.trans hf

theorem socketRef_run (h : (s.sock i).freed = false) :
    socketRef i s = .ok ((), s.setSock i { s.sock i with refCount := (s.sock i).refCount + 1 }) := by
  unfold socketRef
  rw [Prog.bind_run (derefSocket_run h)]
  exact Prog.modify_run _

section
variable (h : s.Sound [])
include h

theorem pushPending_ends (hpos : 0 < (s.sock c).refCount) (hc : (s.sock c).state = .opened) :
    Ends bad (pushPending c l) s fun _ s' => s'.Sound [] := by
  have hnew : c ∉ s.pending.map snd := h.counted.not_pending (by rw [hc]; nofun)
  have hset : (s.setSock c { s.sock c with state := .pending }).Sound [] := h.setSock hpos rfl rfl id (.inr hnew)
  have hpos' : 0 < ((s.setSock c { s.sock c with state := .pending }).sock c).refCount := by
    rwa [SocketFs.setSock_self]
  have href := hset.ref hpos'
  refine .run_bind (derefSocket_run (h.counted.live_of_pos hpos)) (.modify_bind ?_)
  refine .run_bind (socketRef_run (hset.counted.live_of_pos hpos')) (.get ?_)
  refine .run_bind (walkPending_run _ fun p hp => ?_) (.modify (href.append ?_ hnew))
  · exact href.counted.live_of_pos (href.counted.pos_of_pending (mem_of_mem_filter hp))
  · rw [SocketFs.setSock_self, SocketFs.setSock_self]

theorem unixSocketConnect_ends (hpos : 0 < (s.sock c).refCount) (ha : (s.addr a).freed = false) :
    Ends bad (unixSocketConnect c a) s fun _ s' => s'.Sound [] := by
  refine .run_bind (derefAddr_run ha) ?_
  cases hbo : (s.addr a).boundSocket with
  | none => exact .pure h
  | some l =>
    refine .run_bind (derefSocket_run (h.counted.live_of_pos hpos)) ?_
    cases hst : (s.sock c).state with
    | listening | pending | connected => exact .pure h
    | opened =>
      refine .run_bind (derefSocket_run (h.addressed.bound a l hbo).2) (.get ?_)
      split
      · exact .pure h
      · exact (pushPending_ends h hpos hst).bind fun _ _ h' => .pure h'

theorem sysConnect_ends : Ends bad (sysConnect t fd name m) s fun _ s' => s'.Sound [] := by
  refine .get ?_
  cases hd : s.lookup t fd with
  | none => exact .pure h
  | some d =>
    have hpos := h.counted.pos_of_table (SocketFs.lookup_mem hd)
    refine (openAddr_ends h).bind fun r s' ⟨h', hso, hok⟩ => ?_
    cases r with
    | error e => exact .pure h'
    | ok a => exact unixSocketConnect_ends h' (by rwa [hso]) (hok a rfl)

theorem sysAccept_ends (ho : s.Orderly (.accept t fd m)) : Ends bad (sysAccept t fd m) s fun _ s' => s'.Sound [] := by
  refine .get ?_
  cases hd : s.lookup t fd with
  | none => exact .pure h
  | some d =>
    have hpos := h.counted.pos_of_table (SocketFs.lookup_mem hd)
    refine (unixSocketAccept_ends h hpos).bind fun r s' ⟨herr, hok⟩ => ?_
    cases r with
    | error e => exact .pure (herr e rfl)
    | ok c =>
      obtain ⟨hfi, h', hta, hbo, hre⟩ := hok c rfl
      refine openSocket_ends h' fun hfa hb => ?_
      have hfr : s'.freeFd t = s.freeFd t := by
        unfold SocketFs.freeFd SocketFs.lookup
        rw [hta]
      rw [hbo] at hb
      rw [hfr] at hfa
      rw [hre]
      -- the connector that gets no file is the one `drops` names
      have hdr : s.drops (.accept t fd m) = [c] := by
        unfold SocketFs.drops
        simp only [hd, bind_some, hfi]
        cases m with
        | enough => exact if_pos (hfa.resolve_left (· rfl))
        | noFile => rfl
        | noInode => rfl
      have hsp := ho c (by rw [hdr]; exact mem_singleton_self c) hb
      rwa [hdr, count_singleton_self] at hsp

theorem sysClose_ends (ho : s.Orderly (.close t fd)) : Ends bad (sysClose t fd) s fun _ s' => s'.Sound [] := by
  refine .get ?_
  cases hd : s.lookup t fd with
  | none => exact .pure h
  | some d =>
    have hdr : s.drops (.close t fd) = [d.sock] := by
      unfold SocketFs.drops
      simp only [hd]
    refine (closeFile_ends h (SocketFs.lookup_mem hd) fun hb => ?_).bind fun _ _ h' => .pure h'.1
    have hsp := ho d.sock (by rw [hdr]; exact mem_singleton_self _) hb
    rwa [hdr, count_singleton_self] at hsp

theorem sysUnlink_ends : Ends bad (sysUnlink name) s fun _ s' => s'.Sound [] := by
  refine .get ?_
  cases hn : s.names name with
  | none => exact .pure h
  | some a =>
    obtain ⟨hlt, hfr, hli, hone⟩ := h.addressed.linked name a hn
    have hnm : ∀ n b, update s.names name none n = some b → n ≠ name ∧ s.names n = some b := by
      intro n b hb
      by_cases hnn : n = name
      · subst hnn
        rw [update_self] at hb
        cases hb
      · exact ⟨hnn, (update_of_ne hnn ..).symm.trans hb⟩
    have hgo : SocketFs.Sound { s with names := update s.names name none } [] := by
      refine ⟨⟨h.counted.refs, h.counted.freed, h.counted.unborn, h.counted.once, h.counted.waiting⟩, ?_⟩
      obtain ⟨h1, h2, h3, h4, h5, h6⟩ := h.addressed
      exact ⟨h1, h2, fun n b hb => h3 n b (hnm n b hb).2,
        fun n n' b hb hb' => h4 n n' b (hnm n b hb).2 (hnm n' b hb').2, h5, h6⟩
    have hun : ¬∃ n, update s.names name none n = some a := by
      rintro ⟨n, hna⟩
      obtain ⟨hne, hold⟩ := hnm n a hna
      exact hne (h.addressed.named n name a hold hn)
    have hul : (SocketFs.setAddr { s with names := update s.names name none } a
        { s.addr a with numLinks := (s.addr a).numLinks - 1 }).Sound [] := by
      refine hgo.setAddr hlt (fun i hi => ⟨h.addressed.bound a i hi, ?_⟩) fun hn => absurd hn hun
      show (s.addr a).numLinks - 1 < (s.addr a).refCount
      omega
    refine .modify_bind (.run_bind (derefAddr_run hfr) (.ensure_bind (by rw [hli]; exact one_pos) ?_))
    refine .modify_bind ((addrUnref_ends hul hlt ?_ ?_ (fun i hi => ?_) fun hn => absurd hn hun).bind
      fun _ _ h' => .pure h')
    · rw [SocketFs.setAddr_self]
      exact hfr
    · rw [SocketFs.setAddr_self]
      exact hone
    · rw [SocketFs.setAddr_self] at hi ⊢
      have := h.addressed.opened a i hi
      show (s.addr a).numLinks - 1 + 1 < (s.addr a).refCount
      omega

theorem taskExit_ends (ho : s.Orderly (.exit t)) : Ends bad (taskExit t) s fun _ s' => s'.Sound [] :=
  .get (closeAll_ends _ h filter_sublist.subperm ho)

theorem AddrCall.exec_ends {c : AddrCall} (ho : s.Orderly c) : Ends bad c.exec s fun _ s' => s'.Sound [] := by
  cases c with
  | socket t m => exact (sysSocket_ends h).bind fun _ _ h' => .pure h'
  | bind t fd name m => exact (sysBind_ends h).bind fun _ _ h' => .pure h'
  | listen t fd backlog => exact (sysListen_ends h backlog).bind fun _ _ h' => .pure h'
  | connect t fd name m => exact (sysConnect_ends h).bind fun _ _ h' => .pure h'
  | accept t fd m => exact (sysAccept_ends h ho).bind fun _ _ h' => .pure h'
  | close t fd => exact (sysClose_ends h ho).bind fun _ _ h' => .pure h'
  | unlink name => exact (sysUnlink_ends h).bind fun _ _ h' => .pure h'
  | exit t => exact taskExit_ends h ho

end

end

/-! ## Runs -/

namespace SocketFs

variable {s : SocketFs}

theorem run_sound (hrun : Run Step Orderly empty s) : s.Sound [] := by
  refine hrun.invariant (I := fun s => s.Sound []) empty_sound fun s c s' h ⟨_, hex⟩ ho => ?_
  have hen : Ends (fun _ => True) c.exec s fun _ s' => s'.Sound [] := AddrCall.exec_ends h ho
  exact hen.ok hex

/-- No address dangles as long as no call drops the last reference to a bound socket. -/
theorem bound_address_live (hrun : Run Step Orderly empty s) :
    (∀ a i, (s.addr a).boundSocket = some i → (s.sock i).freed = false) ∧ s.dropped = [] ∧
      (∀ c, s.Orderly c → ∃ s', s.Step c s') ∧ ∀ t fd name m e, sysConnect t fd name m s ≠ .error e := by
  have h := run_sound hrun
  refine ⟨fun a i hai => (h.addressed.bound a i hai).2, h.addressed.dropped, fun c ho => ?_,
    fun t fd name m e he => ?_⟩
  · have hen : Ends (fun _ => False) c.exec s fun _ s' => s'.Sound [] := AddrCall.exec_ends h ho
    cases hex : c.exec s with
    | ok p => exact ⟨p.2, p.1, hex⟩
    | error e => exact (hen.error hex).elim
  · have hen : Ends (fun _ => False) (sysConnect t fd name m) s fun _ s' => s'.Sound [] := sysConnect_ends h
    exact hen.error he

theorem bound_address_live_served :
    ∃ s, Run Step Orderly empty s ∧ ((s.addr 0).boundSocket = some 0 ∧ s.names 7 = none ∧ (s.sock 1).refCount = 2) ∧
      (s.sock 0).freed = false := by
  obtain ⟨s, hrun, hs⟩ := exists_follow_prog AddrCall.exec Orderly
    [.socket 0 .enough, .bind 0 0 7 .enough, .listen 0 0 5, .socket 1 .enough, .connect 1 0 7 .enough,
      .accept 0 0 .enough, .unlink 7] empty
    (fun s => (s.addr 0).boundSocket = some 0 ∧ s.names 7 = none ∧ (s.sock 1).refCount = 2) (by decide +kernel)
  exact ⟨s, hrun, hs, (bound_address_live hrun).1 0 0 hs.1⟩

/-- References are descriptors and pending connections, all to live sockets. -/
theorem sockets_counted (hrun : Run Step Orderly empty s) :
    (∀ i, (s.sock i).refCount = (s.table.map Descriptor.sock).count i + (s.pending.map snd).count i) ∧
      (∀ d ∈ s.table, (s.sock d.sock).freed = false) ∧
      ∀ p ∈ s.pending, (s.sock p.2).freed = false ∧ (s.sock p.2).state = .pending := by
  have h := (run_sound hrun).counted
  exact ⟨h.refs, fun d hd => h.live_of_pos (h.pos_of_table hd),
    fun p hp => ⟨h.live_of_pos (h.pos_of_pending hp), h.waiting p hp⟩⟩

theorem sockets_counted_pending : ∃ s, Run Step Orderly empty s ∧ s.pending = [(0, 1)] ∧ s.table.length = 2 ∧
      (s.sock 1).refCount = (s.table.map Descriptor.sock).count 1 + 1 := by
  obtain ⟨s, hr, hp, hl⟩ := exists_follow_prog AddrCall.exec Orderly
    [.socket 0 .enough, .bind 0 0 7 .enough, .listen 0 0 5, .socket 1 .enough, .connect 1 0 7 .enough] empty
    (fun s => s.pending = [(0, 1)] ∧ s.table.length = 2) (by decide +kernel)
  have hc := (sockets_counted hr).1 1
  rw [hp] at hc
  exact ⟨s, hr, hp, hl, hc⟩

/-- The server closes its bound socket. Its inode still points to it, and the next connect reads a freed socket. -/
theorem closed_address_dangles :
    ∃ s, Run Step (fun _ _ => True) empty s ∧ ((s.addr 0).boundSocket = some 0 ∧ (s.sock 0).freed = true) ∧
      sysConnect 1 0 7 .enough s = .error .useAfterFree := by
  obtain ⟨s, hrun, hs⟩ := exists_follow_prog AddrCall.exec (fun _ _ => True)
    [.socket 0 .enough, .bind 0 0 7 .enough, .listen 0 0 5, .close 0 0, .socket 1 .enough] empty
    (fun s => ((s.addr 0).boundSocket = some 0 ∧ (s.sock 0).freed = true) ∧ (match sysConnect 1 0 7 .enough s with
        | .error e => some e
        | .ok _ => none) = some .useAfterFree) (by decide +kernel)
  refine ⟨s, hrun, hs.1, ?_⟩
  cases hco : sysConnect 1 0 7 .enough s with
  | error e =>
    rw [hco] at hs
    rw [some.inj hs.2]
  | ok p =>
    rw [hco] at hs
    cases hs.2

end SocketFs

end Yagura
