import Yagura.Errno
import Yagura.Trans

/-!
# Open files and descriptors

`struct file` and its reference count (`fs.c`), the descriptor tables of
`task.c`, and the system calls that make, share and drop references to open
files, executed one after another. What the rest of the kernel decides is an
argument of the call: whether memory is left, which symbolic links a path
leads through, what it resolves to, what an operation of the inode returns.
-/

namespace Yagura

open Function

inductive Crash
  | assertion
  | useAfterFree
  deriving DecidableEq, Repr

inductive InodeType
  | regular | directory | symlink | fifo | socket | device
  deriving DecidableEq, Repr

structure File where
  refCount : Nat
  flags : Nat
  type : InodeType
  closes : Nat
  freed : Bool
  deriving DecidableEq, Repr

structure Table where
  refCount : Nat
  entries : Nat → Option Nat

/-- `console` is `active_console`; `task t` is `files` of the `t`-th task. -/
structure Fds where
  file : Nat → File
  numFiles : Nat
  table : Nat → Table
  numTables : Nat
  task : Nat → Option Nat
  numTasks : Nat
  console : Option Nat

def OPEN_MAX : Nat := 1024

def O_RDONLY : Nat := 0
def O_WRONLY : Nat := 1
def O_RDWR : Nat := 2
def O_CREAT : Nat := 64
def O_EXCL : Nat := 128
def O_TRUNC : Nat := 512
def O_NONBLOCK : Nat := 2048

def accmode (flags : Nat) : Nat := flags % 4

def truncates (flags : Nat) : Bool := flags &&& O_TRUNC != 0

def F_DUPFD : Int := 0
def F_GETFL : Int := 3
def F_SETFL : Int := 4

namespace Fds

open Prog

abbrev Call := Prog Fds Crash

def setFile (s : Fds) (f : Nat) (a : File) : Fds := { s with file := update s.file f a }

def setTable (s : Fds) (i : Nat) (a : Table) : Fds := { s with table := update s.table i a }

def setEntry (s : Fds) (i j : Nat) (e : Option Nat) : Fds :=
  s.setTable i { s.table i with entries := update (s.table i).entries j e }

/-! ## Files -/

def useFile (f : Nat) : Call File :=
  look fun s => if (s.file f).freed then .error .useAfterFree else .ok (s.file f)

def fileRef (f : Nat) : Call Unit := do
  let file ← useFile f
  modify (·.setFile f { file with refCount := file.refCount + 1 })

def fileClose (f : Nat) : Call (Except Errno Unit) := do
  let file ← useFile f
  ensure (0 < file.refCount) .assertion
  if file.refCount - 1 > 0 then
    modify (·.setFile f { file with refCount := file.refCount - 1 })
    pure (.ok ())
  else
    modify (·.setFile f { file with refCount := file.refCount - 1, closes := file.closes + 1, freed := true })
    pure (.ok ())

/-- What `inode_open` meets: the inode's type, whether `kmalloc` succeeds, and the
errors of `fops->open` and `fops->truncate`, if there are such operations and they fail. -/
structure Target where
  type : InodeType
  memory : Bool
  openRc : Option Errno
  truncRc : Option Errno

def newFile (type : InodeType) (flags : Nat) : Call Nat := fun s =>
  .ok (s.numFiles, { s.setFile s.numFiles ⟨1, flags, type, 0, false⟩ with numFiles := s.numFiles + 1 })

def openTrunc (x : Target) (flags f : Nat) : Call (Except Errno Nat) :=
  if truncates flags then
    if x.type = .directory then pure (.error .EISDIR)
    else
      match x.truncRc with
      | some e => do
        let _ ← fileClose f
        pure (.error e)
      | none => pure (.ok f)
  else pure (.ok f)

/-- A `struct file` whose `fops->open` fails is freed again without a trace. -/
def inodeOpen (x : Target) (flags : Nat) : Call (Except Errno Nat) :=
  if accmode flags = 3 then pure (.error .EINVAL)
  else if accmode flags ≠ O_RDONLY ∧ x.type = .directory then pure (.error .EISDIR)
  else if x.memory = false then pure (.error .ENOMEM)
  else
    match x.openRc with
    | some e => pure (.error e)
    | none => do
      let f ← newFile x.type flags
      openTrunc x flags f

/-! ## Paths -/

/-- A symbolic link on the way: opening it, reading it, and room for the new path. -/
structure Link where
  memory : Bool
  openRc : Option Errno
  readRc : Option Errno
  room : Bool

def followSymlink (l : Link) : Call (Except Errno Unit) := do
  match ← inodeOpen ⟨.symlink, l.memory, l.openRc, none⟩ O_RDONLY with
  | .error e => pure (.error e)
  | .ok f =>
    let _ ← useFile f
    let _ ← fileClose f
    match l.readRc with
    | some e => pure (.error e)
    | none => if l.room then pure (.ok ()) else pure (.error .ENOMEM)

/-- Where a path leads: the links followed, then the inode found or created, or the error. -/
structure Walk where
  links : List Link
  result : Except Errno Target

def followLinks : List Link → Call (Except Errno Unit)
  | [] => pure (.ok ())
  | l :: ls => do
    match ← followSymlink l with
    | .error e => pure (.error e)
    | .ok () => followLinks ls

def vfsResolve (w : Walk) : Call (Except Errno Target) := do
  match ← followLinks w.links with
  | .error e => pure (.error e)
  | .ok () => pure w.result

def vfsOpen (w : Walk) (flags : Nat) : Call (Except Errno Nat) := do
  match ← vfsResolve w with
  | .error e => pure (.error e)
  | .ok x => inodeOpen x flags

/-! ## Descriptors of the table `i` -/

def taskAllocFileDescriptor (i : Nat) (fd : Int) (f : Nat) : Call (Except Errno Nat) := do
  let s ← get
  if (OPEN_MAX : Int) ≤ fd then pure (.error .EBADF)
  else if 0 ≤ fd then
    if ((s.table i).entries fd.toNat).isSome then pure (.error .EEXIST)
    else do
      modify (·.setEntry i fd.toNat (some f))
      pure (.ok fd.toNat)
  else
    match (List.range OPEN_MAX).find? fun j => ((s.table i).entries j).isNone with
    | some j => do
      modify (·.setEntry i j (some f))
      pure (.ok j)
    | none => pure (.error .EMFILE)

def taskFreeFileDescriptor (i : Nat) (fd : Int) : Call (Except Errno Nat) := do
  let s ← get
  if fd < 0 ∨ (OPEN_MAX : Int) ≤ fd then pure (.error .EBADF)
  else if ((s.table i).entries fd.toNat).isNone then pure (.error .EBADF)
  else do
    modify (·.setEntry i fd.toNat none)
    pure (.ok 0)

def lookup (s : Fds) (i : Nat) (fd : Int) : Except Errno Nat :=
  if fd < 0 ∨ (OPEN_MAX : Int) ≤ fd then .error .EBADF
  else
    match (s.table i).entries fd.toNat with
    | some f => .ok f
    | none => .error .EBADF

def taskGetFile (i : Nat) (fd : Int) : Call (Except Errno Nat) := look fun s => .ok (s.lookup i fd)

/-! ## System calls -/

def installFile (i f : Nat) : Call (Except Errno Nat) := do
  match ← taskAllocFileDescriptor i (-1) f with
  | .error e => do
    let _ ← fileClose f
    pure (.error e)
  | .ok fd => pure (.ok fd)

def sysOpen (i : Nat) (args : Option Errno) (flags : Nat) (w : Walk) : Call (Except Errno Nat) :=
  match args with
  | some e => pure (.error e)
  | none => do
    match ← vfsOpen w flags with
    | .error e => pure (.error (if e = .EINTR then .ERESTARTSYS else e))
    | .ok f => installFile i f

def sysCreat (i : Nat) (args : Option Errno) (w : Walk) : Call (Except Errno Nat) :=
  sysOpen i args (O_CREAT + O_WRONLY + O_TRUNC) w

def sysClose (i : Nat) (fd : Int) : Call (Except Errno Nat) := do
  match ← taskGetFile i fd with
  | .error e => pure (.error e)
  | .ok f => do
    match ← fileClose f with
    | .error e => pure (.error e)
    | .ok () => taskFreeFileDescriptor i fd

def dupFile (i : Nat) (fd : Int) (f : Nat) : Call (Except Errno Nat) := do
  match ← taskAllocFileDescriptor i fd f with
  | .error e => pure (.error e)
  | .ok fd => do
    fileRef f
    pure (.ok fd)

def sysFcntl (i : Nat) (fd cmd : Int) (arg : Nat) : Call (Except Errno Nat) := do
  match ← taskGetFile i fd with
  | .error e => pure (.error e)
  | .ok f =>
    if cmd = F_DUPFD then dupFile i (-1) f
    else if cmd = F_GETFL then do
      let file ← useFile f
      pure (.ok file.flags)
    else if cmd = F_SETFL then do
      let file ← useFile f
      modify (·.setFile f { file with flags := arg })
      pure (.ok 0)
    else pure (.error .EINVAL)

def sysDup (i : Nat) (oldfd : Int) : Call (Except Errno Nat) := do
  match ← taskGetFile i oldfd with
  | .error e => pure (.error e)
  | .ok f => dupFile i (-1) f

def closeOld (i : Nat) (newfd : Int) : Call (Except Errno Nat) := do
  match ← taskGetFile i newfd with
  | .error _ => pure (.ok 0)
  | .ok f => do
    match ← fileClose f with
    | .error e => pure (.error e)
    | .ok () => taskFreeFileDescriptor i newfd

def sysDup3 (i : Nat) (oldfd newfd : Int) : Call (Except Errno Nat) := do
  match ← taskGetFile i oldfd with
  | .error e => pure (.error e)
  | .ok f =>
    if oldfd = newfd then pure (.ok oldfd.toNat)
    else do
      match ← closeOld i newfd with
      | .error e => pure (.error e)
      | .ok _ => dupFile i newfd f

def sysDup2 (i : Nat) (oldfd newfd : Int) : Call (Except Errno Nat) := sysDup3 i oldfd newfd

def pipeFail (i reader writer : Nat) (fds : List Nat) (e : Errno) : Call (Except Errno Nat) := do
  forEach (fun fd : Nat => do let _ ← taskFreeFileDescriptor i fd) fds
  let _ ← fileClose reader
  let _ ← fileClose writer
  pure (.error e)

def pipeInstall (i reader writer : Nat) (copied : Bool) : Call (Except Errno Nat) := do
  match ← taskAllocFileDescriptor i (-1) reader with
  | .error e => pipeFail i reader writer [] e
  | .ok readerFd => do
    match ← taskAllocFileDescriptor i (-1) writer with
    | .error e => pipeFail i reader writer [readerFd] e
    | .ok writerFd =>
      if copied then pure (.ok 0) else pipeFail i reader writer [readerFd, writerFd] .EFAULT

/-- `fifo` is the error of `fifo_create`, `memory` whether each `struct file` can be allocated. -/
def sysPipe2 (i : Nat) (fifo : Option Errno) (memory : Bool × Bool) (copied : Bool) : Call (Except Errno Nat) :=
  match fifo with
  | some e => pure (.error e)
  | none => do
    match ← inodeOpen ⟨.fifo, memory.1, none, none⟩ O_RDONLY with
    | .error e => pure (.error e)
    | .ok reader => do
      match ← inodeOpen ⟨.fifo, memory.2, none, none⟩ O_WRONLY with
      | .error e => do
        let _ ← fileClose reader
        pure (.error e)
      | .ok writer => pipeInstall i reader writer copied

def sysSocket (i : Nat) (supported : Bool) (create : Option Errno) (memory : Bool) : Call (Except Errno Nat) :=
  if supported = false then pure (.error .EAFNOSUPPORT)
  else
    match create with
    | some e => pure (.error e)
    | none => do
      match ← inodeOpen ⟨.socket, memory, none, none⟩ O_RDWR with
      | .error e => pure (.error e)
      | .ok f => installFile i f

def sysBind (i : Nat) (sockfd : Int) (args : Option Errno) (w : Walk) (rc : Option Errno) :
    Call (Except Errno Nat) := do
  match ← taskGetFile i sockfd with
  | .error e => pure (.error e)
  | .ok f => do
    let file ← useFile f
    if file.type ≠ .socket then pure (.error .ENOTSOCK)
    else
      match args with
      | some e => pure (.error e)
      | none => do
        match ← vfsOpen w (O_CREAT + O_EXCL) with
        | .error e => pure (.error (if e = .EEXIST then .EADDRINUSE else e))
        | .ok addrFile =>
          match rc with
          | some e => do
            let _ ← fileClose addrFile
            pure (.error e)
          | none => pure (.ok 0)

def sysAccept4 (i : Nat) (sockfd : Int) (args rc : Option Errno) (memory : Bool) : Call (Except Errno Nat) := do
  match ← taskGetFile i sockfd with
  | .error e => pure (.error e)
  | .ok f =>
    match args with
    | some e => pure (.error e)
    | none => do
      let file ← useFile f
      if file.type ≠ .socket then pure (.error .ENOTSOCK)
      else
        match rc with
        | some e => pure (.error (if e = .EINTR then .ERESTARTSYS else e))
        | none => do
          match ← inodeOpen ⟨.socket, memory, none, none⟩ O_RDWR with
          | .error e => pure (.error e)
          | .ok connector => installFile i connector

def sysConnect (i : Nat) (sockfd : Int) (args : Option Errno) (w : Walk) (rc : Option Errno) :
    Call (Except Errno Nat) := do
  match ← taskGetFile i sockfd with
  | .error e => pure (.error e)
  | .ok f =>
    match args with
    | some e => pure (.error e)
    | none => do
      match ← vfsOpen w 0 with
      | .error e => pure (.error e)
      | .ok _ => do
        let file ← useFile f
        if file.type ≠ .socket then pure (.error .ENOTSOCK)
        else
          match rc with
          | some e => pure (.error (if e = .EINTR then .ERESTARTSYS else e))
          | none => pure (.ok 0)

def sysSymlink (args : Option Errno) (w : Walk) (rc : Option Errno) : Call (Except Errno Nat) :=
  match args with
  | some e => pure (.error e)
  | none => do
    match ← vfsOpen w (O_CREAT + O_EXCL + O_WRONLY) with
    | .error e => pure (.error e)
    | .ok f => do
      let _ ← useFile f
      match rc with
      | some e => pure (.error e)
      | none => pure (.ok 0)

def sysTruncate (args : Option Errno) (w : Walk) (rc : Option Errno) : Call (Except Errno Nat) :=
  match args with
  | some e => pure (.error e)
  | none => do
    match ← vfsOpen w O_WRONLY with
    | .error e => pure (.error e)
    | .ok f => do
      let _ ← useFile f
      let _ ← fileClose f
      match rc with
      | some e => pure (.error e)
      | none => pure (.ok 0)

def sysReadlink (args : Option Errno) (w : Walk) (rc : Except Errno Nat) (copied : Bool) :
    Call (Except Errno Nat) :=
  match args with
  | some e => pure (.error e)
  | none => do
    match ← vfsResolve w with
    | .error e => pure (.error e)
    | .ok x =>
      if x.type ≠ .symlink then pure (.error .EINVAL)
      else do
        match ← inodeOpen x O_RDONLY with
        | .error e => pure (.error e)
        | .ok f => do
          let _ ← useFile f
          let _ ← fileClose f
          match rc with
          | .error e => pure (.error e)
          | .ok nread => if copied then pure (.ok nread) else pure (.error .EFAULT)

/-! ## Tables -/

def newTable (entries : Nat → Option Nat) : Call Nat := fun s =>
  .ok (s.numTables, { s.setTable s.numTables ⟨1, entries⟩ with numTables := s.numTables + 1 })

def filesClone (i : Nat) (memory : Bool) : Call (Except Errno Nat) := do
  let s ← get
  if memory = false then pure (.error .ENOMEM)
  else do
    let k ← newTable (s.table i).entries
    forUp (fun j =>
      match (s.table i).entries j with
      | some f => fileRef f
      | none => pure ()) OPEN_MAX 0
    pure (.ok k)

def filesRef (i : Nat) : Call Unit := modify fun s =>
  s.setTable i { s.table i with refCount := (s.table i).refCount + 1 }

def closeEntry (i j : Nat) : Call Unit := do
  let s ← get
  match (s.table i).entries j with
  | some f => do
    let _ ← fileClose f
    modify (·.setEntry i j none)
  | none => pure ()

def filesUnref (i : Nat) : Call Unit := do
  let s ← get
  ensure (0 < (s.table i).refCount) .assertion
  modify (·.setTable i { s.table i with refCount := (s.table i).refCount - 1 })
  if (s.table i).refCount - 1 > 0 then pure () else forUp (closeEntry i) OPEN_MAX 0

def registerTask (i : Nat) : Call (Except Errno Nat) := fun s =>
  .ok (.ok s.numTasks,
    { s with task := update s.task s.numTasks (some i), numTasks := s.numTasks + 1 })

def cloneWith (k : Nat) (after : Option Errno) : Call (Except Errno Nat) :=
  match after with
  | some e => do
    filesUnref k
    pure (.error e)
  | none => registerTask k

def sysClone (i : Nat) (shared : Bool) (before : Option Errno) (memory : Bool) (after : Option Errno) :
    Call (Except Errno Nat) :=
  match before with
  | some e => pure (.error e)
  | none =>
    if shared then do
      filesRef i
      cloneWith i after
    else do
      match ← filesClone i memory with
      | .error e => pure (.error e)
      | .ok k => cloneWith k after

def exitTask (t i : Nat) : Call (Except Errno Nat) := do
  filesUnref i
  modify fun s => { s with task := update s.task t none }
  pure (.ok 0)

/-! ## Runs -/

inductive Op
  | open (args : Option Errno) (flags : Nat) (w : Walk)
  | creat (args : Option Errno) (w : Walk)
  | close (fd : Int)
  | dup (oldfd : Int)
  | dup2 (oldfd newfd : Int)
  | dup3 (oldfd newfd : Int)
  | fcntl (fd cmd : Int) (arg : Nat)
  | pipe (fifo : Option Errno) (memory : Bool × Bool) (copied : Bool)
  | socket (supported : Bool) (create : Option Errno) (memory : Bool)
  | bind (sockfd : Int) (args : Option Errno) (w : Walk) (rc : Option Errno)
  | accept (sockfd : Int) (args rc : Option Errno) (memory : Bool)
  | connect (sockfd : Int) (args : Option Errno) (w : Walk) (rc : Option Errno)
  | symlink (args : Option Errno) (w : Walk) (rc : Option Errno)
  | truncate (args : Option Errno) (w : Walk) (rc : Option Errno)
  | readlink (args : Option Errno) (w : Walk) (rc : Except Errno Nat) (copied : Bool)
  | clone (shared : Bool) (before : Option Errno) (memory : Bool) (after : Option Errno)
  | exit

def Op.exec (t i : Nat) : Op → Call (Except Errno Nat)
  | .open args flags w => sysOpen i args flags w
  | .creat args w => sysCreat i args w
  | .close fd => sysClose i fd
  | .dup oldfd => sysDup i oldfd
  | .dup2 oldfd newfd => sysDup2 i oldfd newfd
  | .dup3 oldfd newfd => sysDup3 i oldfd newfd
  | .fcntl fd cmd arg => sysFcntl i fd cmd arg
  | .pipe fifo memory copied => sysPipe2 i fifo memory copied
  | .socket supported create memory => sysSocket i supported create memory
  | .bind sockfd args w rc => sysBind i sockfd args w rc
  | .accept sockfd args rc memory => sysAccept4 i sockfd args rc memory
  | .connect sockfd args w rc => sysConnect i sockfd args w rc
  | .symlink args w rc => sysSymlink args w rc
  | .truncate args w rc => sysTruncate args w rc
  | .readlink args w rc copied => sysReadlink args w rc copied
  | .clone shared before memory after => sysClone i shared before memory after
  | .exit => exitTask t i

def Step (s : Fds) (e : Nat × Op) (s' : Fds) : Prop :=
  ∃ i r, s.task e.1 = some i ∧ e.2.exec e.1 i s = .ok (r, s')

def boot (console : Bool) : Fds where
  file _ := ⟨1, O_RDWR, .device, 0, false⟩
  numFiles := if console then 1 else 0
  table _ := ⟨1, fun _ => none⟩
  numTables := 1
  task t := if t = 0 then some 0 else none
  numTasks := 1
  console := if console then some 0 else none

end Fds

end Yagura
