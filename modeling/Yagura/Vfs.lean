import Yagura.Fds
import Yagura.Getdents

/-!
# Inodes, paths and the calls on the name space

`fs.c`, `dentry.c`, `path.c`, `vfs.c`, `tmpfs.c`, the directories of procfs and
the system calls of `syscall/fs.c` that work on pathnames, one call at a time.
Every `kmalloc` asks the state whether it succeeds, so a call can run out of
memory at each of them. References that the source never gives back are noted
in `lost`; nothing reads it.
-/

namespace Yagura

open Getdents (FileType)

/-! ## Strings -/

abbrev Str := List UInt8

def PATH_SEPARATOR : UInt8 := 47

def dot : Str := [46]

def dotdot : Str := [46, 46]

def SYMLINK_MAX : Nat := 255

def SYMLOOP_MAX : Nat := 8

structure Token where
  component : Str
  saved : Option Str
  deriving DecidableEq

def strtokR (str : Str) : Option Token :=
  let str := str.dropWhile (· == PATH_SEPARATOR)
  if str = [] then none
  else
    some ⟨str.takeWhile (· != PATH_SEPARATOR),
      match str.dropWhile (· != PATH_SEPARATOR) with
      | [] => none
      | _ :: r => some r⟩

/-- What the loop `strtok_r(…), strtok_r(NULL, …), …` goes through; `fuel` bounds the number of tokens. -/
def tokensIn : (fuel : Nat) → Option Str → List Token
  | 0, _ | _, none => []
  | k + 1, some str =>
    match strtokR str with
    | none => []
    | some t => t :: tokensIn k t.saved

def tokens (pathname : Str) : List Token := tokensIn (pathname.length + 1) (some pathname)

def Token.hasMoreComponents (t : Token) : Bool :=
  match t.saved with
  | none => false
  | some r => r.any (· != PATH_SEPARATOR)

def Token.restPathname (t : Token) : Str :=
  match t.saved with
  | none | some [] => dot
  | some r => r

def isAbsolutePath (pathname : Str) : Bool := pathname.head? == some PATH_SEPARATOR

def cstr (bytes : Str) : Str := bytes.takeWhile (· != 0)

def strIsUint (name : Str) : Bool := name.all fun c => 48 ≤ c && c ≤ 57

def atoi (name : Str) : Nat := name.foldl (fun n c => (n * 10 + (c.toNat - 48)) % 2 ^ 32) 0

/-! ## Flags -/

def O_NOFOLLOW_NOERROR : Nat := 8192
def O_ALLOW_NOENT : Nat := 16384
def O_NOFOLLOW : Nat := 131072

def creates (flags : Nat) : Bool := flags &&& O_CREAT != 0

def exclusive (flags : Nat) : Bool := flags &&& O_EXCL != 0

def noFollowNoError (flags : Nat) : Bool := flags &&& O_NOFOLLOW_NOERROR != 0

def allowNoent (flags : Nat) : Bool := flags &&& O_ALLOW_NOENT != 0

def noFollow (flags : Nat) : Bool := flags &&& O_NOFOLLOW != 0

/-! ## The state -/

inductive Fops
  | tmpfsDir | tmpfsNode | procRoot | procDir | procItem | fifo | device
  deriving DecidableEq

/-- `children` are the dentries; `content` is the `vec` of tmpfs. -/
structure Inode where
  fops : Fops
  type : FileType
  dev : Nat
  rdev : Nat
  fifo : Option Nat
  numLinks : Nat
  children : List (Str × Nat)
  content : Str
  freed : Bool

def Inode.held (x : Inode) : List Nat := x.fifo.toList ++ x.children.map Prod.snd

/-- What goes with an inode, dentries with their links: its FIFO first. -/
def Inode.dues (x : Inode) : List (Nat × Bool) := x.fifo.toList.map (·, false) ++ x.children.map fun c => (c.2, true)

/-- `struct path`: the inode of the root node and the other nodes, last first. -/
structure Path where
  top : Nat
  nodes : List (Str × Option Nat)
  deriving DecidableEq

def Path.inode (p : Path) : Option Nat :=
  match p.nodes with
  | [] => some p.top
  | n :: _ => n.2

/-- Inodes are numbered as they are made. `mem n` tells whether the `n`-th next `kmalloc` succeeds,
`tasks` which tasks there are, `populate` and `fifoOpen` what a procfs file and a FIFO do when opened. -/
structure Vfs where
  inode : Nat → Inode
  refCount : Nat → Nat
  lost : Nat → Nat
  numInodes : Nat
  root : Nat
  mounts : List (Nat × Nat)
  devices : List Nat
  files : List Nat
  cwds : List Path
  nextDev : Nat
  mem : Nat → Bool
  tasks : Nat → Bool
  populate : Nat → Except Errno Str
  fifoOpen : Option Errno

inductive VfsTrap
  | assert
  | freed
  | hang
  deriving DecidableEq

namespace Vfs

open Prog

abbrev Op := Prog Vfs VfsTrap

def setInode (s : Vfs) (i : Nat) (x : Inode) : Vfs := { s with inode := Function.update s.inode i x }

def setRef (s : Vfs) (i n : Nat) : Vfs := { s with refCount := Function.update s.refCount i n }

/-- A reference that the source keeps for good. -/
def lose (s : Vfs) (i : Nat) : Vfs := { s with lost := Function.update s.lost i (s.lost i + 1) }

def kmalloc : Op Bool := fun s => .ok (s.mem 0, { s with mem := fun n => s.mem (n + 1) })

def useInode (i : Nat) : Op Inode := look fun s => if (s.inode i).freed then .error .freed else .ok (s.inode i)

def forget (i : Nat) : Op Unit := modify (·.lose i)

def newInode (x : Inode) : Op Nat := fun s =>
  .ok (s.numInodes, { (s.setInode s.numInodes x).setRef s.numInodes 1 with numInodes := s.numInodes + 1 })

/-! ## References -/

def inodeRef (i : Nat) : Op Unit := do
  let _ ← useInode i
  modify fun s => s.setRef i (s.refCount i + 1)

def size (s : Vfs) : Nat := tally s.numInodes s.inode fun x => x.held.length

def dropLink (i : Nat) : Bool → Op Unit
  | false => pure ()
  | true => do
    let x ← useInode i
    ensure (0 < x.numLinks) .assert
    modify (·.setInode i { x with numLinks := x.numLinks - 1 })

def inodeDestroy (i : Nat) (x : Inode) : Op (List (Nat × Bool)) := do
  ensure (x.fops ≠ .device) .assert
  modify (·.setInode i { x with fifo := none, children := [], freed := true })
  pure x.dues

/-- `inode_unref`, for the inode of a dentry after `--num_links`; returns what is to be released next. -/
def dropOne (i : Nat) (entry : Bool) : Op (List (Nat × Bool)) := do
  dropLink i entry
  let x ← useInode i
  let s ← get
  ensure (0 < s.refCount i) .assert
  modify (·.setRef i (s.refCount i - 1))
  if s.refCount i - 1 = 0 ∧ x.numLinks = 0 then inodeDestroy i x else pure []

/-- What is released first comes first, with all that it takes along. -/
def release : (fuel : Nat) → List (Nat × Bool) → Op Unit
  | _, [] => pure ()
  | 0, _ :: _ => trap .hang
  | k + 1, (i, entry) :: rest => do
    let more ← dropOne i entry
    release k (more ++ rest)

def inodeUnref (i : Nat) : Op Unit := fun s => release (s.size + 1) [(i, false)] s

def inodeUnrefOpt : Option Nat → Op Unit
  | none => pure ()
  | some i => inodeUnref i

/-! ## Paths -/

def allocBoth : Op Bool := do
  if ← kmalloc then kmalloc else pure false

def pathDupNodes (top : Nat) : List (Str × Option Nat) → Op (Except Errno Path)
  | [] => do
    if ← kmalloc then
      inodeRef top
      pure (.ok ⟨top, []⟩)
    else pure (.error .ENOMEM)
  | (_, none) :: _ => trap .assert
  | (basename, some i) :: parent => do
    if ← allocBoth then
      match ← pathDupNodes top parent with
      -- `new_path->parent` is read after `kfree(new_path)`
      | .error _ => trap .freed
      | .ok p =>
        inodeRef i
        pure (.ok ⟨p.top, (basename, some i) :: p.nodes⟩)
    else pure (.error .ENOMEM)

def pathDup (p : Path) : Op (Except Errno Path) := pathDupNodes p.top p.nodes

def pathJoin (parent : Path) (inode : Option Nat) (basename : Str) : Op (Except Errno Path) := do
  if ← allocBoth then pure (.ok ⟨parent.top, (basename, inode) :: parent.nodes⟩)
  else
    inodeUnrefOpt inode
    pure (.error .ENOMEM)

def pathDestroyNodes (top : Nat) : List (Str × Option Nat) → Op Unit
  | [] => inodeUnref top
  | n :: ns => do
    inodeUnrefOpt n.2
    pathDestroyNodes top ns

def pathDestroyRecursive (p : Path) : Op Unit := pathDestroyNodes p.top p.nodes

def pathIntoInode (p : Path) : Op (Option Nat) :=
  match p.nodes with
  | [] => pure (some p.top)
  | n :: ns => do
    pathDestroyNodes p.top ns
    pure n.2

def pathInode (p : Path) : Op Nat :=
  match p.inode with
  | none => trap .assert
  | some i => pure i

def failPath (p : Path) (e : Errno) : Op (Except Errno Path) := do
  pathDestroyRecursive p
  pure (.error e)

/-! ## Dentries -/

def dentryFind (children : List (Str × Nat)) (name : Str) : Op (Except Errno Nat) :=
  match children.lookup name with
  | none => pure (.error .ENOENT)
  | some i => do
    inodeRef i
    pure (.ok i)

def dentryAppend (d : Nat) (name : Str) (child : Nat) : Op (Except Errno Unit) := do
  let x ← useInode d
  if (x.children.lookup name).isSome then
    inodeUnref child
    pure (.error .EEXIST)
  else if ← allocBoth then
    modify fun s => s.setInode d { s.inode d with children := (s.inode d).children ++ [(name, child)] }
    let c ← useInode child
    modify (·.setInode child { c with numLinks := c.numLinks + 1 })
    pure (.ok ())
  else
    inodeUnref child
    pure (.error .ENOMEM)

def dentryRemove (d : Nat) (name : Str) : Op (Except Errno Nat) := do
  let x ← useInode d
  match x.children.lookup name with
  | none => pure (.error .ENOENT)
  | some i =>
    modify (·.setInode d { x with children := x.children.eraseP (·.1 == name) })
    let c ← useInode i
    ensure (0 < c.numLinks) .assert
    modify (·.setInode i { c with numLinks := c.numLinks - 1 })
    pure (.ok i)

/-! ## procfs -/

def ascii (cs : List Char) : Str := cs.map fun c => UInt8.ofNat c.toNat

def rootItems : List (Str × FileType) :=
  [(ascii ['c', 'm', 'd', 'l', 'i', 'n', 'e'], .reg), (ascii ['c', 'p', 'u', 'i', 'n', 'f', 'o'], .reg),
    (ascii ['f', 'i', 'l', 'e', 's', 'y', 's', 't', 'e', 'm', 's'], .reg),
    (ascii ['k', 'a', 'l', 'l', 's', 'y', 'm', 's'], .reg), (ascii ['m', 'e', 'm', 'i', 'n', 'f', 'o'], .reg),
    (ascii ['s', 'e', 'l', 'f'], .lnk), (ascii ['u', 'p', 't', 'i', 'm', 'e'], .reg),
    (ascii ['v', 'e', 'r', 's', 'i', 'o', 'n'], .reg)]

def pidItems : List (Str × FileType) :=
  [(ascii ['c', 'm', 'd', 'l', 'i', 'n', 'e'], .reg), (ascii ['c', 'o', 'm', 'm'], .reg), (ascii ['c', 'w', 'd'], .lnk),
    (ascii ['e', 'n', 'v', 'i', 'r', 'o', 'n'], .reg), (ascii ['m', 'a', 'p', 's'], .reg)]

def addItem (parent dev : Nat) (item : Str × FileType) : Op (Except Errno Unit) := do
  if ← kmalloc then
    let i ← newInode ⟨.procItem, item.2, dev, 0, none, 0, [], [], false⟩
    let rc ← dentryAppend parent item.1 i
    inodeUnref parent
    pure rc
  else
    inodeUnref parent
    pure (.error .ENOMEM)

def addItems (dir dev : Nat) : List (Str × FileType) → Op (Except Errno Unit)
  | [] => pure (.ok ())
  | item :: items => do
    inodeRef dir
    match ← addItem dir dev item with
    | .error e => pure (.error e)
    | .ok () => addItems dir dev items

/-- A directory with its items. If an item cannot be made, the directory is not given back. -/
def newProcDir (fops : Fops) (dev : Nat) (items : List (Str × FileType)) : Op (Except Errno Nat) := do
  let i ← newInode ⟨fops, .dir, dev, 0, none, 0, [], [], false⟩
  match ← addItems i dev items with
  | .error e =>
    forget i
    pure (.error e)
  | .ok () => pure (.ok i)

def failLost (i : Nat) (e : Errno) : Op (Except Errno Nat) := do
  forget i
  pure (.error e)

/-- The reference to `parent` is given back only on success. -/
def procPidDirInodeCreate (parent pid : Nat) : Op (Except Errno Nat) := do
  let x ← useInode parent
  let s ← get
  if s.tasks pid then
    if ← kmalloc then
      match ← newProcDir .procDir x.dev pidItems with
      | .error e => failLost parent e
      | .ok i =>
        inodeUnref parent
        pure (.ok i)
    else failLost parent .ENOMEM
  else failLost parent .ENOENT

/-! ## Operations of inodes -/

def lookupDentry (d : Nat) (name : Str) : Op (Except Errno Nat) := do
  let x ← useInode d
  let r ← dentryFind x.children name
  inodeUnref d
  pure r

def inodeLookupChild (d : Nat) (name : Str) : Op (Except Errno Nat) := do
  let x ← useInode d
  match x.fops with
  | .tmpfsDir | .procDir => lookupDentry d name
  | .procRoot => if strIsUint name then procPidDirInodeCreate d (atoi name) else lookupDentry d name
  | .tmpfsNode | .procItem | .fifo | .device => do
    inodeUnref d
    pure (.error .ENOTDIR)

def tmpfsLinkChild (d : Nat) (name : Str) (child : Nat) : Op (Except Errno Unit) := do
  let rc ← dentryAppend d name child
  inodeUnref d
  pure rc

def tmpfsInode (type : FileType) (dev : Nat) : Inode :=
  ⟨if type = .dir then .tmpfsDir else .tmpfsNode, type, dev, 0, none, 0, [], [], false⟩

/-- Without memory for the inode the reference to the directory is not given back. -/
def tmpfsCreateChild (d : Nat) (name : Str) (type : FileType) : Op (Except Errno Nat) := do
  let x ← useInode d
  if ← kmalloc then
    let i ← newInode (tmpfsInode type x.dev)
    inodeRef i
    match ← tmpfsLinkChild d name i with
    | .error e =>
      inodeUnref i
      pure (.error e)
    | .ok () => pure (.ok i)
  else failLost d .ENOMEM

def inodeCreateChild (d : Nat) (name : Str) (type : FileType) : Op (Except Errno Nat) := do
  let x ← useInode d
  if x.fops = .tmpfsDir then tmpfsCreateChild d name type
  else
    inodeUnref d
    pure (.error .ENOTDIR)

def inodeLinkChild (d : Nat) (name : Str) (child : Nat) : Op (Except Errno Unit) := do
  let x ← useInode d
  let c ← useInode child
  if x.fops ≠ .tmpfsDir then
    inodeUnref d
    inodeUnref child
    pure (.error .ENOTDIR)
  else if x.dev ≠ c.dev then
    inodeUnref d
    inodeUnref child
    pure (.error .EXDEV)
  else tmpfsLinkChild d name child

def tmpfsUnlinkChild (d : Nat) (name : Str) : Op (Except Errno Nat) := do
  let r ← dentryRemove d name
  inodeUnref d
  pure r

def inodeUnlinkChild (d : Nat) (name : Str) : Op (Except Errno Unit) := do
  let x ← useInode d
  if x.fops = .tmpfsDir then
    match ← tmpfsUnlinkChild d name with
    | .error e => pure (.error e)
    | .ok i =>
      inodeUnref i
      pure (.ok ())
  else
    inodeUnref d
    pure (.error .ENOTDIR)

/-! ## Open files -/

def procItemOpen (i : Nat) : Op (Option Errno) := do
  if ← kmalloc then
    let s ← get
    match s.populate i with
    | .error e => pure (some e)
    | .ok _ => pure none
  else pure (some .ENOMEM)

def fopsOpen (i : Nat) : Fops → Op (Option Errno)
  | .procItem => procItemOpen i
  | .fifo => do
    let s ← get
    pure s.fifoOpen
  | .tmpfsDir | .tmpfsNode | .procRoot | .procDir | .device => pure none

/-- A file on a directory is not closed again if `O_TRUNC` is refused. -/
def openTrunc (i flags : Nat) (x : Inode) : Op (Except Errno Nat) :=
  if truncates flags then
    if x.type = .dir then failLost i .EISDIR
    else if x.fops = .tmpfsNode then do
      modify fun s => s.setInode i { s.inode i with content := [] }
      pure (.ok i)
    else pure (.ok i)
  else pure (.ok i)

def failInode (i : Nat) (e : Errno) : Op (Except Errno Nat) := do
  inodeUnref i
  pure (.error e)

/-- The file has the reference to the inode, by which it goes here. -/
def inodeOpen (i flags : Nat) : Op (Except Errno Nat) := do
  let x ← useInode i
  if accmode flags = 3 then failInode i .EINVAL
  else if accmode flags ≠ O_RDONLY ∧ x.type = .dir then failInode i .EISDIR
  else do
    if ← kmalloc then
      match ← fopsOpen i x.fops with
      | some e => failInode i e
      | none => openTrunc i flags x
    else failInode i .ENOMEM

def fileContent (i : Nat) : Op (Except Errno Str) := do
  let x ← useInode i
  match x.fops with
  | .tmpfsNode => pure (.ok x.content)
  | .procItem => do
    let s ← get
    pure (s.populate i)
  | .tmpfsDir | .procRoot | .procDir | .fifo | .device => pure (.error .EINVAL)

/-! ## Path resolution -/

def mountGuest (s : Vfs) (i : Nat) : Option Nat := s.mounts.lookup i

def mountTop (s : Vfs) : (fuel : Nat) → Nat → Option Nat
  | 0, _ => none
  | k + 1, i =>
    match s.mountGuest i with
    | none => some i
    | some g => mountTop s k g

/-- A reference to the guest is taken, the one to the host is not given back. -/
def resolveMounts (host : Nat) : Op Nat := do
  let s ← get
  match s.mountTop (s.numInodes + 1) host with
  | none => trap .hang
  | some needle =>
    if needle ≠ host then
      inodeRef needle
      forget host
      pure needle
    else pure host

def vfsGetRoot : Op (Except Errno Path) := do
  if ← kmalloc then
    let s ← get
    inodeRef s.root
    pure (.ok ⟨s.root, []⟩)
  else pure (.error .ENOMEM)

abbrev Resolver := Path → Str → Op (Except Errno Path)

def followSymlink (resolve : Resolver) (parent : Path) (i : Nat) (rest : Str) : Op (Except Errno Path) := do
  let x ← useInode i
  ensure (x.type = .lnk) .assert
  match ← inodeOpen i O_RDONLY with
  | .error e => pure (.error e)
  | .ok file =>
    let content ← fileContent file
    inodeUnref file
    match content with
    | .error e => pure (.error e)
    | .ok text =>
      if ← kmalloc then resolve parent (cstr (text.take SYMLINK_MAX ++ PATH_SEPARATOR :: rest))
      else pure (.error .ENOMEM)

def stepMissing (flags : Nat) (p : Path) (t : Token) (e : Errno) : Op (Except Errno Path) :=
  if allowNoent flags ∧ e = .ENOENT then
    if t.hasMoreComponents then failPath p .ENOENT
    else do
      match ← pathJoin p none t.component with
      | .error e => failPath p e
      | .ok q => pure (.ok q)
  else failPath p e

def stepJoin (p : Path) (t : Token) (i : Nat) (next : Path → Op (Except Errno Path)) : Op (Except Errno Path) := do
  match ← pathJoin p (some i) t.component with
  | .error e => failPath p e
  | .ok q => next q

def failBoth (i : Nat) (p : Path) (e : Errno) : Op (Except Errno Path) := do
  inodeUnref i
  failPath p e

def stepFound (follow : Option Resolver) (flags : Nat) (p : Path) (t : Token) (i : Nat)
    (next : Path → Op (Except Errno Path)) : Op (Except Errno Path) := do
  let x ← useInode i
  if x.type = .lnk then
    match follow with
    | none => failBoth i p .ELOOP
    | some resolve =>
      if t.hasMoreComponents || !noFollow flags then
        let dest ← followSymlink resolve p i t.restPathname
        pathDestroyRecursive p
        pure dest
      else if !noFollowNoError flags then failBoth i p .ELOOP
      else stepJoin p t i next
  else stepJoin p t i next

def stepLookup (follow : Option Resolver) (flags : Nat) (p : Path) (t : Token)
    (next : Path → Op (Except Errno Path)) : Op (Except Errno Path) := do
  let d ← pathInode p
  inodeRef d
  match ← inodeLookupChild d t.component with
  | .error e => stepMissing flags p t e
  | .ok i =>
    let i ← resolveMounts i
    stepFound follow flags p t i next

def resolveTokens (follow : Option Resolver) (flags : Nat) : List Token → Path → Op (Except Errno Path)
  | [], p => pure (.ok p)
  | t :: ts, p =>
    if t.component = dot then resolveTokens follow flags ts p
    else if t.component = dotdot then
      match p.nodes with
      | [] => resolveTokens follow flags ts p
      | n :: ns => do
        inodeUnrefOpt n.2
        resolveTokens follow flags ts ⟨p.top, ns⟩
    else stepLookup follow flags p t (resolveTokens follow flags ts)

def startPath (base : Path) (pathname : Str) : Op (Except Errno Path) :=
  if isAbsolutePath pathname then vfsGetRoot else pathDup base

def resolveFrom (follow : Option Resolver) (flags : Nat) (base : Path) (pathname : Str) : Op (Except Errno Path) := do
  match ← startPath base pathname with
  | .error e => pure (.error e)
  | .ok p =>
    if ← kmalloc then resolveTokens follow flags (tokens pathname) p else failPath p .ENOMEM

/-- `resolve_path_at` with `symlink_depth` as far from its limit as `fuel` says. -/
def resolvePathAt (flags : Nat) : (fuel : Nat) → Resolver
  | 0 => resolveFrom none flags
  | k + 1 => resolveFrom (some (resolvePathAt flags k)) flags

def vfsResolvePathAt (base : Path) (pathname : Str) (flags : Nat) : Op (Except Errno Path) :=
  resolvePathAt flags (SYMLOOP_MAX + 1) base pathname

/-! ## Opening and creating -/

def findDevice (s : Vfs) (x : Inode) : Option Nat :=
  s.devices.find? fun i => (s.inode i).type = x.type ∧ (s.inode i).rdev = x.rdev

def fifoCreate (dev : Nat) : Op (Except Errno Nat) := do
  if ← allocBoth then
    let i ← newInode ⟨.fifo, .fifo, dev, 0, none, 0, [], [], false⟩
    pure (.ok i)
  else pure (.error .ENOMEM)

/-- The reference to the inode is not given back if the FIFO cannot be made. -/
def openFifo (i : Nat) (x : Inode) : Op (Except Errno Nat) :=
  match x.fifo with
  | some f => do
    inodeRef f
    inodeUnref i
    pure (.ok f)
  | none => do
    match ← fifoCreate x.dev with
    | .error e => failLost i e
    | .ok f =>
      inodeRef f
      modify fun s => s.setInode i { s.inode i with fifo := some f }
      inodeUnref i
      pure (.ok f)

def resolveSpecialFile (i : Nat) : Op (Except Errno Nat) := do
  let x ← useInode i
  let s ← get
  match x.type with
  | .blk | .chr =>
    match s.findDevice x with
    | none => failInode i .ENODEV
    | some d => do
      inodeRef d
      inodeUnref i
      pure (.ok d)
  | .fifo => openFifo i x
  | .dir | .reg | .lnk | .sock => pure (.ok i)

/-- `create_at` once the path is known to lead to no inode. With one task at a time the child cannot have
been made by another one. -/
def createLast (p : Path) (type : FileType) : Op (Except Errno Path) :=
  match p.nodes with
  | [] => trap .assert
  | (basename, _) :: ns => do
    let d ← pathInode ⟨p.top, ns⟩
    inodeRef d
    match ← inodeCreateChild d basename type with
    | .error e => failPath p e
    | .ok i => pure (.ok ⟨p.top, (basename, some i) :: ns⟩)

def createAt (base : Path) (pathname : Str) (type : FileType) (excl : Bool) : Op (Except Errno Path) := do
  match ← vfsResolvePathAt base pathname O_ALLOW_NOENT with
  | .error e => pure (.error e)
  | .ok p =>
    match p.inode with
    | some _ => if excl then failPath p .EEXIST else pure (.ok p)
    | none => createLast p type

def openPath (p : Path) (flags : Nat) : Op (Except Errno Nat) := do
  match ← pathIntoInode p with
  | none => trap .assert
  | some i =>
    match ← resolveSpecialFile i with
    | .error e => pure (.error e)
    | .ok j => inodeOpen j flags

def pathToOpen (base : Path) (pathname : Str) (flags : Nat) (type : FileType) : Op (Except Errno Path) :=
  if creates flags then createAt base pathname type (exclusive flags) else vfsResolvePathAt base pathname flags

def vfsOpenAt (base : Path) (pathname : Str) (flags : Nat) (type : FileType) : Op (Except Errno Nat) := do
  match ← pathToOpen base pathname flags type with
  | .error e => pure (.error e)
  | .ok p => openPath p flags

def vfsCreateAt (base : Path) (pathname : Str) (type : FileType) : Op (Except Errno Nat) := do
  match ← createAt base pathname type true with
  | .error e => pure (.error e)
  | .ok p =>
    match ← pathIntoInode p with
    | none => trap .assert
    | some i => pure (.ok i)

/-! ## System calls

A pathname is what `copy_pathname_from_user` makes of it; `base` is the working directory of the caller. -/

abbrev Arg := Except Errno Str

def sysMkdir (base : Path) : Arg → Op (Except Errno Unit)
  | .error e => pure (.error e)
  | .ok pathname => do
    match ← vfsCreateAt base pathname .dir with
    | .error e => pure (.error e)
    | .ok i =>
      inodeUnref i
      pure (.ok ())

def sysMknod (base : Path) (type : FileType) (rdev : Nat) : Arg → Op (Except Errno Unit)
  | .error e => pure (.error (if type = .dir ∨ type = .lnk then .EINVAL else e))
  | .ok pathname =>
    if type = .dir ∨ type = .lnk then pure (.error .EINVAL)
    else do
      match ← vfsCreateAt base pathname type with
      | .error e => pure (.error e)
      | .ok i =>
        modify fun s => s.setInode i { s.inode i with rdev := rdev }
        inodeUnref i
        pure (.ok ())

def installFile (i : Nat) (slot : Bool) : Op (Except Errno Unit) :=
  if slot then do
    modify fun s => { s with files := s.files ++ [i] }
    pure (.ok ())
  else do
    inodeUnref i
    pure (.error .EMFILE)

def sysOpen (base : Path) (flags : Nat) (slot : Bool) : Arg → Op (Except Errno Unit)
  | .error e => pure (.error e)
  | .ok pathname => do
    match ← vfsOpenAt base pathname flags .reg with
    | .error e => pure (.error (if e = .EINTR then .ERESTARTSYS else e))
    | .ok i => installFile i slot

def sysClose (k : Nat) : Op (Except Errno Unit) := do
  let s ← get
  match s.files[k]? with
  | none => pure (.error .EBADF)
  | some i =>
    modify fun s => { s with files := s.files.eraseIdx k }
    inodeUnref i
    pure (.ok ())

def sysWrite (k : Nat) (content : Str) : Op (Except Errno Unit) := do
  let s ← get
  match s.files[k]? with
  | none => pure (.error .EBADF)
  | some i =>
    if (s.inode i).fops = .tmpfsNode then
      modify fun s => s.setInode i { s.inode i with content := content }
      pure (.ok ())
    else pure (.error .EINVAL)

/-- The file is not closed. -/
def writeLink (i : Nat) (target : Str) : Op (Except Errno Unit) := do
  modify fun s => { s with files := s.files ++ [i] }
  if target = [] then pure (.ok ())
  else do
    if ← kmalloc then
      modify fun s => s.setInode i { s.inode i with content := target }
      pure (.ok ())
    else pure (.error .ENOMEM)

def sysSymlink (base : Path) : Arg → Arg → Op (Except Errno Unit)
  | .error e, _ => pure (.error e)
  | .ok target, linkpath =>
    if SYMLINK_MAX < target.length then pure (.error .ENAMETOOLONG)
    else
      match linkpath with
      | .error e => pure (.error e)
      | .ok linkpath => do
        match ← vfsOpenAt base linkpath (O_CREAT + O_EXCL + O_WRONLY) .lnk with
        | .error e => pure (.error e)
        | .ok i => writeLink i target

def failUnit (p : Path) (e : Errno) : Op (Except Errno Unit) := do
  pathDestroyRecursive p
  pure (.error e)

def done (newPath oldPath : Path) (rc : Except Errno Unit) : Op (Except Errno Unit) := do
  pathDestroyRecursive newPath
  pathDestroyRecursive oldPath
  pure rc

def linkAt (p : Path) (i : Nat) : Op (Except Errno Unit) :=
  match p.nodes with
  | [] => trap .assert
  | (basename, _) :: ns => do
    let d ← pathInode ⟨p.top, ns⟩
    inodeRef d
    inodeRef i
    inodeLinkChild d basename i

def unlinkAt (p : Path) : Op (Except Errno Unit) :=
  match p.nodes with
  | [] => trap .assert
  | (basename, _) :: ns => do
    let d ← pathInode ⟨p.top, ns⟩
    inodeRef d
    inodeUnlinkChild d basename

def linkPaths (newPath oldPath : Path) (i : Nat) : Op (Except Errno Unit) :=
  if newPath.inode.isSome then done newPath oldPath (.error .EEXIST)
  else if newPath.nodes = [] then done newPath oldPath (.error .EPERM)
  else do
    let rc ← linkAt newPath i
    done newPath oldPath rc

def sysLink (base : Path) : Arg → Arg → Op (Except Errno Unit)
  | .error e, _ | .ok _, .error e => pure (.error e)
  | .ok old, .ok new => do
    match ← vfsResolvePathAt base old 0 with
    | .error e => pure (.error e)
    | .ok oldPath =>
      let i ← pathInode oldPath
      let x ← useInode i
      if x.type = .dir then failUnit oldPath .EPERM
      else do
        match ← vfsResolvePathAt base new O_ALLOW_NOENT with
        | .error e => failUnit oldPath e
        | .ok newPath => linkPaths newPath oldPath i

def sysUnlink (base : Path) : Arg → Op (Except Errno Unit)
  | .error e => pure (.error e)
  | .ok pathname => do
    match ← vfsResolvePathAt base pathname 0 with
    | .error e => pure (.error e)
    | .ok p =>
      let i ← pathInode p
      let x ← useInode i
      if p.nodes = [] ∨ x.type = .dir then failUnit p .EPERM
      else
        let rc ← unlinkAt p
        pathDestroyRecursive p
        pure rc

/-- The reference to the inode is used up. `getdents` of `/proc` lists the tasks, too. -/
def ensureEmptyDirectory (i : Nat) : Op (Except Errno Unit) := do
  let x ← useInode i
  ensure (x.type = .dir) .assert
  match ← inodeOpen i O_RDONLY with
  | .error e => pure (.error e)
  | .ok file =>
    let x ← useInode file
    inodeUnref file
    if x.children ≠ [] ∨ x.fops = .procRoot then pure (.error .ENOTEMPTY) else pure (.ok ())

/-- The target, if there is one, goes before the new entry is made. -/
def replaceTarget (newPath : Path) (old : Inode) : Op (Except Errno Unit) := do
  let j ← pathInode newPath
  let y ← useInode j
  if y.type = .dir then
    if old.type ≠ .dir then pure (.error .EISDIR)
    else do
      inodeRef j
      match ← ensureEmptyDirectory j with
      | .error e => pure (.error e)
      | .ok () => unlinkAt newPath
  else unlinkAt newPath

def moveEntry (newPath oldPath : Path) (i : Nat) : Op (Except Errno Unit) := do
  match ← linkAt newPath i with
  | .error e => pure (.error e)
  | .ok () => unlinkAt oldPath

def renamePaths (newPath oldPath : Path) (i : Nat) : Op (Except Errno Unit) := do
  let x ← useInode i
  if newPath.nodes = [] then done newPath oldPath (.error .EPERM)
  else if newPath.inode = some i then done newPath oldPath (.ok ())
  else if newPath.inode.isSome then
    match ← replaceTarget newPath x with
    | .error e => done newPath oldPath (.error e)
    | .ok () =>
      let rc ← moveEntry newPath oldPath i
      done newPath oldPath rc
  else
    let rc ← moveEntry newPath oldPath i
    done newPath oldPath rc

def sysRename (base : Path) : Arg → Arg → Op (Except Errno Unit)
  | .error e, _ | .ok _, .error e => pure (.error e)
  | .ok old, .ok new => do
    match ← vfsResolvePathAt base old 0 with
    | .error e => pure (.error e)
    | .ok oldPath =>
      let i ← pathInode oldPath
      if oldPath.nodes = [] then failUnit oldPath .EPERM
      else do
        match ← vfsResolvePathAt base new O_ALLOW_NOENT with
        | .error e => failUnit oldPath e
        | .ok newPath => renamePaths newPath oldPath i

def sysRmdir (base : Path) : Arg → Op (Except Errno Unit)
  | .error e => pure (.error e)
  | .ok pathname => do
    match ← vfsResolvePathAt base pathname 0 with
    | .error e => pure (.error e)
    | .ok p =>
      let i ← pathInode p
      let x ← useInode i
      if p.nodes = [] then failUnit p .EPERM
      else if x.type ≠ .dir then failUnit p .ENOTDIR
      else do
        inodeRef i
        match ← ensureEmptyDirectory i with
        | .error e => failUnit p e
        | .ok () =>
          let rc ← unlinkAt p
          pathDestroyRecursive p
          pure rc

inductive FsType
  | tmpfs | proc
  deriving DecidableEq

def generateDev : Op Nat := fun s => .ok (s.nextDev, { s with nextDev := s.nextDev + 1 })

def mountFs (fs : FsType) : Op (Except Errno Nat) := do
  if ← kmalloc then
    let dev ← generateDev
    match fs with
    | .tmpfs => do
      let i ← newInode (tmpfsInode .dir dev)
      pure (.ok i)
    | .proc => newProcDir .procRoot dev rootItems
  else pure (.error .ENOMEM)

def mountAt (host guest : Nat) : Op (Except Errno Unit) := do
  let x ← useInode host
  if x.type ≠ .dir then
    inodeUnref host
    inodeUnref guest
    pure (.error .ENOTDIR)
  else if ← kmalloc then
    modify fun s => { s with mounts := (host, guest) :: s.mounts }
    pure (.ok ())
  else
    inodeUnref host
    inodeUnref guest
    pure (.error .ENOMEM)

def sysMount (base : Path) (fs : Option FsType) : Arg → Op (Except Errno Unit)
  | .error e => pure (.error e)
  | .ok target =>
    match fs with
    | none => pure (.error .ENODEV)
    | some fs => do
      match ← vfsResolvePathAt base target 0 with
      | .error e => pure (.error e)
      | .ok p =>
        match ← mountFs fs with
        | .error e => failUnit p e
        | .ok guest =>
          match ← pathIntoInode p with
          | none => trap .assert
          | some host => mountAt host guest

def sysChdir (t : Nat) (base : Path) : Arg → Op (Except Errno Unit)
  | .error e => pure (.error e)
  | .ok pathname => do
    match ← vfsResolvePathAt base pathname 0 with
    | .error e => pure (.error e)
    | .ok p =>
      let i ← pathInode p
      let x ← useInode i
      if x.type ≠ .dir then failUnit p .ENOTDIR
      else
        modify fun s => { s with cwds := s.cwds.set t p }
        pathDestroyRecursive base
        pure (.ok ())

/-! ## Runs -/

inductive Call
  | mkdir (path : Arg)
  | mknod (path : Arg) (type : FileType) (rdev : Nat)
  | open (path : Arg) (flags : Nat) (slot : Bool)
  | close (k : Nat)
  | write (k : Nat) (content : Str)
  | link (old new : Arg)
  | symlink (target path : Arg)
  | unlink (path : Arg)
  | rmdir (path : Arg)
  | rename (old new : Arg)
  | mount (target : Arg) (fs : Option FsType)
  | chdir (path : Arg)

def Call.exec (t : Nat) (base : Path) : Call → Op (Except Errno Unit)
  | .mkdir path => sysMkdir base path
  | .mknod path type rdev => sysMknod base type rdev path
  | .open path flags slot => sysOpen base flags slot path
  | .close k => sysClose k
  | .write k content => sysWrite k content
  | .link old new => sysLink base old new
  | .symlink target path => sysSymlink base target path
  | .unlink path => sysUnlink base path
  | .rmdir path => sysRmdir base path
  | .rename old new => sysRename base old new
  | .mount target fs => sysMount base fs target
  | .chdir path => sysChdir t base path

structure Env where
  mem : Nat → Bool
  tasks : Nat → Bool
  populate : Nat → Except Errno Str
  fifoOpen : Option Errno

def enter (s : Vfs) (env : Env) : Vfs :=
  { s with mem := env.mem, tasks := env.tasks, populate := env.populate, fifoOpen := env.fifoOpen }

structure Event where
  task : Nat
  env : Env
  call : Call

def Step (s : Vfs) (e : Event) (t : Vfs) : Prop :=
  ∃ base rc, s.cwds[e.task]? = some base ∧ e.call.exec e.task base (s.enter e.env) = .ok (rc, t)

def boot (n : Nat) (devices : List (FileType × Nat)) : Vfs where
  inode i :=
    if i = 0 then tmpfsInode .dir 1
    else
      match devices[i - 1]? with
      | some d => ⟨.device, d.1, 0, d.2, none, 0, [], [], false⟩
      | none => ⟨.device, .chr, 0, 0, none, 0, [], [], true⟩
  refCount i := if i = 0 then n + 1 else 1
  lost _ := 0
  numInodes := devices.length + 1
  root := 0
  mounts := []
  devices := (List.range devices.length).map (· + 1)
  files := []
  cwds := List.replicate n ⟨0, []⟩
  nextDev := 2
  mem _ := true
  tasks _ := false
  populate _ := .ok []
  fifoOpen := none

end Vfs

end Yagura
