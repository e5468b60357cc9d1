import Yagura.RingBuf
import Yagura.Tmpfs

/-!
# User buffers

`read`, `write`, `pread64`, `pwrite64`, `readv` and `writev` on every kind of
file. The system calls test that the buffer lies in the user half; the bytes
are copied by the operation of the file, straight to or from the pages of the
user. A page fault there is one of the kernel, since `safe_string.c` only
takes care of its own copies. Other threads of the process may change the page
tables between any two accesses. An operation that sleeps meets its file in a
state of its own each time it is woken; the list of these is given to it.
-/

namespace Yagura.UserIo

open Prog

/-! ## Memory -/

structure UserPage where
  frame : Nat
  write : Bool

abbrev UserPages := Nat → Option UserPage

def UserPages.locate (pages : UserPages) (write : Bool) (a : Nat) : Option Nat :=
  match pages (a / PAGE_SIZE) with
  | none => none
  | some p => if write && !p.write then none else some (p.frame * PAGE_SIZE + a % PAGE_SIZE)

structure UserMem where
  /-- The page tables at each access. -/
  pages : Nat → UserPages
  accesses : Nat
  byte : Nat → UInt8

inductive IoTrap
  | fault (a : Nat) (write : Bool)
  /-- `virt_to_phys` of a page that is not present. -/
  | assert (a : Nat)
  /-- A device is told to access a byte that the caller has not there, or may not write. -/
  | stray (a : Nat) (write : Bool)
  | kernel
  /-- Still in its loop after the rounds it was given. -/
  | unfinished
  deriving DecidableEq

def IoTrap.onBuffer : IoTrap → Prop
  | .fault _ _ | .assert _ | .stray _ _ => True
  | .kernel | .unfinished => False

abbrev IoProg := Prog UserMem IoTrap

abbrev IoResult := Except Errno Nat

/-- The page tables as they are now; before the next access they may have changed. -/
def tables : IoProg UserPages := do
  let s ← get
  modify fun s => { s with accesses := s.accesses + 1 }
  pure (s.pages s.accesses)

def load (a : Nat) : IoProg UInt8 := do
  match (← tables).locate false a with
  | none => trap (.fault a false)
  | some p =>
    let s ← get
    pure (s.byte p)

def store (a : Nat) (b : UInt8) : IoProg Unit := do
  match (← tables).locate true a with
  | none => trap (.fault a true)
  | some p => modify fun s => { s with byte := Function.update s.byte p b }

def copyOut (dest : Nat) (src : Nat → UInt8) (n : Nat) : IoProg Unit := forUp (fun i => store (dest + i) (src i)) n 0

/-- Reading `n` bytes of the user. What the kernel does with them is left out. -/
def copyIn (src n : Nat) : IoProg Unit := forUp (fun i => do let _ ← load (src + i)) n 0

/-- The rounds of a loop that sleeps at its top; `body` returns `none` to go round again. -/
def rounds {ρ : Type} (body : ρ → IoProg (Option IoResult)) : List ρ → IoProg IoResult
  | [] => trap .unfinished
  | r :: rs => do
    match ← body r with
    | some v => pure v
    | none => rounds body rs

/-! ## Regular files -/

def vecPread (v : Vec) (buf count offset : Nat) : IoProg IoResult := do
  if v.size ≤ offset then pure (.ok 0)
  else
    let count := if v.size ≤ (offset + count) % 2 ^ 64 then (v.size - offset) % 2 ^ 32 else count
    forUp (fun i => do
      ensure (offset % 2 ^ 32 + i < v.capacity) .kernel
      store (buf + i) (v.bytes (offset % 2 ^ 32 + i))) count 0
    pure (.ok count)

def vecPwrite (v : Vec) (mem : Realloc) (buf count offset : Nat) : IoProg IoResult :=
  match Vec.fitEnd mem ((offset + count) % 2 ^ 64) v with
  | .error _ => trap .kernel
  | .ok (.error e, _) => pure (.error e)
  | .ok (.ok (), w) => do
    forUp (fun i => do
      let _ ← load (buf + i)
      ensure (offset % 2 ^ 32 + i < w.capacity) .kernel) count 0
    pure (.ok count)

/-! ## Pipes and sockets -/

def ringBufRead (dest : Nat) : Nat → Nat → RingBuf UInt8 → IoProg Nat
  | 0, n, _ => pure n
  | count + 1, n, b => do
    store (dest + n) b.take.1
    if b.take.2.readIndex = b.take.2.writeIndex then pure (n + 1) else ringBufRead dest count (n + 1) b.take.2

def ringBufWrite (src : Nat) : Nat → Nat → RingBuf UInt8 → IoProg Nat
  | 0, n, _ => pure n
  | count + 1, n, b => do
    let x ← load (src + n)
    if ((b.put x).writeIndex + 1) % b.capacity = (b.put x).readIndex then pure (n + 1)
    else ringBufWrite src count (n + 1) (b.put x)

/-- A fifo after `file_block` returned `rc`; `sent` is the result of sending `SIGPIPE`. -/
structure FifoRound where
  rc : Option Errno
  buf : RingBuf UInt8
  numReaders : Nat
  numWriters : Nat
  sent : Option Errno

def fifoPread (rs : List FifoRound) (buf count : Nat) : IoProg IoResult :=
  rounds (fun r => do
    match r.rc with
    | some e => pure (some (.error e))
    | none =>
      if !r.buf.isEmpty then
        let n ← ringBufRead buf count 0 r.buf
        pure (some (.ok n))
      else if r.numWriters = 0 then pure (some (.ok 0))
      else pure none) rs

def fifoPwrite (rs : List FifoRound) (buf count : Nat) : IoProg IoResult :=
  rounds (fun r => do
    match r.rc with
    | some e => pure (some (.error e))
    | none =>
      if r.numReaders = 0 then pure (some (.error (r.sent.getD .EPIPE)))
      else if r.buf.isFull then pure none
      else
        let n ← ringBufWrite buf count 0 r.buf
        pure (some (.ok n))) rs

structure SocketRound where
  rc : Option Errno
  buf : RingBuf UInt8
  isOpenForWritingToConnector : Bool
  isOpenForWritingToAcceptor : Bool
  sent : Option Errno

def isOpenForReading (isConnector : Bool) (r : SocketRound) : Bool :=
  if isConnector then r.isOpenForWritingToConnector else r.isOpenForWritingToAcceptor

def unixSocketPread (isConnected isConnector : Bool) (rs : List SocketRound) (buf count : Nat) : IoProg IoResult :=
  if !isConnected then pure (.error .EINVAL)
  else rounds (fun r => do
    match r.rc with
    | some e => pure (some (.error e))
    | none =>
      if !r.buf.isEmpty then
        let n ← ringBufRead buf count 0 r.buf
        pure (some (.ok n))
      else if !isOpenForReading isConnector r then pure (some (.ok 0))
      else pure none) rs

def unixSocketPwrite (isConnected isConnector : Bool) (rs : List SocketRound) (buf count : Nat) : IoProg IoResult :=
  if !isConnected then pure (.error .ENOTCONN)
  else rounds (fun r => do
    match r.rc with
    | some e => pure (some (.error e))
    | none =>
      if !isConnector && !r.isOpenForWritingToConnector then pure (some (.error (r.sent.getD .EPIPE)))
      else if r.buf.isFull then pure none
      else
        let n ← ringBufWrite buf count 0 r.buf
        pure (some (.ok n))) rs

/-! ## Terminals -/

/-- A terminal in one round of `tty_pread`. If the ring yields one byte only, `eol` is
what the stack holds, and the loop that copies is followed for `fuel` rounds. -/
structure TtyRound where
  rc : Option Errno
  buf : RingBuf UInt8
  stack : UInt8
  fuel : Nat

def attrChar (stack : UInt8) (b : RingBuf UInt8) : UInt8 × UInt8 := ((b.read 2).1.getD 0 0, (b.read 2).1.getD 1 stack)

/-- The loop of `tty_pread`. It never asks whether the ring is empty. -/
def ttyCopy (stack : UInt8) (dest : Nat) : Nat → Nat → Nat → RingBuf UInt8 → IoProg Nat
  | _, ret, 0, _ => pure ret
  | 0, _, _ + 1, _ => trap .unfinished
  | fuel + 1, ret, count + 1, b => do
    let (ch, eol) := attrChar stack b
    if ch ≠ 0 then
      store (dest + ret) ch
      if eol ≠ 0 then pure (ret + 1) else ttyCopy stack dest fuel (ret + 1) count (b.read 2).2
    else if eol ≠ 0 then pure ret
    else ttyCopy stack dest fuel ret (count + 1) (b.read 2).2

def ttyPread (rs : List TtyRound) (buf count : Nat) : IoProg IoResult :=
  rounds (fun r => do
    match r.rc with
    | some e => pure (some (.error e))
    | none =>
      if r.buf.isEmpty then pure none
      else
        let n ← ttyCopy r.stack buf r.fuel 0 count r.buf
        pure (some (.ok n))) rs

inductive EchoTo
  | serial | virtual

def serialWrite (src n : Nat) : IoProg Unit :=
  forUp (fun i => do
    let _ ← load (src + i)
    let _ ← load (src + i)) n 0

def echo : Option EchoTo → Nat → Nat → IoProg Unit
  | none, _, _ => pure ()
  | some .serial, buf, count => serialWrite buf count
  | some .virtual, buf, count => copyIn buf count

def ttyPwrite (opost : Bool) (dev : Option EchoTo) (buf count : Nat) : IoProg IoResult := do
  if !opost then echo dev buf count else copyIn buf count
  pure (.ok count)

/-! ## Pseudo devices -/

def readZeros (buf count : Nat) : IoProg IoResult := do
  copyOut buf (fun _ => 0) count
  pure (.ok count)

def writeToFullDisk (count : Nat) : IoResult := if 0 < count then .error .ENOSPC else .ok 0

def fillRemainder (word : Option Nat) (dest n : Nat) : IoProg Bool :=
  match word with
  | none => pure false
  | some v => do
    copyOut dest (fun i => UInt8.ofNat (v / 2 ^ (8 * (3 - n + i)))) n
    pure true

def fillEdge (word : Option Nat) (dest n : Nat) : IoProg Bool :=
  if 0 < n then fillRemainder word dest n else pure true

def fillWords (words : Nat → Option Nat) : Nat → Nat → Nat → IoProg Bool
  | 0, _, _ => pure true
  | k + 1, i, p =>
    match words i with
    | none => pure false
    | some v => do
      copyOut p (fun j => UInt8.ofNat (v / 2 ^ (8 * j))) 4
      fillWords words k (i + 1) (p + 4)

open Errno in
/-- `random_get`; `words` is what `next` answers each time. -/
def randomGet (words : Nat → Option Nat) (buf count : Nat) : IoProg IoResult := do
  let aligned := (buf + 3) / 4 * 4
  let stop := buf + count
  let suffix := stop / 4 * 4
  let first := if buf < aligned then 1 else 0
  let k := (suffix - aligned) / 4
  let head ← fillEdge (words 0) buf (aligned - buf)
  if !head then pure (.error EIO)
  else
    let middle ← fillWords words k first aligned
    if !middle then pure (.error EIO)
    else
      let tail ← fillEdge (words (first + k)) suffix (stop - suffix)
      if !tail then pure (.error EIO) else pure (.ok count)

structure KmsgCopy where
  size : Nat
  data : Nat → UInt8

def kmsgPread (log : Option KmsgCopy) (buf count offset : Nat) : IoProg IoResult :=
  match log with
  | none => pure (.error .ENOMEM)
  | some kmsg => do
    if kmsg.size ≤ offset then pure (.ok 0)
    else
      let count := if kmsg.size ≤ (offset + count) % 2 ^ 64 then kmsg.size - offset else count
      copyOut buf (fun i => kmsg.data (offset + i)) count
      pure (.ok count)

def kmsgPwrite (buf count : Nat) : IoProg IoResult := do
  copyIn buf count
  serialWrite buf count
  pure (.ok count)

/-! ## Input devices -/

def sizeofKeyEvent : Nat := 6
def sizeofMouseEvent : Nat := 6

structure EventRound where
  rc : Option Errno
  queue : List (Nat → UInt8)

def eventCopy (size : Nat) : List (Nat → UInt8) → Nat → Nat → Nat → IoProg Nat
  | [], _, _, nread => pure nread
  | e :: q, out, count, nread =>
    if count = 0 ∨ count < size then pure nread
    else do
      copyOut out e size
      eventCopy size q (out + size) (count - size) (nread + size)

def eventPread (size : Nat) (rs : List EventRound) (buf count : Nat) : IoProg IoResult :=
  rounds (fun r => do
    match r.rc with
    | some e => pure (some (.error e))
    | none =>
      if r.queue.isEmpty then pure none
      else
        let n ← eventCopy size r.queue buf count 0
        pure (some (.ok n))) rs

def ps2KeyboardDevicePread (rs : List EventRound) (buf count : Nat) : IoProg IoResult :=
  eventPread sizeofKeyEvent rs buf count

def ps2MouseDevicePread (rs : List EventRound) (buf count : Nat) : IoProg IoResult :=
  eventPread sizeofMouseEvent rs buf count

/-! ## Sound and block devices -/

/-- `ac97_device_pwrite` from its `i`th buffer on; `wait` is how the waits for a free buffer end. -/
def ac97DevicePwrite (wait : Nat → Option Errno) (i src count nwritten : Nat) : IoProg IoResult :=
  if count = 0 then pure (.ok nwritten)
  else
    match wait i with
    | some e => pure (.error e)
    | none => do
      copyIn src (min PAGE_SIZE count)
      ac97DevicePwrite wait (i + 1) (src + min PAGE_SIZE count) (count - min PAGE_SIZE count)
        (nwritten + min PAGE_SIZE count)
termination_by count
decreasing_by
  unfold PAGE_SIZE
  omega

def SECTOR_SIZE : Nat := 512

structure VirtioRound where
  rc : Option Errno
  free : Bool

/-- A disk, the waits of one request, how many bytes the device moves, which, and how the request ends. -/
structure VirtioBlk where
  capacity : Nat
  rounds : List VirtioRound
  moved : Nat
  data : Nat → UInt8
  status : Option Errno

/-- The device accesses `n` bytes of physical memory from `phys` on, in place of those at `a`. -/
def dma (write : Bool) (phys a : Nat) (data : Nat → UInt8) (n : Nat) : IoProg Unit :=
  forUp (fun i => do
    let pages ← tables
    ensure (pages.locate write (a + i) = some (phys + i)) (.stray (a + i) write)
    if write then modify fun s => { s with byte := Function.update s.byte (phys + i) (data i) }) n 0

def submitRequest (d : VirtioBlk) (write : Bool) (buf count : Nat) : IoProg IoResult :=
  UserIo.rounds (fun r => do
    match r.rc with
    | some e => pure (some (.error e))
    | none =>
      if !r.free then pure none
      else
        let pages ← tables
        -- the descriptor has one physical address for the whole buffer
        match pages.locate false buf with
        | none => trap (.assert buf)
        | some phys =>
          dma write phys buf d.data (min d.moved count)
          match d.status with
          | some e => pure (some (.error e))
          | none => pure (some (.ok count))) d.rounds

def virtioBlkDoIo (d : VirtioBlk) (write : Bool) (buf count offset : Nat) : IoProg IoResult :=
  if count % SECTOR_SIZE ≠ 0 then pure (.error .EINVAL)
  else if offset % SECTOR_SIZE ≠ 0 then pure (.error .EINVAL)
  else if d.capacity ≤ offset / SECTOR_SIZE then pure (.ok 0)
  else submitRequest d write buf (min count ((d.capacity - offset / SECTOR_SIZE) * SECTOR_SIZE % 2 ^ 64))

/-! ## Files -/

inductive Inode
  | dir
  | other
  | tmpfs (content : Vec) (mem : Realloc)
  | procItem (content : Vec)
  | fifo (rs : List FifoRound)
  | unixSocket (isConnected isConnector : Bool) (rs : List SocketRound)
  | tty (opost : Bool) (dev : Option EchoTo) (rs : List TtyRound)
  | null
  | zero
  | full
  | random (words : Nat → Option Nat)
  | kmsg (log : Option KmsgCopy)
  | ps2Keyboard (rs : List EventRound)
  | ps2Mouse (rs : List EventRound)
  | ac97 (wait : Nat → Option Errno)
  | virtioBlk (d : VirtioBlk)
  /-- `/dev/console`, which stands for the active console. -/
  | systemConsole (active : Inode)

abbrev FileOperation := Nat → Nat → Nat → IoProg IoResult

/-- `file_pread` and `file_pwrite`, where `refused` is the mode the file may not have. -/
def fileOperation (refused mode : AccMode) (isDir : Bool) (op : Option FileOperation) : FileOperation :=
  fun buf count offset =>
    if isDir then pure (.error .EISDIR)
    else
      match op with
      | none => pure (.error .EINVAL)
      | some op => if mode = refused then pure (.error .EBADF) else op buf count offset

namespace Inode

def isDir : Inode → Bool
  | .dir => true
  | _ => false

def pread : Inode → Option FileOperation
  | .dir | .other | .ac97 _ => none
  | .tmpfs v _ | .procItem v => some (vecPread v)
  | .fifo rs => some fun buf count _ => fifoPread rs buf count
  | .unixSocket c k rs => some fun buf count _ => unixSocketPread c k rs buf count
  | .tty _ _ rs => some fun buf count _ => ttyPread rs buf count
  | .null => some fun _ _ _ => pure (.ok 0)
  | .zero | .full => some fun buf count _ => readZeros buf count
  | .random words => some fun buf count _ => randomGet words buf count
  | .kmsg log => some (kmsgPread log)
  | .ps2Keyboard rs => some fun buf count _ => ps2KeyboardDevicePread rs buf count
  | .ps2Mouse rs => some fun buf count _ => ps2MouseDevicePread rs buf count
  | .virtioBlk d => some (virtioBlkDoIo d true)
  | .systemConsole active => some (fileOperation .O_WRONLY .O_RDWR active.isDir active.pread)

def pwrite : Inode → Option FileOperation
  | .dir | .other | .procItem _ | .ps2Keyboard _ | .ps2Mouse _ => none
  | .tmpfs v mem => some (vecPwrite v mem)
  | .fifo rs => some fun buf count _ => fifoPwrite rs buf count
  | .unixSocket c k rs => some fun buf count _ => unixSocketPwrite c k rs buf count
  | .tty opost dev _ => some fun buf count _ => ttyPwrite opost dev buf count
  | .null | .zero | .random _ => some fun _ count _ => pure (.ok count)
  | .full => some fun _ count _ => pure (writeToFullDisk count)
  | .kmsg _ => some fun buf count _ => kmsgPwrite buf count
  | .ac97 wait => some fun buf count _ => ac97DevicePwrite wait 0 buf count 0
  | .virtioBlk d => some (virtioBlkDoIo d false)
  | .systemConsole active => some (fileOperation .O_RDONLY .O_RDWR active.isDir active.pwrite)

end Inode

/-- An open file and what the operations of one call on it meet, one after the other. -/
structure IoFile where
  mode : AccMode
  isSeekable : Bool
  offset : Nat
  inode : Nat → Inode

def IoFile.filePread (f : IoFile) (i : Nat) : FileOperation :=
  fileOperation .O_WRONLY f.mode (f.inode i).isDir (f.inode i).pread

def IoFile.filePwrite (f : IoFile) (i : Nat) : FileOperation :=
  fileOperation .O_RDONLY f.mode (f.inode i).isDir (f.inode i).pwrite

/-! ## System calls -/

structure FilePos where
  offset : Nat
  done : Nat

def restarted : IoResult → IoResult
  | .error .EINTR => .error .ERESTARTSYS
  | r => r

section
variable (op : Nat → FileOperation) (isSeekable : Bool)

def fileStep (p : FilePos) (buf count : Nat) : IoProg (IoResult × FilePos) := do
  if !isSeekable then
    let r ← op p.done buf count 0
    pure (r, ⟨p.offset, p.done + 1⟩)
  else
    let r ← op p.done buf count p.offset
    match r with
    | .ok n => pure (.ok n, ⟨(p.offset + n) % 2 ^ 64, p.done + 1⟩)
    | .error e => pure (.error e, ⟨p.offset, p.done + 1⟩)

def fileSteps (buf count cursor : Nat) (p : FilePos) : IoProg (IoResult × FilePos) := do
  if _ : cursor < count then
    match ← fileStep op isSeekable p (buf + cursor) (count - cursor) with
    | (.error e, p) => pure (.error e, p)
    | (.ok n, p) =>
      if _ : n = 0 then pure (.ok cursor, p)
      else fileSteps buf count (cursor + n) p
  else pure (.ok cursor, p)
termination_by count - cursor

/-- The loop of `sys_readv` and `sys_writev`; `iov i` is what `copy_from_user` gets at
the `i`th time, as other threads may have left it, or `none` if it fails. -/
def iovLoop (iov : Nat → Option (Nat × Nat)) : Nat → Nat → Nat → FilePos → IoProg IoResult
  | 0, _, ret, _ => pure (.ok ret)
  | k + 1, i, ret, p =>
    match iov i with
    | none => pure (.error .EFAULT)
    | some (base, len) => do
      if !isUserRange base len then pure (.error .EFAULT)
      else
        match ← fileSteps op isSeekable base len 0 p with
        | (.error .EINTR, _) => pure (if ret = 0 then .error .ERESTARTSYS else .ok ret)
        | (.error e, _) => pure (.error e)
        | (.ok n, p) => iovLoop iov k (i + 1) (ret + n) p

def sysIo (offset : Option Nat) (buf count : Nat) : IoProg IoResult := do
  if buf = 0 ∨ !isUserRange buf count then pure (.error .EFAULT)
  else
    match offset with
    | none => pure (.error .EBADF)
    | some offset =>
      let (r, _) ← fileStep op isSeekable ⟨offset, 0⟩ buf count
      pure (restarted r)

def sysIo64 (offset : Option Nat) (buf count pos : Nat) : IoProg IoResult := do
  if buf = 0 ∨ !isUserRange buf count then pure (.error .EFAULT)
  else
    match offset with
    | none => pure (.error .EBADF)
    | some _ =>
      let r ← op 0 buf count pos
      pure (restarted r)

def sizeofIovec : Nat := 8

def sysIov (offset : Option Nat) (userIov : Nat) (iovcnt : Int) (iov : Nat → Option (Nat × Nat)) : IoProg IoResult :=
  if userIov = 0 ∨ !isUserRange userIov (iovcnt * sizeofIovec % 2 ^ 32).toNat then pure (.error .EFAULT)
  else
    match offset with
    | none => pure (.error .EBADF)
    | some offset => iovLoop op isSeekable iov iovcnt.toNat 0 0 ⟨offset, 0⟩

end

inductive IoCall
  | read (buf count : Nat)
  | write (buf count : Nat)
  | pread64 (buf count pos : Nat)
  | pwrite64 (buf count pos : Nat)
  | readv (userIov : Nat) (iovcnt : Int) (iov : Nat → Option (Nat × Nat))
  | writev (userIov : Nat) (iovcnt : Int) (iov : Nat → Option (Nat × Nat))

def IoCall.run (reads writes : Nat → FileOperation) (isSeekable : Bool) (offset : Option Nat) : IoCall → IoProg IoResult
  | .read buf count => sysIo reads isSeekable offset buf count
  | .write buf count => sysIo writes isSeekable offset buf count
  | .pread64 buf count pos => sysIo64 reads offset buf count pos
  | .pwrite64 buf count pos => sysIo64 writes offset buf count pos
  | .readv userIov iovcnt iov => sysIov reads isSeekable offset userIov iovcnt iov
  | .writev userIov iovcnt iov => sysIov writes isSeekable offset userIov iovcnt iov

def IoCall.exec (c : IoCall) : Option IoFile → IoProg IoResult
  | none => c.run (fun _ _ _ _ => pure (.error .EBADF)) (fun _ _ _ _ => pure (.error .EBADF)) false none
  | some f => c.run f.filePread f.filePwrite f.isSeekable (some f.offset)

end Yagura.UserIo
