import Yagura.BootMemory
import Yagura.CreateRace
import Yagura.ExitNotice
import Yagura.FdRace
import Yagura.FdDup
import Yagura.ExecStrings
import Yagura.FifoOpen
import Yagura.Locks
import Yagura.MmLocks
import Yagura.MsgPool
import Yagura.Nanosleep
import Yagura.PageInit
import Yagura.Pipe
import Yagura.ProcList
import Yagura.PthreadStacks
import Yagura.Readdir
import Yagura.Random
import Yagura.RegionRuns
import Yagura.RegionSearch
import Yagura.Select
import Yagura.SignalCrash
import Yagura.SignalFrame
import Yagura.SocketAddrs
import Yagura.SocketHangUp
import Yagura.SocketLocks
import Yagura.Calendar
import Yagura.Tls
import Yagura.Tmpfs
import Yagura.UserIoSound
import Yagura.VfsAtomic
import Yagura.VfsCanon
import Yagura.VfsLinks
import Yagura.Wait4
import Yagura.Virtio
import Yagura.Tty
import Yagura.Poll
import Yagura.MemString
import Yagura.Printf
