import Mathlib

/-!
# Error numbers, signals and process ids

The errors of `api/errno.h` that the modelled functions return, the bound of
`api/signal.h` on signal numbers, and what several modules do with the ids of
tasks.
-/

namespace Yagura

inductive Errno
  | ENOENT | EINTR | ENXIO | EBADF | EAGAIN | ENOMEM | EACCES | EFAULT | EEXIST | ENODEV | EINVAL | EPIPE
  | ERANGE | EOVERFLOW | ENOTSUP | ENOTCONN | EISDIR | EMFILE | ENOTSOCK | EAFNOSUPPORT | EADDRINUSE | ERESTARTSYS
  | EIO | ENOSPC | EPERM | ENOTDIR | EXDEV | ELOOP | ENOTEMPTY | ENAMETOOLONG | EISCONN | ECONNREFUSED
  | ECHILD | ESRCH | ENOEXEC | E2BIG
  deriving DecidableEq, Repr

def NSIG : Nat := 32

/-- `next_tid` after `task_generate_next_tid` has drawn its value; an `atomic_int` wraps around. -/
def afterDraw (nextTid : Int) : Int := Int.bmod (nextTid + 1) (2 ^ 32)

theorem afterDraw_lt (tid : Int) : afterDraw tid < 2 ^ 31 := by
  have := Int.bmod_lt (x := tid + 1) (m := 2 ^ 32) (by decide)
  unfold afterDraw
  omega

theorem afterDraw_of_pos {tid : Int} (h0 : 0 < tid) (hlt : tid < 2 ^ 31) (hp : 0 < afterDraw tid) :
    afterDraw tid = tid + 1 := by
  unfold afterDraw at hp ⊢
  rw [Int.bmod_def] at hp ⊢
  split_ifs at hp ⊢ <;> omega

/-- The `is_target` of `unblock_waitpid`, over the type of a pid or the integers it stands for. -/
def waitTarget {α : Type} [DecidableEq α] [LT α] [DecidableLT α] [Neg α] [OfNat α 0] [OfNat α 1]
    (paramPid currentTgid currentPgid tgid pgid ppid : α) : Bool :=
  if paramPid < -1 then pgid = -paramPid
  else if paramPid = -1 then ppid = currentTgid
  else if paramPid = 0 then pgid = currentPgid
  else tgid = paramPid

end Yagura
