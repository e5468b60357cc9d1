import Yagura.Blocking
import Yagura.SignalFrame
import Yagura.Time

/-!
# Sleep requests

User space passes `struct timespec`, two 64-bit fields, to the system call
`nanosleep` (`userland/lib/time.c`, `unistd.c`). The table of system calls maps
it to `sys_nanosleep_time32`, which reads and writes `struct timespec32`.
-/

namespace Yagura.Nanosleep

open BitVec Clocks Option SignalFrame

/-! ## The two layouts -/

structure UserTimespec where
  tvSec : BitVec 64
  tvNsec : BitVec 64
  deriving DecidableEq

def UserTimespec.value (t : UserTimespec) : Timespec := ⟨t.tvSec.toInt, t.tvNsec.toInt⟩

def words64 (x : BitVec 64) : List (BitVec 32) := [x.extractLsb' 0 32, x.extractLsb' 32 32]

def UserTimespec.bytes (t : UserTimespec) : List UInt8 := (words64 t.tvSec ++ words64 t.tvNsec).flatMap le32

def UserTimespec.ofBytes (bs : List UInt8) : UserTimespec :=
  let w := fun i => (wordsOf bs).getD i 0
  ⟨w 1 ++ w 0, w 3 ++ w 2⟩

structure Timespec32 where
  tvSec : BitVec 32
  tvNsec : BitVec 32

def Timespec32.bytes (t : Timespec32) : List UInt8 := le32 t.tvSec ++ le32 t.tvNsec

def Timespec32.ofBytes (bs : List UInt8) : Timespec32 :=
  let w := fun i => (wordsOf bs).getD i 0
  ⟨w 0, w 1⟩

/-! ## The system call -/

structure Look where
  clocks : Clocks
  signalled : Bool

structure Nap where
  start : Clocks
  visits : List Look
  /-- The clocks when the task is on a CPU again; the counter may have wrapped meanwhile. -/
  back : Clocks
  width : start.uptime < 2 ^ 32 ∧ back.uptime < 2 ^ 32

def TIMER_ABSTIME : Nat := 1

def unblockSleep (clock : ClockId) (deadline : Timespec) (l : Look) : Option (Except Errno Unit) :=
  match l.clocks.timeNow clock with
  | some (.ok now) => if 0 ≤ timespecCompare now deadline then some (.ok ()) else none
  -- `ASSERT_OK`; `clock_nanosleep` has read the same clock before
  | _ => none

def Look.interrupts (l : Look) : Option (Except Errno Unit) := if l.signalled then some (.error .EINTR) else none

/-- The result of the call with the remaining time; `none` if it has not returned. -/
def clockNanosleep (nap : Nap) (clock : ClockId) (flags : Nat) (request : Timespec) : Option (Except Errno Timespec) := do
  match ← nap.start.timeNow clock with
  | .error e => some (.error e)
  | .ok now =>
    if flags ≠ 0 ∧ flags ≠ TIMER_ABSTIME then some (.error .EINVAL)
    else
      let deadline := if flags = 0 then timespecAdd now request else request
      let (rc, _) ← blockOn (unblockSleep clock deadline) Look.interrupts ⟨nap.start, false⟩ nap.visits
      match rc with
      | .error e => some (.error e)
      | .ok () =>
        match ← nap.back.timeNow clock with
        | .error e => some (.error e)
        | .ok now => some (.ok (if flags = 0 then timespecSaturatingSub deadline now else ⟨0, 0⟩))

/-- What a system call leaves: the request it computed with, the time it wrote back and the user's buffer. -/
structure Trace where
  rc : Except Errno Unit
  request : Timespec
  remain : Option Timespec
  buffer : List UInt8

def sysClockNanosleepTime32 (nap : Nap) (clock : ClockId) (flags : Nat) (userRequest : List UInt8)
    (userRemain : Option (List UInt8)) : Option Trace := do
  let request32 := Timespec32.ofBytes (userRequest.take 8)
  let request : Timespec := ⟨request32.tvSec.toInt, request32.tvNsec.toInt⟩
  match ← clockNanosleep nap clock flags request, userRemain with
  | .error e, _ => some ⟨.error e, request, none, userRemain.getD []⟩
  | .ok _, none => some ⟨.ok (), request, none, []⟩
  | .ok remain, some old =>
    let rem : Timespec32 := ⟨BitVec.ofInt 32 remain.tvSec, BitVec.ofInt 32 remain.tvNsec⟩
    some ⟨.ok (), request, some remain, rem.bytes ++ old.drop 8⟩

def sysNanosleepTime32 (nap : Nap) (userDuration : List UInt8) (userRem : Option (List UInt8)) : Option Trace :=
  sysClockNanosleepTime32 nap .CLOCK_MONOTONIC 0 userDuration userRem

/-! ## The C library -/

inductive Call
  | nanosleep (req : UserTimespec) (rem : Option UserTimespec)
  | usleep (usec : BitVec 32)
  /-- `rem` is what the stack holds there: the variable is not initialised. -/
  | sleep (seconds : BitVec 32) (rem : UserTimespec)

def Call.req : Call → UserTimespec
  | .nanosleep req _ => req
  | .usleep usec => ⟨BitVec.ofNat 64 (usec.toNat / 1000000), BitVec.ofNat 64 (usec.toNat % 1000000 * 1000)⟩
  | .sleep seconds _ => ⟨seconds.setWidth 64, 0⟩

def Call.rem : Call → Option UserTimespec
  | .nanosleep _ rem => rem
  | .usleep _ => none
  | .sleep _ rem => some rem

def Call.run (c : Call) (nap : Nap) : Option Trace :=
  sysNanosleepTime32 nap c.req.bytes (c.rem.map UserTimespec.bytes)

/-! ## Reading at the other width -/

/-- The tick at which a sleep of whole seconds is over. -/
def Nap.deadline (nap : Nap) (sec : Nat) : Nat := nap.start.uptime + CLK_TCK * sec

def Trace.Exact (t : Trace) (request : Timespec) : Prop :=
  t.request = request ∧ ∀ r, t.remain = some r → (UserTimespec.ofBytes t.buffer).value = r

end Yagura.Nanosleep
