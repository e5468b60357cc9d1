import Yagura.Errno

/-!
# Clocks

`time.c`: the timer interrupt counts `uptime` up and moves `now` on; the
monotonic clock is computed from `uptime`, a 32-bit counter, the realtime clock
is `now`.
-/

namespace Yagura

open List Nat

def NANOS : Int := 1000000000

def CLK_TCK : Nat := 250

def wrap64 (x : Int) : Int := Int.bmod x (2 ^ 64)

structure Timespec where
  tvSec : Int
  tvNsec : Int
  deriving DecidableEq

def timespecAdd (this other : Timespec) : Timespec :=
  let sec := wrap64 (this.tvSec + other.tvSec)
  let nsec := wrap64 (this.tvNsec + other.tvNsec)
  if NANOS ≤ nsec then ⟨wrap64 (sec + 1), nsec - NANOS⟩ else ⟨sec, nsec⟩

def timespecSaturatingSub (this other : Timespec) : Timespec :=
  let sec := wrap64 (this.tvSec - other.tvSec)
  let nsec := wrap64 (this.tvNsec - other.tvNsec)
  let r : Timespec := if nsec < 0 then ⟨wrap64 (sec - 1), nsec + NANOS⟩ else ⟨sec, nsec⟩
  if r.tvSec < 0 then ⟨0, 0⟩ else r

def timespecCompare (a b : Timespec) : Int :=
  if b.tvSec < a.tvSec then 1
  else if a.tvSec < b.tvSec then -1
  else if b.tvNsec < a.tvNsec then 1
  else if a.tvNsec < b.tvNsec then -1
  else 0

/-- `idivl`: quotient and remainder; `none` if the quotient does not fit, which is a fault. -/
def divmodi64 (a b : Int) : Option (Int × Int) :=
  if b = 0 ∨ a.tdiv b < -2 ^ 31 ∨ 2 ^ 31 ≤ a.tdiv b then none else some (a.tdiv b, a.tmod b)

inductive ClockId
  | CLOCK_REALTIME | CLOCK_MONOTONIC
  | other (id : Int)
  deriving DecidableEq

structure Clocks where
  uptime : Nat
  now : Timespec

namespace Clocks

def init (rtcNow : Int) : Clocks := ⟨0, rtcNow, 0⟩

def timeTick (s : Clocks) : Clocks where
  uptime := (s.uptime + 1) % 2 ^ 32
  now :=
    let nsec := s.now.tvNsec + NANOS / CLK_TCK
    if NANOS ≤ nsec then ⟨wrap64 (s.now.tvSec + 1), nsec - NANOS⟩ else ⟨s.now.tvSec, nsec⟩

def timeNow (s : Clocks) (clock : ClockId) : Option (Except Errno Timespec) :=
  match clock with
  | .CLOCK_REALTIME => some (.ok s.now)
  | .CLOCK_MONOTONIC =>
    let sec : Int := (s.uptime / CLK_TCK : Nat)
    match divmodi64 (wrap64 ((s.uptime - sec * CLK_TCK) * NANOS)) CLK_TCK with
    | none => none
    | some (q, _) => some (.ok ⟨sec, q⟩)
  | .other _ => some (.error .EINVAL)

def timeSet (s : Clocks) (clock : ClockId) (tp : Timespec) : Except Errno Unit × Clocks :=
  if tp.tvSec < 0 ∨ tp.tvNsec < 0 ∨ NANOS ≤ tp.tvNsec then (.error .EINVAL, s)
  else
    match clock with
    | .CLOCK_REALTIME => (.ok (), { s with now := tp })
    | .CLOCK_MONOTONIC | .other _ => (.error .EINVAL, s)

/-! ## What happens to the clocks -/

inductive Event
  | tick
  | read (clock : ClockId)
  | set (clock : ClockId) (tp : Timespec)
  deriving DecidableEq

def apply (s : Clocks) : Event → Clocks
  | .tick => s.timeTick
  | .read _ => s
  | .set clock tp => (s.timeSet clock tp).2

def after (s : Clocks) (es : List Event) : Clocks := es.foldl apply s

/-! ## The monotonic clock by the number of ticks -/

section
variable {s : Clocks} {es : List Event}

def shown (t : Nat) : Timespec := ⟨(t / CLK_TCK : Nat), (t % CLK_TCK : Nat) * (NANOS / CLK_TCK)⟩

theorem wrap64_eq {x : Int} (h0 : -2 ^ 63 ≤ x) (h1 : x < 2 ^ 63) : wrap64 x = x := by
  exact Int.bmod_eq_of_le_mul_two (by omega) (by omega)

theorem divmodi64_nanos {r : Nat} (h : r < CLK_TCK) :
    divmodi64 (r * NANOS) CLK_TCK = some (r * (NANOS / CLK_TCK), 0) := by
  unfold CLK_TCK at *
  have hdiv : (r * NANOS).tdiv (250 : Nat) = r * (NANOS / (250 : Nat)) := by
    rw [Int.tdiv_eq_ediv_of_nonneg (by unfold NANOS; omega)]
    unfold NANOS
    omega
  have hmod : (r * NANOS).tmod (250 : Nat) = 0 := by
    rw [Int.tmod_eq_emod_of_nonneg (by unfold NANOS; omega)]
    unfold NANOS
    omega
  unfold divmodi64
  rw [hdiv, hmod, if_neg (by unfold NANOS; omega)]

theorem timeNow_monotonic : s.timeNow .CLOCK_MONOTONIC = some (.ok (shown s.uptime)) := by
  have hlt : s.uptime % CLK_TCK < CLK_TCK := mod_lt _ (by decide)
  have hti : (s.uptime : Int) - (s.uptime / CLK_TCK : Nat) * CLK_TCK = (s.uptime % CLK_TCK : Nat) := by
    unfold CLK_TCK
    omega
  have hsm : wrap64 ((s.uptime % CLK_TCK : Nat) * NANOS) = (s.uptime % CLK_TCK : Nat) * NANOS := by
    apply wrap64_eq <;> (unfold NANOS CLK_TCK at *; omega)
  unfold timeNow
  simp only [hti, hsm, divmodi64_nanos hlt, shown]

theorem uptime_apply (hs : s.uptime < 2 ^ 32) (e : Event) :
    (s.apply e).uptime = (s.uptime + [e].count .tick) % 2 ^ 32 := by
  have hqu (hne : e ≠ .tick) (hsa : (s.apply e).uptime = s.uptime) :
      (s.apply e).uptime = (s.uptime + [e].count .tick) % 2 ^ 32 := by
    rw [hsa, count_singleton, beq_false_of_ne hne, if_neg Bool.false_ne_true, add_zero, mod_eq_of_lt hs]
  cases e with
  | tick => rfl
  | read clock => exact hqu nofun rfl
  | set clock tp =>
    refine hqu nofun ?_
    show (s.timeSet clock tp).2.uptime = s.uptime
    unfold timeSet
    split
    · rfl
    · cases clock <;> rfl

theorem uptime_after (hs : s.uptime < 2 ^ 32) : (s.after es).uptime = (s.uptime + es.count .tick) % 2 ^ 32 := by
  induction es generalizing s with
  | nil => exact (mod_eq_of_lt hs).symm
  | cons e es ih =>
    have hap := uptime_apply hs e
    have hlt : (s.apply e).uptime < 2 ^ 32 := hap ▸ mod_lt _ (by decide)
    have hco : (e :: es).count .tick = [e].count .tick + es.count .tick := @count_append _ _ _ [e] es
    rw [show s.after (e :: es) = (s.apply e).after es from rfl, ih hlt, hap, hco, mod_add_mod, add_assoc]

/-! ## Nanoseconds -/

def Timespec.Fraction (tp : Timespec) : Prop := 0 ≤ tp.tvNsec ∧ tp.tvNsec < NANOS

theorem fraction_shown (t : Nat) : Timespec.Fraction (shown t) := by
  unfold Timespec.Fraction shown NANOS CLK_TCK at *
  dsimp only
  omega

theorem fraction_apply (hs : Timespec.Fraction s.now) (e : Event) : Timespec.Fraction (s.apply e).now := by
  cases e with
  | tick =>
    unfold Timespec.Fraction at *
    simp only [apply, timeTick]
    have hst : (0 : Int) ≤ NANOS / CLK_TCK ∧ NANOS / CLK_TCK < NANOS := by decide
    split
    · constructor <;> (dsimp only; omega)
    · constructor <;> (dsimp only; omega)
  | read clock => exact hs
  | set clock tp =>
    show Timespec.Fraction (s.timeSet clock tp).2.now
    unfold timeSet
    split
    · exact hs
    · rename_i hok
      rw [not_or, not_or] at hok
      cases clock with
      | CLOCK_REALTIME => exact ⟨not_lt.mp hok.2.1, not_le.mp hok.2.2⟩
      | CLOCK_MONOTONIC => exact hs
      | other id => exact hs

theorem fraction_after (hs : Timespec.Fraction s.now) : Timespec.Fraction (s.after es).now := by
  induction es generalizing s with
  | nil => exact hs
  | cons e es ih => exact ih (fraction_apply hs e)

/-! ## The contract of the monotonic clock -/

def nanos (tp : Timespec) : Int := tp.tvSec * NANOS + tp.tvNsec

theorem nanos_shown (t : Nat) : nanos (shown t) = t * (NANOS / CLK_TCK) := by
  unfold nanos shown NANOS CLK_TCK
  dsimp only
  omega

theorem compare_of_nanos {a b : Timespec} (ha : Timespec.Fraction a) (hb : Timespec.Fraction b) :
    0 ≤ timespecCompare b a ↔ nanos a ≤ nanos b := by
  unfold Timespec.Fraction at ha hb
  unfold timespecCompare nanos NANOS at *
  split_ifs <;> constructor <;> intro h <;> omega

theorem timespecAdd_spec {a b : Timespec} (ha : Timespec.Fraction a) (hb : Timespec.Fraction b)
    (hlow : -2 ^ 62 ≤ a.tvSec + b.tvSec) (hhi : a.tvSec + b.tvSec < 2 ^ 62) :
    Timespec.Fraction (timespecAdd a b) ∧ nanos (timespecAdd a b) = nanos a + nanos b := by
  unfold Timespec.Fraction nanos timespecAdd NANOS at *
  rw [wrap64_eq (x := a.tvSec + b.tvSec) (by omega) (by omega),
    wrap64_eq (x := a.tvNsec + b.tvNsec) (by omega) (by omega)]
  dsimp only
  split_ifs
  · rw [wrap64_eq (by omega) (by omega)]
    constructor <;> (dsimp only; omega)
  · constructor <;> (dsimp only; omega)

theorem fraction_timespecSaturatingSub {a b : Timespec} (ha : Timespec.Fraction a) (hb : Timespec.Fraction b) :
    Timespec.Fraction (timespecSaturatingSub a b) := by
  unfold Timespec.Fraction timespecSaturatingSub NANOS at *
  rw [wrap64_eq (x := a.tvNsec - b.tvNsec) (by omega) (by omega)]
  dsimp only
  split_ifs <;> constructor <;> (dsimp only; omega)

end

/-- Between any two moments the clock does not go back and moves on by a period for each tick, and both clocks show
fractions of a second. -/
def Contract (s : Clocks) (es : List Event) : Prop :=
  ∀ front middle rest, es = front ++ middle ++ rest → ∃ a b,
    (s.after front).timeNow .CLOCK_MONOTONIC = some (.ok a) ∧
    (s.after (front ++ middle)).timeNow .CLOCK_MONOTONIC = some (.ok b) ∧
    0 ≤ timespecCompare b a ∧ nanos b = nanos a + middle.count .tick * (NANOS / CLK_TCK) ∧
    Timespec.Fraction a ∧ Timespec.Fraction b ∧ Timespec.Fraction (s.after front).now

theorem contract_iff (rtcNow : Int) (es : List Event) : Contract (init rtcNow) es ↔ es.count .tick < 2 ^ 32 := by
  have hre (es : List Event) : ((init rtcNow).after es).timeNow .CLOCK_MONOTONIC =
      some (.ok (shown (es.count .tick % 2 ^ 32))) := by
    have hup : ((init rtcNow).after es).uptime = es.count .tick % 2 ^ 32 := by
      rw [uptime_after (show 0 < 2 ^ 32 by decide), show (init rtcNow).uptime = 0 from rfl, zero_add]
    rw [timeNow_monotonic, hup]
  constructor
  · intro h
    obtain ⟨a, b, ha, hb, -, hmo, -⟩ := h [] es [] (by simp)
    rw [hre] at ha
    rw [nil_append, hre] at hb
    cases ha
    cases hb
    rw [nanos_shown, nanos_shown] at hmo
    unfold NANOS CLK_TCK at hmo
    omega
  · rintro h front middle rest rfl
    simp only [count_append] at h
    have hfr := hre front
    have hmi := hre (front ++ middle)
    rw [mod_eq_of_lt (by omega)] at hfr
    rw [count_append, mod_eq_of_lt (by omega)] at hmi
    have hmo : nanos (shown (front.count .tick + middle.count .tick)) =
        nanos (shown (front.count .tick)) + middle.count .tick * (NANOS / CLK_TCK) := by
      rw [nanos_shown, nanos_shown]
      push_cast
      ring
    refine ⟨_, _, hfr, hmi, ?_, hmo, fraction_shown _, fraction_shown _, fraction_after ?_⟩
    · rw [compare_of_nanos (fraction_shown _) (fraction_shown _), hmo]
      have hpe : (0 : Int) ≤ NANOS / CLK_TCK := by decide
      exact le_add_of_nonneg_right (mul_nonneg (Int.natCast_nonneg _) hpe)
    · exact ⟨le_rfl, show (0 : Int) < NANOS by decide⟩

/-- The tick that wraps the counter around takes the clock from more than 198 days back to zero. -/
theorem clock_goes_back : ∃ a b,
    ((init 0).after (List.replicate (2 ^ 32 - 1) .tick)).timeNow .CLOCK_MONOTONIC = some (.ok a) ∧
    ((init 0).after (List.replicate (2 ^ 32) .tick)).timeNow .CLOCK_MONOTONIC = some (.ok b) ∧
    a.tvSec = 17179869 ∧ b = ⟨0, 0⟩ ∧ timespecCompare b a < 0 := by
  have hre (n : Nat) : ((init 0).after (replicate n .tick)).timeNow .CLOCK_MONOTONIC =
      some (.ok (shown (n % 2 ^ 32))) := by
    have hup : ((init 0).after (replicate n .tick)).uptime = n % 2 ^ 32 := by
      rw [uptime_after (by decide), count_replicate_self, show (init 0).uptime = 0 from rfl, zero_add]
    rw [timeNow_monotonic, hup]
  exact ⟨_, _, hre _, hre _, by decide, by decide, by decide⟩

end Clocks

end Yagura
