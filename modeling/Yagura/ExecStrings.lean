import Yagura.SignalFrame

/-!
# Argument vectors

`string_vec_clone_from_user` (`exec.c`) measures the strings of a user array
and copies them in a second pass. What each byte it reads holds is up to the
other threads of the process; the bytes it reads are recorded.
-/

namespace Yagura.Exec

open Errno List Prog

abbrev Memory := Nat → Option UInt8

inductive Trap
  | fault | overrun | endless
  deriving DecidableEq

/-- A byte of the user that is read; `guarded` if it is read by `safe_string.c`, behind `is_user_range`. -/
structure Access where
  addr : Nat
  guarded : Bool
  deriving DecidableEq

abbrev ExecProg := Prog (List Access) Trap

def word (bs : List UInt8) : Nat := bs.foldr (fun b n => b.toNat + 256 * n) 0

section
variable (mem : Nat → Memory)

/-- `mem k` is the memory as the access number `k` finds it. -/
def load (guarded : Bool) (a : Nat) : ExecProg (Option UInt8) := do
  let log ← get
  modify fun log => log ++ [⟨a % 2 ^ 32, guarded⟩]
  pure (mem log.length (a % 2 ^ 32))

def loads (guarded : Bool) : Nat → Nat → ExecProg (Option (List UInt8))
  | _, 0 => pure (some [])
  | a, n + 1 => do
    match ← load mem guarded a with
    | none => pure none
    | some b =>
      match ← loads guarded (a + 1) n with
      | none => pure none
      | some bs => pure (some (b :: bs))

def copyFromUser (userFrom n : Nat) : ExecProg (Option (List UInt8)) :=
  if isUserRange userFrom n then loads mem true userFrom n else pure none

end

/-! ## Guarded accesses -/

/-- The elements are strings that fill the buffer one behind the other. -/
def Laid (cursor stop : Nat) : List (Nat × List UInt8) → Prop
  | [] => cursor = stop
  | (a, bs) :: v => a = cursor ∧ (∃ s, 0 ∉ s ∧ bs = s ++ [0]) ∧ Laid (cursor + bs.length) stop v

section
variable {mem : Nat → Memory} {log : List Access} {a n : Nat}

end

/-! ## Memory that nobody changes -/

def bytes (m : Memory) : Nat → Nat → Option (List UInt8)
  | _, 0 => some []
  | a, n + 1 => (m (a % 2 ^ 32)).bind fun b => (bytes m (a + 1) n).map (b :: ·)

section
variable {mem : Nat → Memory} {m : Memory} {log : List Access} {a n : Nat} {s : List UInt8} (hm : ∀ k, mem k = m)
include hm

end

/-! ## The call -/

/-- The strings that were measured are copied. -/
def Copies (hasRoom : Nat → Bool) : Except Errno (Nat × Nat) → Prop
  | .error _ => False
  | .ok (count, sum) =>
    count ≠ 0 ∧ (kmallocSize hasRoom sum).isSome = true ∧ (kmallocSize hasRoom (4 * count)).isSome = true

/-- Strings one behind the other that take what was measured. -/
def Fits (r : Except Errno (Nat × Nat)) (out : Except Errno (List (Nat × List UInt8))) : Prop :=
  ∀ v, out = .ok v → ∃ c t, r = .ok (c, t) ∧ v.length = c ∧ Laid 0 t v

end Yagura.Exec
