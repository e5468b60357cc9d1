import Yagura.Getdents
import Yagura.Signals

/-!
# Signal frames

`task_handle_signal` pushes the registers and the mask of the interrupted code
on the user's stack, and `sys_sigreturn` takes them from there. In between runs
the handler, which may be interrupted by further signals; it comes back through
`__sa_restorer`, the system call entry and the write-back of the dispatcher.
-/

namespace Yagura

namespace SignalFrame

open Getdents List Option Signals

/-! ## Registers -/

structure Registers where
  gs : BitVec 32
  fs : BitVec 32
  es : BitVec 32
  ds : BitVec 32
  edi : BitVec 32
  esi : BitVec 32
  ebp : BitVec 32
  edx : BitVec 32
  ecx : BitVec 32
  ebx : BitVec 32
  eax : BitVec 32
  interruptNum : BitVec 32
  errorCode : BitVec 32
  eip : BitVec 32
  cs : BitVec 32
  eflags : BitVec 32
  esp : BitVec 32
  ss : BitVec 32
  deriving DecidableEq

structure Sigcontext where
  blockedSignals : SigSet
  regs : Registers
  deriving DecidableEq

def Sigcontext.words (c : Sigcontext) : List (BitVec 32) :=
  let r := c.regs
  [c.blockedSignals, r.gs, r.fs, r.es, r.ds, r.edi, r.esi, r.ebp, r.edx, r.ecx, r.ebx, r.eax, r.interruptNum,
    r.errorCode, r.eip, r.cs, r.eflags, r.esp, r.ss]

def Sigcontext.ofWords (w : List (BitVec 32)) : Sigcontext :=
  let at' := fun i => w.getD i 0
  ⟨at' 0, at' 1, at' 2, at' 3, at' 4, at' 5, at' 6, at' 7, at' 8, at' 9, at' 10, at' 11, at' 12, at' 13, at' 14,
    at' 15, at' 16, at' 17, at' 18⟩

def le32 (w : BitVec 32) : List UInt8 :=
  [UInt8.ofNat (w.toNat % 256), UInt8.ofNat (w.toNat / 256 % 256), UInt8.ofNat (w.toNat / 65536 % 256),
    UInt8.ofNat (w.toNat / 16777216 % 256)]

def wordsOf : List UInt8 → List (BitVec 32)
  | b0 :: b1 :: b2 :: b3 :: bs =>
    BitVec.ofNat 32 (b0.toNat + 256 * b1.toNat + 65536 * b2.toNat + 16777216 * b3.toNat) :: wordsOf bs
  | _ => []

def Sigcontext.bytes (c : Sigcontext) : List UInt8 := c.words.flatMap le32

def sizeofSigcontext : Nat := 76

def EFLAGS_CF : BitVec 32 := 0x1
def EFLAGS_PF : BitVec 32 := 0x4
def EFLAGS_AF : BitVec 32 := 0x10
def EFLAGS_ZF : BitVec 32 := 0x40
def EFLAGS_SF : BitVec 32 := 0x80
def EFLAGS_TF : BitVec 32 := 0x100
def EFLAGS_DF : BitVec 32 := 0x400
def EFLAGS_OF : BitVec 32 := 0x800
def EFLAGS_RF : BitVec 32 := 0x10000
def EFLAGS_AC : BitVec 32 := 0x40000

def FIX_EFLAGS : BitVec 32 :=
  EFLAGS_AC ||| EFLAGS_OF ||| EFLAGS_DF ||| EFLAGS_TF ||| EFLAGS_SF ||| EFLAGS_ZF ||| EFLAGS_AF ||| EFLAGS_PF |||
    EFLAGS_CF ||| EFLAGS_RF

/-! ## The kernel -/

structure Machine where
  regs : Registers
  mem : UserBytes
  readable : Nat → Bool
  blockedSignals : SigSet

namespace Machine

def bytesAt (m : UserBytes) (a n : Nat) : List UInt8 := (List.range n).map fun i => m.byte (a + i)

def copyFromUser (m : Machine) (userFrom n : Nat) : Option (List UInt8) :=
  if isUserRange userFrom n ∧ ∀ i < n, m.readable (userFrom + i) = true then some (bytesAt m.mem userFrom n) else none

def copyOut (a : Nat) (bytes : List UInt8) (mem : UserBytes) : Option UserBytes :=
  match copyToUser a bytes mem with
  | (.error _, _) => none
  | (.ok (), mem) => some mem

def taskHandleSignal (m : Machine) (signum : Nat) (action : SigAction) : Option Machine := do
  let esp := m.regs.esp.toNat / 16 * 16
  let ctx : Sigcontext := ⟨m.blockedSignals, m.regs⟩
  let esp := sub32 esp sizeofSigcontext
  let mem ← copyOut esp ctx.bytes m.mem
  let esp := sub32 esp 4
  let mem ← copyOut esp (le32 (BitVec.ofNat 32 signum)) mem
  let esp := sub32 esp 4
  let mem ← copyOut esp (le32 (BitVec.ofNat 32 action.restorer)) mem
  some { m with
    regs := { m.regs with esp := BitVec.ofNat 32 esp, eip := BitVec.ofNat 32 action.handler }
    mem := mem
    blockedSignals := newBlocked m.blockedSignals signum action }

/-- The machine and the value the call returns; `none`: `task_crash`. -/
def sysSigreturn (m : Machine) : Option (Machine × BitVec 32) := do
  let bytes ← m.copyFromUser (add32 m.regs.esp.toNat 4) sizeofSigcontext
  let ctx := Sigcontext.ofWords (wordsOf bytes)
  some ({ m with
    regs := { m.regs with
      ss := ctx.regs.ss ||| 3
      cs := ctx.regs.cs ||| 3
      ds := ctx.regs.ds
      es := ctx.regs.es
      fs := ctx.regs.fs
      gs := ctx.regs.gs
      ebx := ctx.regs.ebx
      ecx := ctx.regs.ecx
      edx := ctx.regs.edx
      esi := ctx.regs.esi
      edi := ctx.regs.edi
      ebp := ctx.regs.ebp
      esp := ctx.regs.esp
      eip := ctx.regs.eip
      eflags := (m.regs.eflags &&& ~~~FIX_EFLAGS) ||| (ctx.regs.eflags &&& FIX_EFLAGS) }
    blockedSignals := ctx.blockedSignals }, ctx.regs.eax)

def SA_RESTART : BitVec 32 := 0x10000000

def negERESTARTSYS : BitVec 32 := -512
def negEINTR : BitVec 32 := -4

def writeBack (m : Machine) (noError : Bool) (ret : BitVec 32) (signal : Option (Nat × SigAction)) : Machine :=
  if noError then { m with regs := { m.regs with eax := ret } }
  else if ret = negERESTARTSYS then
    if (signal.any fun p => p.2.has SA_RESTART) = true then { m with regs := { m.regs with eip := m.regs.eip - 2 } }
    else { m with regs := { m.regs with eax := negEINTR } }
  else { m with regs := { m.regs with eax := ret } }

def SYS_sigreturn : BitVec 32 := 119

def throughRestorer (m : Machine) (restorer : Nat) : Machine :=
  { m with
    regs := { m.regs with esp := m.regs.esp + 4, eax := SYS_sigreturn, eip := BitVec.ofNat 32 (restorer + 7) } }

end Machine

/-! ## Runs -/

/-- A delivery whose handler has not returned: the stack pointer it started with, and what was interrupted. -/
structure Frame where
  esp : BitVec 32
  ctx : Sigcontext
  restorer : Nat

def Frame.ctxAddr (f : Frame) : Nat := f.esp.toNat + 8

def UserMode (r : Registers) : Prop := r.cs &&& 3 = 3 ∧ r.ss &&& 3 = 3

def Untouched (m m' : Machine) (fs : List Frame) : Prop :=
  ∀ f ∈ fs, ∀ i < sizeofSigcontext, m'.mem.byte (f.ctxAddr + i) = m.mem.byte (f.ctxAddr + i)

/-- `task_handle_signal` for the registers of `m`; its frame lies beside the saved contexts. -/
inductive Delivers (m : Machine) (fs : List Frame) : Option (Nat × SigAction) → Machine × List Frame → Prop
  | none : Delivers m fs none (m, fs)
  | handler {signum action m'} : m.taskHandleSignal signum action = some m' →
      (∀ f ∈ fs, m'.regs.esp.toNat + 8 + sizeofSigcontext ≤ f.ctxAddr ∨
        f.ctxAddr + sizeofSigcontext ≤ m'.regs.esp.toNat) →
      Delivers m fs (some (signum, action))
        (m', ⟨m'.regs.esp, ⟨m.blockedSignals, m.regs⟩, action.restorer⟩ :: fs)

/-- Steps of a task: its user code, the timer, system calls, and handlers that return through the restorer. -/
inductive Step : Machine × List Frame → Unit → Machine × List Frame → Prop
  | user {m m' fs} : UserMode m'.regs → Untouched m m' fs → Step (m, fs) () (m', fs)
  | tick {m fs signal s'} : Delivers m fs signal s' → Step (m, fs) () s'
  | syscall {m m₀ fs ret signal s'} : m₀.regs = m.regs → Untouched m m₀ fs →
      Delivers (m₀.writeBack false ret signal) fs signal s' → Step (m, fs) () s'
  | returns {m m₀ f fs ret signal s'} : m.regs.esp = f.esp →
      (m.throughRestorer f.restorer).sysSigreturn = some (m₀, ret) →
      Delivers (m₀.writeBack true ret signal) fs signal s' → Step (m, f :: fs) () s'

/-- The registers, the flags that user code can see changing, and the mask are those of the context. -/
structure Resumes (ctx : Sigcontext) (m : Machine) : Prop where
  regs : m.regs = { ctx.regs with
    interruptNum := m.regs.interruptNum, errorCode := m.regs.errorCode, eflags := m.regs.eflags }
  flags : m.regs.eflags &&& FIX_EFLAGS = ctx.regs.eflags &&& FIX_EFLAGS
  mask : m.blockedSignals = ctx.blockedSignals

/-! ## Bytes of a context -/

theorem wordsOf_le32 (w : BitVec 32) (bs : List UInt8) : wordsOf (le32 w ++ bs) = w :: wordsOf bs := by
  simp only [le32, cons_append, nil_append, wordsOf, UInt8.toNat_ofNat']
  congr 1
  apply BitVec.eq_of_toNat_eq
  rw [BitVec.toNat_ofNat]
  omega

theorem wordsOf_flatMap (ws : List (BitVec 32)) : wordsOf (ws.flatMap le32) = ws := by
  induction ws with
  | nil => rfl
  | cons w ws ih => rw [flatMap_cons, wordsOf_le32, ih]

theorem ofWords_bytes (c : Sigcontext) : Sigcontext.ofWords (wordsOf c.bytes) = c := by
  unfold Sigcontext.bytes
  rw [wordsOf_flatMap]
  rfl

theorem length_le32 (w : BitVec 32) : (le32 w).length = 4 := rfl

theorem length_bytes (c : Sigcontext) : c.bytes.length = sizeofSigcontext := rfl

section
variable {m m' m₀ : Machine} {f : Frame} {fs : List Frame} {ret : BitVec 32} {signum : Nat} {action : SigAction}
  {signal : Option (Nat × SigAction)}

theorem isUserRange_bounds {a n : Nat} (ha : a < 2 ^ 32) (h : isUserRange a n = true) (hn : n < 2 ^ 31) :
    0 < a ∧ a + n ≤ KERNEL_VIRT_ADDR := by
  unfold isUserRange isUserAddress add32 KERNEL_VIRT_ADDR at *
  simp only [Bool.and_eq_true, decide_eq_true_eq] at h
  omega

theorem copyOut_done {a : Nat} {bs : List UInt8} {u u' : UserBytes} (ha : a < 2 ^ 32) (hn : bs.length < 2 ^ 31)
    (h : Machine.copyOut a bs u = some u') :
    0 < a ∧ a + bs.length ≤ KERNEL_VIRT_ADDR ∧ Machine.bytesAt u' a bs.length = bs ∧
      ∀ x, x < a ∨ a + bs.length ≤ x → u'.byte x = u.byte x := by
  have h : copyToUser a bs u = (.ok (), u') := by
    unfold Machine.copyOut at h
    split at h
    · cases h
    · cases h
      assumption
  have hok : (copyToUser a bs u).1 = .ok () := by rw [h]
  have hby := copyToUser_byte hok
  have hot (x : Nat) (hx : x < a ∨ a + bs.length ≤ x) := copyToUser_below (m := u) hx
  rw [h] at hby hot
  obtain ⟨hpos, hle⟩ := isUserRange_bounds ha ((copyToUser_ok u a bs).mp hok).1 hn
  refine ⟨hpos, hle, ?_, hot⟩
  apply ext_getElem
  · simp [Machine.bytesAt]
  · intro i hi hi'
    simp only [Machine.bytesAt, getElem_map, getElem_range]
    exact hby i hi'

theorem bytesAt_congr {u u' : UserBytes} {a n : Nat} (h : ∀ i < n, u'.byte (a + i) = u.byte (a + i)) :
    Machine.bytesAt u' a n = Machine.bytesAt u a n := by
  apply map_congr_left
  intro i hi
  exact h i (mem_range.mp hi)

theorem sub32_lt (a b : Nat) : sub32 a b < 2 ^ 32 := Nat.mod_lt _ (by decide)

theorem taskHandleSignal_frame (h : m.taskHandleSignal signum action = some m') :
    m'.regs = { m.regs with esp := m'.regs.esp, eip := BitVec.ofNat 32 action.handler } ∧
    m'.regs.esp.toNat + 8 + sizeofSigcontext ≤ KERNEL_VIRT_ADDR ∧
    Machine.bytesAt m'.mem (m'.regs.esp.toNat + 8) sizeofSigcontext = Sigcontext.bytes ⟨m.blockedSignals, m.regs⟩ ∧
    ∀ a, a < m'.regs.esp.toNat ∨ m'.regs.esp.toNat + 8 + sizeofSigcontext ≤ a → m'.mem.byte a = m.mem.byte a := by
  unfold Machine.taskHandleSignal at h
  obtain ⟨mem₁, h1, h⟩ := bind_eq_some_iff.mp h
  obtain ⟨mem₂, h2, h⟩ := bind_eq_some_iff.mp h
  obtain ⟨mem₃, h3, h⟩ := bind_eq_some_iff.mp h
  generalize hA : sub32 (m.regs.esp.toNat / 16 * 16) sizeofSigcontext = A at h1 h2 h3 h
  have hAlt : A < 2 ^ 32 := hA ▸ sub32_lt _ _
  cases h
  obtain ⟨-, hle1, hby, hot1⟩ := copyOut_done hAlt (by rw [length_bytes]; decide) h1
  obtain ⟨-, hle2, -, hot2⟩ := copyOut_done (sub32_lt _ _) (by rw [length_le32]; decide) h2
  obtain ⟨-, hle3, -, hot3⟩ := copyOut_done (sub32_lt _ _) (by rw [length_le32]; decide) h3
  rw [length_bytes] at hle1 hby hot1
  rw [length_le32] at hle2 hot2 hle3 hot3
  -- No subtraction has wrapped around: the results are user addresses.
  have hB : sub32 A 4 + 4 = A := by
    unfold sub32 KERNEL_VIRT_ADDR at *
    omega
  have hC : sub32 (sub32 A 4) 4 + 8 = A := by
    unfold sub32 KERNEL_VIRT_ADDR at *
    omega
  have hesp : (BitVec.ofNat 32 (sub32 (sub32 A 4) 4)).toNat = sub32 (sub32 A 4) 4 := by
    rw [BitVec.toNat_ofNat]
    exact Nat.mod_eq_of_lt (sub32_lt _ _)
  rw [hesp]
  refine ⟨rfl, by omega, ?_, fun a ha => ?_⟩
  · rw [hC, ← hby]
    refine bytesAt_congr fun i _ => ?_
    rw [hot3 _ (.inr (by omega)), hot2 _ (.inr (by omega))]
  · rw [hot3 _ (by omega), hot2 _ (by omega), hot1 _ (by omega)]

/-! ## Returning -/

section
variable (s : Signals) (t : Nat) (k : SigTask)

/-- To the masks and pending signals the delivery is `Signals.taskHandleSignal`. -/
theorem taskHandleSignal_agrees (hk : k.blocked = m.blockedSignals) :
    s.taskHandleSignal t k signum action (m.taskHandleSignal signum action).isNone =
      match m.taskHandleSignal signum action with
      | none => s.doExitThreadGroup t k
      | some m' => s.setTask t { k with blocked := m'.blockedSignals, popped := none } := by
  cases h : m.taskHandleSignal signum action with
  | none => rfl
  | some m' =>
    unfold Machine.taskHandleSignal at h
    obtain ⟨_, -, h⟩ := bind_eq_some_iff.mp h
    obtain ⟨_, -, h⟩ := bind_eq_some_iff.mp h
    obtain ⟨_, -, h⟩ := bind_eq_some_iff.mp h
    cases h
    simp [Signals.taskHandleSignal, hk]

/-- The mask that `Signals.sysSigreturn` is given is the one on the stack. -/
theorem sysSigreturn_agrees :
    s.sysSigreturn t k ((m.copyFromUser (add32 m.regs.esp.toNat 4) sizeofSigcontext).map fun bytes =>
      (Sigcontext.ofWords (wordsOf bytes)).blockedSignals) =
      match m.sysSigreturn with
      | none => s.doExitThreadGroup t k
      | some (m₀, _) => s.setTask t { k with blocked := m₀.blockedSignals } := by
  unfold Machine.sysSigreturn
  cases m.copyFromUser (add32 m.regs.esp.toNat 4) sizeofSigcontext with
  | none => rfl
  | some bytes => rfl

end

structure Intact (m : Machine) (f : Frame) : Prop where
  bytes : Machine.bytesAt m.mem f.ctxAddr sizeofSigcontext = f.ctx.bytes
  range : f.ctxAddr + sizeofSigcontext ≤ KERNEL_VIRT_ADDR
  user : UserMode f.ctx.regs

theorem or_three {w : BitVec 32} (h : w &&& 3 = 3) : w ||| 3 = w := by
  apply BitVec.eq_of_getLsbD_eq
  intro i hi
  have hbit := congrArg (·.getLsbD i) h
  simp only [BitVec.getLsbD_and] at hbit
  rw [BitVec.getLsbD_or]
  cases h3 : (3 : BitVec 32).getLsbD i with
  | false => simp
  | true =>
    rw [h3] at hbit
    simpa using hbit

theorem merge_bits (v w mask : BitVec 32) : ((v &&& ~~~mask) ||| (w &&& mask)) &&& mask = w &&& mask ∧
      ((v &&& ~~~mask) ||| (w &&& mask)) &&& ~~~mask = v &&& ~~~mask := by
  constructor <;>
  · apply BitVec.eq_of_getLsbD_eq
    intro i hi
    simp only [BitVec.getLsbD_and, BitVec.getLsbD_or, BitVec.getLsbD_not, hi, decide_true, Bool.true_and]
    cases mask.getLsbD i <;> simp

theorem sysSigreturn_resumes (hf : Intact m f) (hesp : m.regs.esp = f.esp)
    (h : (m.throughRestorer f.restorer).sysSigreturn = some (m₀, ret)) :
    Resumes f.ctx (m₀.writeBack true ret signal) := by
  have har : add32 (m.regs.esp + 4).toNat 4 = f.ctxAddr := by
    have hr := hf.range
    unfold Frame.ctxAddr sizeofSigcontext KERNEL_VIRT_ADDR at *
    unfold add32
    rw [hesp, BitVec.toNat_add, show (4 : BitVec 32).toNat = 4 from rfl]
    omega
  obtain ⟨bytes, hre, h⟩ := bind_eq_some_iff.mp h
  obtain ⟨-, hre⟩ := ite_none_right_eq_some.mp hre
  rw [show add32 (m.throughRestorer f.restorer).regs.esp.toNat 4 = f.ctxAddr from har] at hre
  cases (hf.bytes.symm.trans (some.inj hre))
  rw [ofWords_bytes] at h
  cases h
  refine ⟨?_, ?_, rfl⟩
  · unfold Machine.writeBack
    rw [if_pos rfl]
    rw [or_three hf.user.1, or_three hf.user.2]
  · exact (merge_bits _ _ _).1

/-! ## What every step keeps -/

structure Inv (s : Machine × List Frame) : Prop where
  user : UserMode s.1.regs
  intact : ∀ f ∈ s.2, Intact s.1 f

theorem Intact.untouched (hf : Intact m f) (h : Untouched m m' fs) (hmem : f ∈ fs) : Intact m' f where
  bytes := (bytesAt_congr (h f hmem)).trans hf.bytes
  range := hf.range
  user := hf.user

theorem Inv.delivers {s' : Machine × List Frame} (h : Inv (m, fs)) (hd : Delivers m fs signal s') : Inv s' := by
  cases hd with
  | none => exact h
  | @handler signum action m' hso hcl =>
    obtain ⟨hre, hra, hby, hot⟩ := taskHandleSignal_frame hso
    constructor
    · rw [hre]
      exact h.user
    · intro f hf
      rcases mem_cons.mp hf with rfl | hold
      · exact ⟨hby, hra, h.user⟩
      · have hf' := h.intact f hold
        refine ⟨?_, hf'.range, hf'.user⟩
        rw [← hf'.bytes]
        refine bytesAt_congr fun i hi => hot _ ?_
        rcases hcl f hold with hlow | hhi
        · exact .inr (by omega)
        · exact .inl (by omega)

theorem writeBack_same (m : Machine) (noError : Bool) (ret : BitVec 32) (signal : Option (Nat × SigAction)) :
    (m.writeBack noError ret signal).mem = m.mem ∧ (m.writeBack noError ret signal).regs.cs = m.regs.cs ∧
      (m.writeBack noError ret signal).regs.ss = m.regs.ss := by
  unfold Machine.writeBack
  split_ifs <;> exact ⟨rfl, rfl, rfl⟩

theorem Inv.writeBack (h : Inv (m, fs)) (noError : Bool) (ret : BitVec 32) (signal : Option (Nat × SigAction)) :
    Inv (m.writeBack noError ret signal, fs) := by
  obtain ⟨hmem, hcs, hss⟩ := writeBack_same m noError ret signal
  constructor
  · unfold UserMode
    rw [hcs, hss]
    exact h.user
  · intro f hf
    have hsa : Untouched m (m.writeBack noError ret signal) fs := fun f _ i _ => by rw [hmem]
    exact (h.intact f hf).untouched hsa hf

structure Unforged (m m' : Machine) : Prop where
  user : UserMode m'.regs
  flags : m'.regs.eflags &&& ~~~FIX_EFLAGS = m.regs.eflags &&& ~~~FIX_EFLAGS
  mem : m'.mem = m.mem

theorem three_of_or (w : BitVec 32) : (w ||| 3) &&& 3 = 3 := by
  apply BitVec.eq_of_getLsbD_eq
  intro i _
  rw [BitVec.getLsbD_and, BitVec.getLsbD_or]
  cases (3 : BitVec 32).getLsbD i <;> simp

theorem sysSigreturn_unforged (h : m.sysSigreturn = some (m₀, ret)) : Unforged m m₀ := by
  obtain ⟨bytes, -, h⟩ := bind_eq_some_iff.mp h
  cases h
  exact ⟨⟨three_of_or _, three_of_or _⟩, (merge_bits _ _ _).2, rfl⟩

theorem Inv.step {s s' : Machine × List Frame} {e : Unit} (h : Inv s) (hst : Step s e s') : Inv s' := by
  cases hst with
  | user hus hsa => exact ⟨hus, fun f hf => (h.intact f hf).untouched hsa hf⟩
  | tick hd => exact h.delivers hd
  | @syscall m m₀ fs ret signal s' hre hsa hd =>
    have h0 : Inv (m₀, fs) := ⟨by rw [hre]; exact h.user, fun f hf => (h.intact f hf).untouched hsa hf⟩
    exact (h0.writeBack false ret signal).delivers hd
  | @returns m m₀ f fs ret signal s' hesp hret hd =>
    have hun := sysSigreturn_unforged hret
    have h0 : Inv (m₀, fs) := by
      have hsa : Untouched m m₀ fs := fun f _ i _ => by rw [hun.mem]; rfl
      exact ⟨hun.user, fun g hg => (h.intact g (.tail _ hg)).untouched hsa hg⟩
    exact (h0.writeBack true ret signal).delivers hd

end

def EFLAGS_IF : BitVec 32 := 0x200
def EFLAGS_IOPL : BitVec 32 := 0x3000

/-- A handler that comes back through the restorer resumes what it interrupted, and no context leaves user mode. -/
theorem signal_frames_sound :
    (∀ (m₀ m m' m₁ m₂ : Machine) (fs : List Frame) (f : Frame) (signum : Nat) (action : SigAction) (ret : BitVec 32)
        (signal : Option (Nat × SigAction)), UserMode m₀.regs → Run Step (fun _ _ => True) (m₀, []) (m, fs) →
      Delivers m fs (some (signum, action)) (m', f :: fs) → Run Step (fun _ _ => True) (m', f :: fs) (m₁, f :: fs) →
      m₁.regs.esp = f.esp → (m₁.throughRestorer action.restorer).sysSigreturn = some (m₂, ret) →
      Resumes ⟨m.blockedSignals, m.regs⟩ (m₂.writeBack true ret signal)) ∧
    ∀ (m m' : Machine) (ret : BitVec 32), m.sysSigreturn = some (m', ret) →
      m'.regs.cs &&& 3 = 3 ∧ m'.regs.ss &&& 3 = 3 ∧
      m'.regs.eflags &&& ~~~FIX_EFLAGS = m.regs.eflags &&& ~~~FIX_EFLAGS ∧
      m'.regs.eflags &&& (EFLAGS_IF ||| EFLAGS_IOPL) = m.regs.eflags &&& (EFLAGS_IF ||| EFLAGS_IOPL) := by
  refine ⟨?_, ?_⟩
  · intro m₀ m m' m₁ m₂ fs f signum action ret signal hu hr hd hr' hesp hret
    have hinv {s s' : Machine × List Frame} (hs : Inv s) (hr : Run Step (fun _ _ => True) s s') : Inv s' :=
      hr.invariant hs fun _ _ _ hs hst _ => hs.step hst
    have hm : Inv (m, fs) := hinv ⟨hu, fun f hf => absurd hf not_mem_nil⟩ hr
    have hm₁ : Inv (m₁, f :: fs) := hinv (hm.delivers hd) hr'
    have hf := hm₁.intact f (.head _)
    cases hd with
    | handler _ _ => exact sysSigreturn_resumes hf hesp hret
  · intro m m' ret h
    have hun := sysSigreturn_unforged h
    refine ⟨hun.user.1, hun.user.2, hun.flags, ?_⟩
    have hma : EFLAGS_IF ||| EFLAGS_IOPL = ~~~FIX_EFLAGS &&& (EFLAGS_IF ||| EFLAGS_IOPL) := by decide
    rw [hma, ← BitVec.and_assoc, ← BitVec.and_assoc, hun.flags]

def demo : Machine where
  regs := ⟨0, 0, 0x23, 0x23, 1, 2, 3, 4, 5, 6, 7, 0, 0, 0x8000, 0x1b, 0x202, 0xbfff0008, 0x23⟩
  mem := ⟨fun _ => true, fun _ => 0⟩
  readable _ := true
  blockedSignals := 0x10

def demoAction : SigAction := ⟨0x9000, 0x20, SA_RESTORER, 0xa000⟩

def demoRun : Option (Machine × Machine × Machine × Machine × BitVec 32) := do
  let m' ← demo.taskHandleSignal 10 demoAction
  let m'' ← m'.taskHandleSignal 14 demoAction
  let (m₀, ret) ← (m''.throughRestorer 0xa000).sysSigreturn
  let m₁ := m₀.writeBack true ret none
  let (m₂, ret) ← (m₁.throughRestorer 0xa000).sysSigreturn
  if m''.regs.esp.toNat + 8 + sizeofSigcontext ≤ m'.regs.esp.toNat + 8 ∧ m₁.regs.esp = m'.regs.esp then
    some (m', m'', m₁, m₂, ret)
  else none

theorem signal_frames_nested : ∃ m' m'' m₁ m₂ ret, demoRun = some (m', m'', m₁, m₂, ret) ∧
      Resumes ⟨demo.blockedSignals, demo.regs⟩ (m₂.writeBack true ret none) := by
  have hso : demoRun.isSome = true := by decide +kernel
  obtain ⟨⟨m', m'', m₁, m₂, ret⟩, hrun⟩ := isSome_iff_exists.mp hso
  refine ⟨m', m'', m₁, m₂, ret, hrun, ?_⟩
  unfold demoRun at hrun
  obtain ⟨a, hfi, hrun⟩ := bind_eq_some_iff.mp hrun
  obtain ⟨b, hse, hrun⟩ := bind_eq_some_iff.mp hrun
  obtain ⟨⟨m₀, ret₀⟩, hin, hrun⟩ := bind_eq_some_iff.mp hrun
  obtain ⟨⟨c, ret₁⟩, hou, hrun⟩ := bind_eq_some_iff.mp hrun
  dsimp only at hrun hou
  split at hrun
  · rename_i hst
    cases hrun
    have hd : Delivers demo [] (some (10, demoAction))
        (m', [⟨m'.regs.esp, ⟨demo.blockedSignals, demo.regs⟩, 0xa000⟩]) :=
      .handler hfi nofun
    have hd' : Delivers m' [⟨m'.regs.esp, ⟨demo.blockedSignals, demo.regs⟩, 0xa000⟩] (some (14, demoAction))
        (m'', _) :=
      .handler hse fun f hf => by
        rw [mem_singleton.mp hf]
        exact .inl hst.1
    refine signal_frames_sound.1 demo demo m' _ m₂ [] _ 10 demoAction ret none ⟨rfl, rfl⟩ (.refl _) hd ?_ hst.2
      hou
    exact .tail (.tail (.refl _) (.tick hd') trivial) (.returns rfl hin .none) trivial
  · cases hrun

end SignalFrame

end Yagura
