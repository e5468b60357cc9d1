import Yagura.MutexWord

/-!
# The steps of a spinlock

`spinlock_lock` and `spinlock_unlock` of `lock.c`, one access to shared memory
or to the interrupt flag at a time. A CPU has at most one call under way, since
its interrupts are off from the time it reads its own id. The steps refine the
locks of `Mutexes` with CPUs as holders: a CPU gives a spinlock up when it
clears the lock word, before it turns interrupts on again.
-/

namespace Yagura

open Function List

namespace Locks

/-! ## The code -/

def SPINLOCK_LOCKED : BitVec 32 := 1
def SPINLOCK_PUSHED_INTERRUPT : BitVec 32 := 2

structure Spinlock where
  level : BitVec 32
  lock : BitVec 32

inductive SpinPc
  | lockFlag | lockCli (pushed : Bool) | lockId (pushed : Bool) | lockCas (pushed : Bool) (cpuId : BitVec 8)
  | lockFresh | lockLoad | lockStore (level : BitVec 32)
  | unlockWord | unlockLoad (v : BitVec 32) | unlockStore (v level : BitVec 32) | unlockFree (v : BitVec 32)
  | unlockSti (v : BitVec 32)
  deriving DecidableEq

def desired (pushed : Bool) (cpuId : BitVec 8) : BitVec 32 :=
  SPINLOCK_LOCKED ||| (if pushed then SPINLOCK_PUSHED_INTERRUPT else 0) ||| cpuId.setWidth 32 <<< 2

/-- A step on the CPU `cpuId` whose interrupt flag is `flag`; `none`: an assertion fails. -/
def spinStep (s : Spinlock) (cpuId : BitVec 8) (flag : Bool) : SpinPc → Option (Spinlock × Bool × After SpinPc)
  | .lockFlag => some (s, flag, .goto (.lockCli flag))
  | .lockCli pushed => some (s, false, .goto (.lockId pushed))
  | .lockId pushed => some (s, flag, .goto (.lockCas pushed cpuId))
  | .lockCas pushed id =>
    if s.lock = 0 then some ({ s with lock := desired pushed id }, flag, .goto .lockFresh)
    else if s.lock >>> 2 = id.setWidth 32 then
      if s.lock &&& SPINLOCK_LOCKED = 0 then none else some (s, flag, .goto .lockLoad)
    else some (s, flag, .goto (.lockCas pushed id))
  | .lockFresh => if s.level = 0 then some (s, flag, .goto .lockLoad) else none
  | .lockLoad => some (s, flag, .goto (.lockStore s.level))
  | .lockStore level => some ({ s with level := level + 1 }, flag, .locked)
  | .unlockWord =>
    if s.lock &&& SPINLOCK_LOCKED = 0 ∨ s.lock >>> 2 ≠ cpuId.setWidth 32 then none
    else some (s, flag, .goto (.unlockLoad s.lock))
  | .unlockLoad v => if s.level = 0 then none else some (s, flag, .goto (.unlockStore v s.level))
  | .unlockStore v level =>
    some ({ s with level := level - 1 }, flag, if level - 1 = 0 then .goto (.unlockFree v) else .unlocked)
  | .unlockFree v => some ({ s with lock := 0 }, flag, .freed (.unlockSti v))
  | .unlockSti v => some (s, if v &&& SPINLOCK_PUSHED_INTERRUPT = 0 then flag else true, .returned)

/-! ## Lock words -/

def wordOf (c : Nat) (pushed : Bool) : BitVec 32 := desired pushed (BitVec.ofNat 8 c)

theorem desired_ne_zero (pushed : Bool) (id : BitVec 8) : desired pushed id ≠ 0 := by
  revert id
  cases pushed <;> decide +kernel

theorem desired_locked (pushed : Bool) (id : BitVec 8) : desired pushed id &&& SPINLOCK_LOCKED ≠ 0 := by
  revert id
  cases pushed <;> decide +kernel

theorem desired_shift (pushed : Bool) (id : BitVec 8) : desired pushed id >>> 2 = id.setWidth 32 := by
  revert id
  cases pushed <;> decide +kernel

theorem desired_pushed (pushed : Bool) (id : BitVec 8) :
    (desired pushed id &&& SPINLOCK_PUSHED_INTERRUPT = 0) ↔ pushed = false := by
  revert id
  cases pushed <;> decide +kernel

theorem wordOf_shift_iff {c d : Nat} (hc : c < 256) (hd : d < 256) (pushed : Bool) :
    wordOf c pushed >>> 2 = (BitVec.ofNat 8 d).setWidth 32 ↔ c = d := by
  rw [wordOf, desired_shift]
  constructor
  · intro h
    have hnat := congrArg BitVec.toNat h
    simp only [BitVec.toNat_setWidth, BitVec.toNat_ofNat] at hnat
    omega
  · rintro rfl
    rfl

theorem wordOf_cpu {c d : Nat} {b b' : Bool} (hc : c < 256) (hd : d < 256) (h : wordOf c b = wordOf d b') :
    c = d := by
  rw [← wordOf_shift_iff hc hd b, h, wordOf, desired_shift]

/-! ## The invariant -/

namespace SpinPc

def masks : SpinPc → Bool
  | lockId _ | lockCas _ _ | lockFresh | lockLoad | lockStore _ | unlockSti _ => true
  | _ => false

def owns : SpinPc → Bool
  | lockFresh | lockLoad | lockStore _ | unlockWord | unlockLoad _ | unlockStore _ _ | unlockFree _ => true
  | _ => false

def takes : SpinPc → Bool
  | lockFresh | lockLoad | lockStore _ => true
  | _ => false

def unlocks : SpinPc → Bool
  | unlockWord | unlockLoad _ | unlockStore _ _ | unlockFree _ => true
  | _ => false

end SpinPc

/-- All spinlocks, and for each CPU its interrupt flag, the flag that the code outside these functions has set, the
spinlocks that it has locked, latest first, and the call it is in. -/
structure SpinView where
  spin : Nat → Spinlock
  flag : Nat → Bool
  outer : Nat → Bool
  held : Nat → List Nat
  pc : Nat → Option (Nat × SpinPc)

namespace SpinView

def want (v : SpinView) (c : Nat) : Bool := v.outer c && (v.held c).isEmpty

def masked (v : SpinView) (c : Nat) : Bool := (v.pc c).any fun call => call.2.masks

/-- The flag that is saved in the word of a lock: that of the outermost one has the flag from outside. -/
def pushed (v : SpinView) (c s : Nat) : Bool := v.outer c && (v.held c).getLast? == some s

def put (v : SpinView) (c s : Nat) (sp : Spinlock) (flag : Bool) (pc : Option SpinPc) (held : List Nat) :
    SpinView where
  spin := update v.spin s sp
  flag := update v.flag c flag
  outer := v.outer
  held := update v.held c held
  pc := update v.pc c (pc.map (s, ·))

section
variable (a : Mutexes Nat) (v : SpinView)

def Taking (c s : Nat) : Prop :=
  (a.holder s = none ∧ (v.spin s).lock = wordOf c (v.want c)) ∨ a.holder s = some c

def At (c s : Nat) : SpinPc → Prop
  | .lockFlag => True
  | .lockCli pushed | .lockId pushed => pushed = v.want c
  | .lockCas pushed id => pushed = v.want c ∧ id = BitVec.ofNat 8 c
  | .lockFresh => a.holder s = none ∧ (v.spin s).lock = wordOf c (v.want c)
  | .lockLoad => Taking a v c s
  | .lockStore level => Taking a v c s ∧ (v.spin s).level = level
  | .unlockWord => ∃ rest, v.held c = s :: rest
  | .unlockLoad w => (∃ rest, v.held c = s :: rest) ∧ (v.spin s).lock = w
  | .unlockStore w level => (∃ rest, v.held c = s :: rest) ∧ (v.spin s).lock = w ∧ (v.spin s).level = level
  | .unlockFree w =>
    (∃ rest, v.held c = s :: rest) ∧ (v.spin s).lock = w ∧ (v.spin s).level = 0 ∧ a.level s = 1
  | .unlockSti w => (w &&& SPINLOCK_PUSHED_INTERRUPT = 0) ↔ v.want c = false

def Free (s : Nat) : Prop :=
  (v.spin s).level = 0 ∧ ((v.spin s).lock = 0 ∨
    ∃ c p, v.pc c = some (s, p) ∧ p.takes = true ∧ (v.spin s).lock = wordOf c (v.want c))

def Owned (c s : Nat) : Prop :=
  (v.spin s).lock = wordOf c (v.pushed c s) ∧
    ((∀ w, v.pc c ≠ some (s, .unlockFree w)) → (v.spin s).level.toNat = a.level s)

structure Inv : Prop where
  holds : a.Holds v.held
  small : ∀ c, v.pc c ≠ none ∨ v.held c ≠ [] → c < 256
  flag : ∀ c, v.flag c = (v.want c && !v.masked c)
  free : ∀ s, a.holder s = none → v.Free s
  owned : ∀ s c, a.holder s = some c → v.Owned a c s
  call : ∀ {c s p}, v.pc c = some (s, p) → v.At a c s p

end

section
variable {a a' : Mutexes Nat} {v : SpinView} {c s : Nat} {p : SpinPc}
  {flag : Bool} {rest : List Nat} {pc : Option SpinPc} {level : BitVec 32}

theorem Inv.word (h : Inv a v) (hpc : v.pc c = some (s, p)) (ho : p.owns = true) :
    ∃ b, (v.spin s).lock = wordOf c b := by
  have hhe (hs : ∃ rest, v.held c = s :: rest) : ∃ b, (v.spin s).lock = wordOf c b := by
    obtain ⟨rest, hs⟩ := hs
    have hmem : s ∈ v.held c := by rw [hs]; exact mem_cons_self ..
    exact ⟨_, (h.owned s c ((h.holds.mem c s).mp hmem)).1⟩
  have hta (ht : v.Taking a c s) : ∃ b, (v.spin s).lock = wordOf c b := by
    rcases ht with ⟨-, hw⟩ | hse
    · exact ⟨_, hw⟩
    · exact ⟨_, (h.owned s c hse).1⟩
  have hca := h.call hpc
  cases p with
  | lockFresh => exact ⟨_, hca.2⟩
  | lockLoad => exact hta hca
  | lockStore level => exact hta hca.1
  | unlockWord => exact hhe hca
  | unlockLoad | unlockStore | unlockFree => exact hhe hca.1
  | _ => cases ho

theorem Inv.lt (h : Inv a v) (hpc : v.pc c = some (s, p)) : c < 256 :=
  h.small c (.inl (by rw [hpc]; exact nofun))

theorem Inv.alone (h : Inv a v) (hpc : v.pc c = some (s, p)) (ho : p.owns = true) :
    ∀ d, d ≠ c → ∀ p', v.pc d = some (s, p') → p'.owns = false := by
  intro d hdc p' hp'
  rw [← Bool.not_eq_true]
  intro ho'
  obtain ⟨b, hb⟩ := h.word hpc ho
  obtain ⟨b', hb'⟩ := h.word hp' ho'
  exact hdc (wordOf_cpu (h.lt hp') (h.lt hpc) (hb'.symm.trans hb))

theorem Inv.alone_free (h : Inv a v) (hze : (v.spin s).lock = 0) :
    ∀ d, d ≠ c → ∀ p', v.pc d = some (s, p') → p'.owns = false := by
  intro d _ p' hp'
  rw [← Bool.not_eq_true]
  intro ho'
  obtain ⟨b, hb⟩ := h.word hp' ho'
  exact desired_ne_zero _ _ (hb.symm.trans hze)

section
variable {sp : Spinlock} {flag : Bool} {pc : Option SpinPc} {held : List Nat} {d s' : Nat}

theorem put_spin : (v.put c s sp flag pc held).spin s = sp := update_self ..

theorem put_spin_ne (h : s' ≠ s) : (v.put c s sp flag pc held).spin s' = v.spin s' := update_of_ne h ..

theorem put_pc : (v.put c s sp flag pc held).pc c = pc.map (s, ·) := update_self ..

theorem put_pc_ne (h : d ≠ c) : (v.put c s sp flag pc held).pc d = v.pc d := update_of_ne h ..

theorem put_held : (v.put c s sp flag pc held).held c = held := update_self ..

theorem put_held_ne (h : d ≠ c) : (v.put c s sp flag pc held).held d = v.held d := update_of_ne h ..

theorem put_flag : (v.put c s sp flag pc held).flag c = flag := update_self ..

theorem put_flag_ne (h : d ≠ c) : (v.put c s sp flag pc held).flag d = v.flag d := update_of_ne h ..

theorem put_want : (v.put c s sp flag pc held).want c = (v.outer c && held.isEmpty) := by
  rw [want, put_held]
  rfl

theorem put_want_ne (h : d ≠ c) : (v.put c s sp flag pc held).want d = v.want d := by
  rw [want, want, put_held_ne h]
  rfl

theorem put_pushed_ne (h : d ≠ c) : (v.put c s sp flag pc held).pushed d s' = v.pushed d s' := by
  rw [pushed, pushed, put_held_ne h]
  rfl

theorem put_masked : (v.put c s sp flag pc held).masked c = pc.any SpinPc.masks := by
  rw [masked, put_pc]
  cases pc <;> rfl

theorem put_masked_ne (h : d ≠ c) : (v.put c s sp flag pc held).masked d = v.masked d := by
  rw [masked, masked, put_pc_ne h]

theorem at_put_ne (hdc : d ≠ c) {p' : SpinPc} (h : v.At a d s' p') (hs : s' = s → p'.owns = false)
    (hot : s' ≠ s → a'.holder s' = a.holder s' ∧ a'.level s' = a.level s') :
    (v.put c s sp flag pc held).At a' d s' p' := by
  by_cases hss : s' = s
  · have ho := hs hss
    cases p' with
    | lockFlag => trivial
    | lockCli | lockId => exact Eq.trans h (put_want_ne hdc).symm
    | lockCas b id => exact ⟨h.1.trans (put_want_ne hdc).symm, h.2⟩
    | unlockSti w =>
      show _ ↔ _
      rw [put_want_ne hdc]
      exact h
    | _ => cases ho
  · obtain ⟨hho, hle⟩ := hot hss
    cases p' with
    | lockFlag => trivial
    | _ => simpa only [At, Taking, put_want_ne hdc, put_spin_ne hss, put_held_ne hdc, hho, hle] using h

theorem Inv.put (h : Inv a v) (hpc : v.pc c = some (s, p))
    (hal : ∀ d, d ≠ c → ∀ p', v.pc d = some (s, p') → p'.owns = false)
    (hot : ∀ s', s' ≠ s → a'.holder s' = a.holder s' ∧ a'.level s' = a.level s')
    (hho : a'.Holds (update v.held c held))
    (hla : ∀ s' ∈ v.held c, s' ≠ s → held.getLast? = (v.held c).getLast?)
    (hfl : flag = ((v.outer c && held.isEmpty) && !pc.any SpinPc.masks))
    (hfr : a'.holder s = none → (v.put c s sp flag pc held).Free s)
    (hon : ∀ d, a'.holder s = some d → (v.put c s sp flag pc held).Owned a' d s)
    (hca : ∀ p', pc = some p' → (v.put c s sp flag pc held).At a' c s p') :
    Inv a' (v.put c s sp flag pc held) := by
  -- The call of CPU `c` is on `s` before and after.
  have hse {s' p'} (hss : s' ≠ s) : (v.put c s sp flag pc held).pc c ≠ some (s', p') := by
    rw [put_pc]
    intro heq
    obtain ⟨q, -, hq⟩ := Option.map_eq_some_iff.mp heq
    cases hq
    exact hss rfl
  refine ⟨hho, fun d hd => ?_, fun d => ?_, fun s' hs' => ?_, fun s' d hs' => ?_, fun {d s' p'} hp' => ?_⟩
  · by_cases hdc : d = c
    · subst hdc
      exact h.lt hpc
    · rw [put_pc_ne hdc, put_held_ne hdc] at hd
      exact h.small d hd
  · by_cases hdc : d = c
    · subst hdc
      rw [put_want, put_masked, ← hfl]
      exact update_self ..
    · rw [put_want_ne hdc, put_masked_ne hdc, ← h.flag d]
      exact update_of_ne hdc ..
  · by_cases hss : s' = s
    · subst hss
      exact hfr hs'
    · obtain ⟨hle, hwo⟩ := h.free s' ((hot s' hss).1 ▸ hs')
      unfold Free
      rw [put_spin_ne hss]
      refine ⟨hle, hwo.imp_right ?_⟩
      rintro ⟨d, q, hq, hta, hw⟩
      have hdc : d ≠ c := by
        rintro rfl
        rw [hpc] at hq
        cases hq
        exact hss rfl
      exact ⟨d, q, by rw [put_pc_ne hdc]; exact hq, hta, by rw [put_want_ne hdc]; exact hw⟩
  · by_cases hss : s' = s
    · subst hss
      exact hon d hs'
    · have hs := (hot s' hss).1 ▸ hs'
      obtain ⟨hwo, hle⟩ := h.owned s' d hs
      unfold Owned
      rw [put_spin_ne hss, (hot s' hss).2]
      by_cases hdc : d = c
      · subst hdc
        have hl := hla s' ((h.holds.mem d s').mpr hs) hss
        refine ⟨?_, fun _ => hle fun w => ?_⟩
        · rw [pushed, put_held, hl]
          exact hwo
        · rw [hpc]
          rintro ⟨⟩
          exact hss rfl
      · rw [put_pushed_ne hdc, put_pc_ne hdc]
        exact ⟨hwo, hle⟩
  · by_cases hdc : d = c
    · subst hdc
      by_cases hss : s' = s
      · rw [put_pc] at hp'
        obtain ⟨q, hq, heq⟩ := Option.map_eq_some_iff.mp hp'
        cases heq
        exact hca _ hq
      · exact absurd hp' (hse hss)
    · rw [put_pc_ne hdc] at hp'
      exact at_put_ne hdc (h.call hp') (fun hss => hal d hdc p' (hss ▸ hp')) (hot s')

end

/-! ## Changes of one CPU that leave the spinlocks alone -/

def setCpu (v : SpinView) (c : Nat) (outer flag : Bool) (pc : Option (Nat × SpinPc)) : SpinView where
  spin := v.spin
  flag := update v.flag c flag
  outer := update v.outer c outer
  held := v.held
  pc := update v.pc c pc

section
variable {outer flag : Bool} {pc : Option (Nat × SpinPc)} {d s' : Nat}

theorem setCpu_pc : (v.setCpu c outer flag pc).pc c = pc := update_self ..

theorem setCpu_pc_ne (h : d ≠ c) : (v.setCpu c outer flag pc).pc d = v.pc d := update_of_ne h ..

theorem setCpu_flag : (v.setCpu c outer flag pc).flag c = flag := update_self ..

theorem setCpu_flag_ne (h : d ≠ c) : (v.setCpu c outer flag pc).flag d = v.flag d := update_of_ne h ..

theorem setCpu_outer : (v.setCpu c outer flag pc).outer c = outer := update_self ..

theorem setCpu_outer_ne (h : d ≠ c) : (v.setCpu c outer flag pc).outer d = v.outer d := update_of_ne h ..

theorem setCpu_spin : (v.setCpu c outer flag pc).spin = v.spin := rfl

theorem setCpu_held : (v.setCpu c outer flag pc).held = v.held := rfl

theorem setCpu_want : (v.setCpu c outer flag pc).want c = (outer && (v.held c).isEmpty) := by
  show (update v.outer c outer c && _) = _
  rw [update_self]
  rfl

theorem setCpu_want_ne (h : d ≠ c) : (v.setCpu c outer flag pc).want d = v.want d := by
  show (update v.outer c outer d && _) = _
  rw [update_of_ne h]
  rfl

theorem setCpu_pushed_ne (h : d ≠ c) : (v.setCpu c outer flag pc).pushed d s' = v.pushed d s' := by
  show (update v.outer c outer d && _) = _
  rw [update_of_ne h]
  rfl

theorem Inv.setCpu (h : Inv a v) (hsm : pc ≠ none → c < 256) (hou : outer = v.outer c ∨ v.held c = [])
    (hfl : flag = ((outer && (v.held c).isEmpty) && !pc.any fun call => call.2.masks))
    (hta : ∀ s p, v.pc c = some (s, p) → p.takes = true →
      outer = v.outer c ∧ ∃ p', pc = some (s, p') ∧ p'.takes = true)
    (hfr : ∀ s w, v.pc c ≠ some (s, .unlockFree w))
    (hca : ∀ s p', pc = some (s, p') → (v.setCpu c outer flag pc).At a c s p') :
    Inv a (v.setCpu c outer flag pc) := by
  refine ⟨h.holds, fun d hd => ?_, fun d => ?_, fun s' hs' => ?_, fun s' d hs' => ?_, fun {d s' p'} hp' => ?_⟩
  · by_cases hdc : d = c
    · subst hdc
      rw [setCpu_pc] at hd
      exact hd.elim hsm fun hhe => h.small d (.inr hhe)
    · rw [setCpu_pc_ne hdc] at hd
      exact h.small d hd
  · by_cases hdc : d = c
    · subst hdc
      rw [setCpu_want, masked, setCpu_pc, ← hfl]
      exact update_self ..
    · rw [setCpu_want_ne hdc, masked, setCpu_pc_ne hdc, ← masked, ← h.flag d]
      exact update_of_ne hdc ..
  · obtain ⟨hle, hwo⟩ := h.free s' hs'
    refine ⟨hle, hwo.imp_right ?_⟩
    rintro ⟨d, q, hq, ht, hw⟩
    by_cases hdc : d = c
    · subst hdc
      obtain ⟨ho, q', hq', ht'⟩ := hta s' q hq ht
      refine ⟨d, q', by rw [setCpu_pc]; exact hq', ht', ?_⟩
      rw [setCpu_want, ho]
      exact hw
    · exact ⟨d, q, by rw [setCpu_pc_ne hdc]; exact hq, ht, by rw [setCpu_want_ne hdc]; exact hw⟩
  · obtain ⟨hwo, hle⟩ := h.owned s' d hs'
    by_cases hdc : d = c
    · subst hdc
      have hmem : s' ∈ v.held d := (h.holds.mem d s').mpr hs'
      have ho : outer = v.outer d := hou.resolve_right fun hnil => by rw [hnil] at hmem; cases hmem
      refine ⟨?_, fun _ => hle (hfr s')⟩
      show (v.spin s').lock = wordOf d (update v.outer d outer d && _)
      rw [update_self, ho]
      exact hwo
    · refine ⟨?_, fun hne => hle fun w => ?_⟩
      · rw [setCpu_pushed_ne hdc]
        exact hwo
      · rw [← setCpu_pc_ne hdc]
        exact hne w
  · by_cases hdc : d = c
    · subst hdc
      rw [setCpu_pc] at hp'
      exact hca s' p' hp'
    · rw [setCpu_pc_ne hdc] at hp'
      have hat := h.call hp'
      cases p' with
      | lockFlag => trivial
      | _ => simpa only [At, Taking, setCpu_want_ne hdc, setCpu_spin, setCpu_held] using hat

end

/-! ## The steps -/

def Result (a : Mutexes Nat) (v : SpinView) (c s : Nat) (p : SpinPc) (sp : Spinlock) (flag : Bool) :
    After SpinPc → Prop
  | .goto p' => p'.unlocks = p.unlocks ∧ Inv a (v.put c s sp flag (some p') (v.held c))
  | .locked => p.unlocks = false ∧ ∃ a', Inv a' (v.put c s sp flag none (s :: v.held c))
  | .unlocked => p.unlocks = true ∧ ∃ a', Inv a' (v.put c s sp flag none (v.held c).tail)
  | .freed p' =>
    p.unlocks = true ∧ p'.unlocks = false ∧ ∃ a', Inv a' (v.put c s sp flag (some p') (v.held c).tail)
  | .returned => p.unlocks = false ∧ Inv a (v.put c s sp flag none (v.held c))

theorem put_want_self {sp : Spinlock} : (v.put c s sp flag pc (v.held c)).want c = v.want c := put_want

theorem at_put_self {p' : SpinPc} (h : v.At a c s p') : (v.put c s (v.spin s) flag pc (v.held c)).At a c s p' := by
  cases p' with
  | lockFlag => trivial
  | _ => simpa only [At, Taking, put_want_self, put_spin, put_held] using h

theorem Inv.masked_eq (hpc : v.pc c = some (s, p)) : v.masked c = p.masks := by
  rw [masked, hpc]
  rfl

theorem Inv.move (h : Inv a v) (hpc : v.pc c = some (s, p)) (pc : Option SpinPc)
    (hta : p.takes = true → ∃ p', pc = some p' ∧ p'.takes = true) (hfr : ∀ w, p ≠ .unlockFree w)
    (hfl : flag = (v.want c && !pc.any SpinPc.masks)) (hca : ∀ p', pc = some p' → v.At a c s p') :
    Inv a (v.put c s (v.spin s) flag pc (v.held c)) := by
  have heq : v.put c s (v.spin s) flag pc (v.held c) = v.setCpu c (v.outer c) flag (pc.map (s, ·)) := by
    simp only [SpinView.put, SpinView.setCpu, update_eq_self]
  rw [heq]
  refine h.setCpu (fun _ => h.lt hpc) (.inl rfl) ?_ (fun s' q hq ht => ?_) (fun s' w => ?_) fun s' q hq => ?_
  · rw [hfl]
    cases pc <;> rfl
  · rw [hpc] at hq
    cases hq
    obtain ⟨p', hp', ht'⟩ := hta ht
    exact ⟨rfl, p', by rw [hp']; rfl, ht'⟩
  · rw [hpc]
    rintro ⟨⟩
    exact hfr w rfl
  · obtain ⟨p', hp', hq⟩ := Option.map_eq_some_iff.mp hq
    cases hq
    rw [← heq]
    exact at_put_self (hca _ hp')

theorem Inv.holder_of_word (h : Inv a v) (hpc : v.pc c = some (s, p)) (ht : p.takes = false)
    (hne : (v.spin s).lock ≠ 0) (hwo : (v.spin s).lock >>> 2 = (BitVec.ofNat 8 c).setWidth 32) :
    a.holder s = some c := by
  have hc := h.lt hpc
  cases hho : a.holder s with
  | none =>
    obtain ⟨-, hze | ⟨d, q, hq, hta, hw⟩⟩ := h.free s hho
    · exact absurd hze hne
    · rw [hw, wordOf_shift_iff (h.lt hq) hc] at hwo
      subst hwo
      rw [hpc] at hq
      cases hq
      rw [ht] at hta
      cases hta
  | some d =>
    have hmem : s ∈ v.held d := (h.holds.mem d s).mpr hho
    have hd : d < 256 := h.small d (.inr (ne_nil_of_mem hmem))
    rw [(h.owned s d hho).1, wordOf_shift_iff hd hc] at hwo
    rw [hwo]

theorem Inv.holder_of_head (h : Inv a v) (hs : v.held c = s :: rest) : a.holder s = some c :=
  (h.holds.mem c s).mp (by rw [hs]; exact mem_cons_self ..)

theorem Inv.holder_none (h : Inv a v) (hze : (v.spin s).lock = 0) : a.holder s = none := by
  cases hho : a.holder s with
  | none => rfl
  | some d => exact absurd ((h.owned s d hho).1.symm.trans hze) (desired_ne_zero _ _)

theorem want_of_held {x : Nat} (hs : v.held c = x :: rest) : v.want c = false := by
  rw [want, hs]
  exact Bool.and_false _

theorem Inv.lockCas {pushed : Bool} {id : BitVec 8} (h : Inv a v) (hpc : v.pc c = some (s, .lockCas pushed id)) :
    ∃ sp flag after, spinStep (v.spin s) (BitVec.ofNat 8 c) (v.flag c) (.lockCas pushed id) = some (sp, flag, after) ∧
      Result a v c s (.lockCas pushed id) sp flag after := by
  obtain ⟨hpu, rfl⟩ := h.call hpc
  have hfl : v.flag c = false := by rw [h.flag, Inv.masked_eq hpc]; exact Bool.and_false _
  by_cases hze : (v.spin s).lock = 0
  · have hnn := h.holder_none hze
    refine ⟨_, _, _, if_pos hze, rfl, ?_⟩
    refine h.put hpc (h.alone_free hze) (fun _ _ => ⟨rfl, rfl⟩) ?_ (fun _ _ _ => rfl) ?_ (fun _ => ?_)
      (fun d hd => ?_) ?_
    · rw [update_eq_self]
      exact h.holds
    · rw [hfl]
      exact (Bool.and_false _).symm
    · refine ⟨?_, .inr ⟨c, .lockFresh, put_pc, rfl, ?_⟩⟩
      · rw [put_spin]
        exact (h.free s hnn).1
      · rw [put_spin, put_want_self, ← hpu]
        rfl
    · rw [hnn] at hd
      cases hd
    · rintro _ ⟨⟩
      refine ⟨hnn, ?_⟩
      rw [put_spin, put_want_self, ← hpu]
      rfl
  · have hst : v.flag c = (v.want c && !(some (SpinPc.lockCas pushed (BitVec.ofNat 8 c))).any SpinPc.masks) := by
      rw [hfl]
      exact (Bool.and_false _).symm
    by_cases hwo : (v.spin s).lock >>> 2 = (BitVec.ofNat 8 c).setWidth 32
    · have hho := h.holder_of_word hpc rfl hze hwo
      have hlo : ¬ (v.spin s).lock &&& SPINLOCK_LOCKED = 0 := by
        rw [(h.owned s c hho).1]
        exact desired_locked _ _
      refine ⟨_, _, _, (if_neg hze).trans ((if_pos hwo).trans (if_neg hlo)), rfl, ?_⟩
      refine h.move hpc (some .lockLoad) nofun nofun hst ?_
      rintro _ ⟨⟩
      exact .inr hho
    · refine ⟨_, _, _, (if_neg hze).trans (if_neg hwo), rfl, ?_⟩
      refine h.move hpc (some (.lockCas pushed (BitVec.ofNat 8 c))) nofun nofun hst ?_
      rintro _ ⟨⟩
      exact ⟨hpu, rfl⟩

theorem Inv.pushed_lock (h : Inv a v) (hnn : a.holder s = none) :
    v.want c = (v.outer c && (s :: v.held c).getLast? == some s) := by
  have hnot : s ∉ v.held c := fun hmem => by
    rw [(h.holds.mem c s).mp hmem] at hnn
    cases hnn
  unfold want
  cases hhe : v.held c with
  | nil => simp
  | cons x rest =>
    have hla : (s :: x :: rest).getLast? ≠ some s := by
      intro heq
      exact hnot (hhe ▸ mem_of_getLast? heq)
    rw [beq_false_of_ne hla]
    rfl

theorem getLast?_cons_of_mem {x y : Nat} {l : List Nat} (h : x ∈ l) : (y :: l).getLast? = l.getLast? := by
  cases l with
  | nil => cases h
  | cons z l => exact getLast?_cons_cons

theorem Inv.lockStore (h : Inv a v) (hpc : v.pc c = some (s, .lockStore level))
    (hle : (v.held c).count s + 1 < 2 ^ 32) :
    Result a v c s (.lockStore level) { v.spin s with level := level + 1 } (v.flag c) .locked := by
  obtain ⟨hta, rfl⟩ := h.call hpc
  have hfr : a.holder s = none ∨ a.holder s = some c := hta.imp_left And.left
  obtain ⟨a', hlo⟩ : ∃ a', a.lock c s = some a' := ⟨_, if_pos hfr⟩
  obtain ⟨hse, hle'⟩ := MutexView.lock_self hlo
  have hfl : v.flag c = false := by rw [h.flag, Inv.masked_eq hpc]; exact Bool.and_false _
  have hco := h.holds.level_eq hfr
  refine ⟨rfl, _, h.put hpc (h.alone hpc rfl) (fun _ => MutexView.lock_other hlo) (h.holds.lock hlo)
    (fun _ hmem _ => getLast?_cons_of_mem hmem) ?_ (fun hnn => ?_) (fun d hd => ?_) nofun⟩
  · rw [hfl]
    simp
  · rw [hse] at hnn
    cases hnn
  · rw [hse] at hd
    cases hd
    refine ⟨?_, fun _ => ?_⟩
    · rw [put_spin, pushed, put_held]
      rcases hta with ⟨hnn, hw⟩ | hho
      · rw [hw, h.pushed_lock hnn]
        rfl
      · rw [getLast?_cons_of_mem ((h.holds.mem c s).mpr hho)]
        exact (h.owned s c hho).1
    · rw [put_spin, hle']
      have hsa : (v.spin s).level.toNat = a.level s := by
        rcases hta with ⟨hnn, -⟩ | hho
        · rw [(h.free s hnn).1, h.holds.unheld s hnn]
          rfl
        · exact (h.owned s c hho).2 (by rw [hpc]; nofun)
      rw [BitVec.toNat_add, hsa, show (1 : BitVec 32).toNat = 1 from rfl, Nat.mod_eq_of_lt (by omega)]

theorem erase_head (hs : v.held c = s :: rest) : (v.held c).erase s = (v.held c).tail := by
  rw [hs, erase_cons_head, tail_cons]

theorem Inv.unlockStore {w : BitVec 32} (h : Inv a v) (hpc : v.pc c = some (s, .unlockStore w level)) :
    Result a v c s (.unlockStore w level) { v.spin s with level := level - 1 } (v.flag c)
      (if level - 1 = 0 then .goto (.unlockFree w) else .unlocked) := by
  obtain ⟨⟨rest, hs⟩, rfl, rfl⟩ := h.call hpc
  have hho := h.holder_of_head hs
  obtain ⟨hwo, hle⟩ := h.owned s c hho
  have hle := hle (by rw [hpc]; nofun)
  have hpos : 0 < a.level s := by
    rw [h.holds.level c s hho, hs]
    simp
  have hls : ((v.spin s).level - 1).toNat = a.level s - 1 := by
    bv_omega
  have hfl : v.flag c = false := by rw [h.flag, want_of_held hs]; rfl
  split_ifs with hz
  · have hone : a.level s = 1 := by
      rw [hz] at hls
      have : (0 : BitVec 32).toNat = 0 := rfl
      omega
    refine ⟨rfl, h.put hpc (h.alone hpc rfl) (fun _ _ => ⟨rfl, rfl⟩) ?_ (fun _ _ _ => rfl) ?_ (fun hnn => ?_)
      (fun d hd => ?_) ?_⟩
    · rw [update_eq_self]
      exact h.holds
    · rw [hfl, hs]
      simp
    · rw [hho] at hnn
      cases hnn
    · rw [hho] at hd
      cases hd
      refine ⟨?_, fun hne => absurd put_pc (hne _)⟩
      rw [put_spin, pushed, put_held]
      exact hwo
    · rintro _ ⟨⟩
      refine ⟨⟨rest, put_held.trans hs⟩, ?_, ?_, hone⟩
      · rw [put_spin]
      · rw [put_spin]
        exact hz
  · have hne : a.level s - 1 ≠ 0 := fun hn => hz (BitVec.eq_of_toNat_eq (hls.trans hn))
    obtain ⟨a', hun⟩ : ∃ a', a.unlock c s = some a' := ⟨_, if_pos ⟨hho, hpos⟩⟩
    obtain ⟨hse, hle'⟩ := MutexView.unlock_self hun
    rw [if_neg hne] at hse
    have hhl := h.holds.unlock hun
    rw [erase_head hs] at hhl
    have hmem : s ∈ rest := by
      have := (hhl.mem c s).mpr hse
      rwa [update_self, hs, tail_cons] at this
    have hla : (v.held c).tail.getLast? = (v.held c).getLast? := by
      rw [hs, tail_cons, getLast?_cons_of_mem hmem]
    refine ⟨rfl, _, h.put hpc (h.alone hpc rfl) (fun _ => MutexView.unlock_other hun) hhl
      (fun _ _ _ => hla) ?_ (fun hnn => ?_) (fun d hd => ?_) nofun⟩
    · rw [hfl, hs, tail_cons, isEmpty_eq_false_iff.mpr (ne_nil_of_mem hmem)]
      simp
    · rw [hse] at hnn
      cases hnn
    · rw [hse] at hd
      cases hd
      refine ⟨?_, fun _ => ?_⟩
      · rw [put_spin, pushed, put_held, hla]
        exact hwo
      · rw [put_spin, hle']
        exact hls

theorem Inv.unlockFree {w : BitVec 32} (h : Inv a v) (hpc : v.pc c = some (s, .unlockFree w)) :
    Result a v c s (.unlockFree w) { v.spin s with lock := 0 } (v.flag c) (.freed (.unlockSti w)) := by
  obtain ⟨⟨rest, hs⟩, rfl, hze, hone⟩ := h.call hpc
  have hho := h.holder_of_head hs
  have hwo := (h.owned s c hho).1
  have hfl : v.flag c = false := by rw [h.flag, want_of_held hs]; rfl
  obtain ⟨a', hun⟩ : ∃ a', a.unlock c s = some a' := ⟨_, if_pos ⟨hho, by omega⟩⟩
  obtain ⟨hse, -⟩ := MutexView.unlock_self hun
  rw [if_pos (by omega)] at hse
  have hhl := h.holds.unlock hun
  rw [erase_head hs] at hhl
  have hnot : s ∉ rest := by
    intro hmem
    have := (hhl.mem c s).mp (by rw [update_self, hs]; exact hmem)
    rw [hse] at this
    cases this
  refine ⟨rfl, rfl, _, h.put hpc (h.alone hpc rfl) (fun _ => MutexView.unlock_other hun) hhl
    (fun x hx hxs => ?_) ?_ (fun _ => ?_) (fun d hd => ?_) ?_⟩
  · rw [hs] at hx ⊢
    exact (getLast?_cons_of_mem ((mem_cons.mp hx).resolve_left hxs)).symm
  · rw [hfl]
    exact (Bool.and_false _).symm
  · exact ⟨by rw [put_spin]; exact hze, .inl (by rw [put_spin])⟩
  · rw [hse] at hd
    cases hd
  · rintro _ ⟨⟩
    show _ ↔ _
    rw [put_want, hwo, wordOf, desired_pushed, pushed, hs, tail_cons]
    cases rest with
    | nil => simp
    | cons x rest =>
      have hla : (s :: x :: rest).getLast? ≠ some s := by
        exact fun heq => hnot (mem_of_getLast? heq)
      rw [beq_false_of_ne hla]
      simp

theorem Inv.step (h : Inv a v) (hpc : v.pc c = some (s, p)) (hle : (v.held c).count s + 1 < 2 ^ 32) :
    ∃ sp flag after, spinStep (v.spin s) (BitVec.ofNat 8 c) (v.flag c) p = some (sp, flag, after) ∧
      Result a v c s p sp flag after := by
  have hca := h.call hpc
  have hfl : v.flag c = (v.want c && !p.masks) := by rw [h.flag, Inv.masked_eq hpc]
  cases p with
  | lockFlag =>
    rw [show SpinPc.lockFlag.masks = false from rfl, Bool.not_false, Bool.and_true] at hfl
    refine ⟨_, _, _, rfl, rfl, h.move hpc (some (.lockCli _)) nofun nofun ?_ ?_⟩
    · rw [hfl]
      exact (Bool.and_true _).symm
    · rintro _ ⟨⟩
      exact hfl
  | lockCli pushed =>
    refine ⟨_, _, _, rfl, rfl, h.move hpc (some (.lockId pushed)) nofun nofun (Bool.and_false _).symm ?_⟩
    rintro _ ⟨⟩
    exact hca
  | lockId pushed =>
    refine ⟨_, _, _, rfl, rfl, h.move hpc (some (.lockCas pushed _)) nofun nofun hfl ?_⟩
    rintro _ ⟨⟩
    exact ⟨hca, rfl⟩
  | lockCas pushed id => exact h.lockCas hpc
  | lockFresh =>
    refine ⟨_, _, _, if_pos (h.free s hca.1).1, rfl, ?_⟩
    refine h.move hpc (some .lockLoad) (fun _ => ⟨_, rfl, rfl⟩) nofun hfl ?_
    rintro _ ⟨⟩
    exact .inl hca
  | lockLoad =>
    refine ⟨_, _, _, rfl, rfl, h.move hpc (some (.lockStore _)) (fun _ => ⟨_, rfl, rfl⟩) nofun hfl ?_⟩
    rintro _ ⟨⟩
    exact ⟨hca, rfl⟩
  | lockStore level => exact ⟨_, _, _, rfl, h.lockStore hpc hle⟩
  | unlockWord =>
    obtain ⟨rest, hs⟩ := hca
    have hwo := (h.owned s c (h.holder_of_head hs)).1
    have hown : ¬ ((v.spin s).lock &&& SPINLOCK_LOCKED = 0 ∨
        (v.spin s).lock >>> 2 ≠ (BitVec.ofNat 8 c).setWidth 32) := by
      rw [hwo, not_or, not_not]
      exact ⟨desired_locked _ _, desired_shift _ _⟩
    refine ⟨_, _, _, if_neg hown, rfl, h.move hpc (some (.unlockLoad _)) nofun nofun hfl ?_⟩
    rintro _ ⟨⟩
    exact ⟨⟨rest, hs⟩, rfl⟩
  | unlockLoad w =>
    obtain ⟨⟨rest, hs⟩, hw⟩ := hca
    have hho := h.holder_of_head hs
    have hne : (v.spin s).level ≠ 0 := by
      intro hz
      have hco := (h.owned s c hho).2 (by rw [hpc]; nofun)
      rw [hz, h.holds.level c s hho, hs] at hco
      simp at hco
    refine ⟨_, _, _, if_neg hne, rfl, h.move hpc (some (.unlockStore w _)) nofun nofun hfl ?_⟩
    rintro _ ⟨⟩
    exact ⟨⟨rest, hs⟩, hw, rfl⟩
  | unlockStore w level => exact ⟨_, _, _, rfl, h.unlockStore hpc⟩
  | unlockFree w => exact ⟨_, _, _, rfl, h.unlockFree hpc⟩
  | unlockSti w =>
    refine ⟨_, _, _, rfl, rfl, h.move hpc none nofun nofun ?_ nofun⟩
    rw [hfl]
    show _ = (v.want c && true)
    split_ifs with hw
    · rw [hca.mp hw]
      rfl
    · rw [Bool.and_true]
      exact ((Bool.not_eq_false _).mp fun hf => hw (hca.mpr hf)).symm

end

end SpinView

end Locks

end Yagura
