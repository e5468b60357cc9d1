import Yagura.Trans
import Yagura.Errno

/-!
# Thread-local segments

`sys_set_thread_area`, `sys_get_thread_area` and the part of `sys_clone` for
`CLONE_SETTLS` (`syscall/task.c`), over the descriptors of `gdt.h`.
-/

namespace Yagura.Tls

open BitVec Errno Function

structure UserDesc where
  entryNumber : BitVec 32
  baseAddr : BitVec 32
  limit : BitVec 32
  seg32bit : Bool
  contents : BitVec 2
  readExecOnly : Bool
  limitInPages : Bool
  segNotPresent : Bool
  useable : Bool

structure GdtSegment where
  limitLo : BitVec 16
  baseLo : BitVec 16
  baseMid : BitVec 8
  type : BitVec 4
  s : Bool
  dpl : BitVec 2
  p : Bool
  limitHi : BitVec 4
  avl : Bool
  l : Bool
  db : Bool
  g : Bool
  baseHi : BitVec 8

instance : Zero GdtSegment := ⟨⟨0, 0, 0, 0, false, 0, false, 0, false, false, false, false, 0⟩⟩

-- The other halves of the unions.
def GdtSegment.access (d : GdtSegment) : BitVec 8 := BitVec.ofBool d.p ++ d.dpl ++ BitVec.ofBool d.s ++ d.type

def GdtSegment.flags (d : GdtSegment) : BitVec 4 :=
  BitVec.ofBool d.g ++ BitVec.ofBool d.db ++ BitVec.ofBool d.l ++ BitVec.ofBool d.avl

abbrev Slots := Fin 3 → GdtSegment

def GDT_ENTRY_TLS_MIN : Nat := 6

def entry (i : Fin 3) : BitVec 32 := BitVec.ofNat 32 (i + GDT_ENTRY_TLS_MIN)

def index (entryNumber : BitVec 32) : Option (Fin 3) :=
  if h : entryNumber.toInt < GDT_ENTRY_TLS_MIN ∨ GDT_ENTRY_TLS_MIN + 3 ≤ entryNumber.toInt then none
  else some ⟨(entryNumber.toInt - GDT_ENTRY_TLS_MIN).toNat, by omega⟩

def getTlsEntry (tls : Slots) (u : UserDesc) : Except Errno UserDesc :=
  match index u.entryNumber with
  | none => .error EINVAL
  | some i =>
    let d := tls i
    .ok { u with
      baseAddr := d.baseLo.setWidth 32 ||| d.baseMid.setWidth 32 <<< 16 ||| d.baseHi.setWidth 32 <<< 24
      limit := d.limitLo.setWidth 32 ||| d.limitHi.setWidth 32 <<< 16
      seg32bit := d.db
      contents := (d.type >>> 2).setWidth 2
      readExecOnly := d.type &&& 2 == 0
      limitInPages := d.g
      segNotPresent := !d.p
      useable := d.avl }

def isUserDescEmpty (u : UserDesc) : Bool :=
  if u.baseAddr ≠ 0 ∨ u.limit ≠ 0 ∨ u.seg32bit ∨ u.contents ≠ 0 ∨ u.limitInPages ∨ u.useable then false
  else if !u.readExecOnly && !u.segNotPresent then true
  else u.readExecOnly && u.segNotPresent

def isUserDescValid (u : UserDesc) : Bool :=
  isUserDescEmpty u || (u.seg32bit && decide (u.contents ≤ 1) && !u.segNotPresent)

def segmentOf (u : UserDesc) : GdtSegment :=
  if isUserDescEmpty u then 0
  else
    { limitLo := u.limit.setWidth 16
      baseLo := u.baseAddr.setWidth 16
      baseMid := (u.baseAddr >>> 16).setWidth 8
      type := (BitVec.ofBool !u.readExecOnly).setWidth 4 <<< 1 ||| u.contents.setWidth 4 <<< 2 ||| 1
      s := true
      dpl := 3
      p := !u.segNotPresent
      limitHi := (u.limit >>> 16).setWidth 4
      avl := u.useable
      l := false
      db := u.seg32bit
      g := u.limitInPages
      baseHi := (u.baseAddr >>> 24).setWidth 8 }

def setTlsEntry (tls : Slots) (u : UserDesc) : Except Errno Slots :=
  match index u.entryNumber with
  | none => .error EINVAL
  | some i => .ok (update tls i (segmentOf u))

def GdtSegment.isFree (d : GdtSegment) : Bool :=
  d.baseLo = 0 ∧ d.baseMid = 0 ∧ d.baseHi = 0 ∧ d.limitLo = 0 ∧ d.limitHi = 0 ∧ d.access = 0 ∧ d.flags = 0

def findFreeTlsEntry (tls : Slots) : Except Errno (BitVec 32) :=
  match (List.finRange 3).find? fun i => (tls i).isFree with
  | none => .error ESRCH
  | some i => .ok (entry i)

/-! ## Calls

`copy_from_user` gets `none` where it fails; `canWrite` tells whether
`copy_to_user` works. -/

def sysGetThreadArea (tls : Slots) (uInfo : Option UserDesc) (canWrite : Bool) : Except Errno UserDesc := do
  let some u := uInfo | throw EFAULT
  let u ← getTlsEntry tls u
  if canWrite then pure u else throw EFAULT

/-- `settls` is there if the flags have `CLONE_SETTLS`. -/
def cloneTls (tls : Slots) (settls : Option (Option UserDesc)) : Except Errno Slots := do
  let some uInfo := settls | return tls
  let some u := uInfo | throw EFAULT
  if isUserDescValid u then setTlsEntry tls u else throw EINVAL

def setThreadArea (tls : Slots) (uInfo : Option UserDesc) : Except Errno (Option (BitVec 32) × Slots) := do
  let some u := uInfo | throw EFAULT
  if !isUserDescValid u then throw EINVAL
  else
    let number ← (if u.entryNumber = -1 then findFreeTlsEntry tls else pure u.entryNumber)
    let tls ← setTlsEntry tls { u with entryNumber := number }
    return (if u.entryNumber = -1 then some number else none, tls)

/-- Tasks have descriptors, and each GDT has those of the task that its CPU runs. -/
inductive Owner
  | task (t : Nat) | cpu (c : Nat)
  deriving DecidableEq

def sysSetThreadArea (c t : Nat) (uInfo : Option UserDesc) (canWrite : Bool) (k : Owner → Slots) :
    Except Errno (Option (BitVec 32)) × (Owner → Slots) :=
  match setThreadArea (k (.task t)) uInfo with
  | .error e => (.error e, k)
  | .ok (number, tls) =>
    (if number.isSome && !canWrite then .error EFAULT else .ok number, update (update k (.task t) tls) (.cpu c) tls)

/-- `create` stands for `task_create` and for `execve`, which clears the descriptors. -/
inductive Event
  | create (t : Nat)
  | setThreadArea (c t : Nat) (uInfo : Option UserDesc) (canWrite : Bool)
  | clone (t child : Nat) (settls : Option (Option UserDesc))
  | switch (c t : Nat)

def exec (k : Owner → Slots) : Event → Owner → Slots
  | .create t => update k (.task t) 0
  | .setThreadArea c t uInfo canWrite => (sysSetThreadArea c t uInfo canWrite k).2
  | .clone t child settls =>
    match cloneTls (k (.task t)) settls with
    | .error _ => k
    | .ok tls => update k (.task child) tls
  | .switch c t => update k (.cpu c) (k (.task t))

def Step (k : Owner → Slots) (e : Event) (k' : Owner → Slots) : Prop := exec k e = k'

/-! ## What is read back -/

section
variable {u : UserDesc} {tls tls' : Slots} {i : Fin 3} {k : Owner → Slots}

def shown (u : UserDesc) (i : Fin 3) : UserDesc :=
  if isUserDescEmpty u then ⟨entry i, 0, 0, false, 0, true, false, true, false⟩ else { u with entryNumber := entry i }

structure Installed (tls tls' : Slots) (u : UserDesc) (i : Fin 3) : Prop where
  others : ∀ j, j ≠ i → tls' j = tls j
  readBack : ∀ v, v.entryNumber = entry i → sysGetThreadArea tls' (some v) true = .ok (shown u i)

theorem index_entry : ∀ i, index (entry i) = some i := by
  decide

theorem base_joined (b : BitVec 32) : (b.setWidth 16).setWidth 32 ||| ((b >>> 16).setWidth 8).setWidth 32 <<< 16 |||
    ((b >>> 24).setWidth 8).setWidth 32 <<< 24 = b := by
  apply eq_of_getLsbD_eq
  intro i hi
  simp only [getLsbD_or, getLsbD_setWidth, getLsbD_shiftLeft, getLsbD_ushiftRight]
  grind

theorem limit_joined {l : BitVec 32} (h : l.toNat < 2 ^ 20) :
    (l.setWidth 16).setWidth 32 ||| ((l >>> 16).setWidth 4).setWidth 32 <<< 16 = l := by
  apply eq_of_getLsbD_eq
  intro i hi
  have hhi : 20 ≤ i → l.getLsbD i = false := fun hle =>
    Nat.testBit_lt_two_pow (h.trans_le (Nat.pow_le_pow_right (by decide) hle))
  simp only [getLsbD_or, getLsbD_setWidth, getLsbD_shiftLeft, getLsbD_ushiftRight]
  grind

theorem type_split : ∀ (contents : BitVec 2) (readExecOnly : Bool),
    let type := (ofBool !readExecOnly).setWidth 4 <<< 1 ||| contents.setWidth 4 <<< 2 ||| 1
    (type >>> 2).setWidth 2 = contents ∧ (type &&& 2 == 0) = readExecOnly ∧ (contents ≤ 1 → type.getLsbD 3 = false) := by
  decide

theorem installed_update (hl : u.limit.toNat < 2 ^ 20) (tls : Slots) (i : Fin 3) :
    Installed tls (update tls i (segmentOf u)) u i := by
  refine ⟨fun j hj => update_of_ne hj .., fun v hv => ?_⟩
  simp only [sysGetThreadArea, getTlsEntry, hv, index_entry, update_self, segmentOf, shown]
  split
  · rfl
  · obtain ⟨hco, hre, -⟩ := type_split u.contents u.readExecOnly
    simp only [base_joined, limit_joined hl, hco, hre, Bool.not_not]
    rfl

theorem setTlsEntry_ok (h : setTlsEntry tls u = .ok tls') :
    ∃ i, u.entryNumber = entry i ∧ tls' = update tls i (segmentOf u) := by
  unfold setTlsEntry index at h
  split at h
  · cases h
  · next i hi =>
    split at hi
    · cases hi
    · next hin =>
      cases h
      cases hi
      refine ⟨_, eq_of_toInt_eq ?_, rfl⟩
      have hmin : GDT_ENTRY_TLS_MIN = 6 := rfl
      rw [entry, toInt_ofNat', Int.bmod_eq_of_le] <;> dsimp only <;> omega

/-! ## Privilege -/

/-- All zero, or a segment for data that is present and at level 3. -/
def GdtSegment.Harmless (d : GdtSegment) : Prop :=
  d = 0 ∨ d.dpl = 3 ∧ d.p = true ∧ d.s = true ∧ d.type.getLsbD 3 = false

theorem segmentOf_harmless (h : isUserDescValid u = true) : (segmentOf u).Harmless := by
  unfold segmentOf
  split
  · exact .inl rfl
  · next hne =>
    simp only [isUserDescValid, hne, Bool.false_or, Bool.and_eq_true, decide_eq_true_eq, Bool.not_eq_true'] at h
    exact .inr ⟨rfl, by simp [h.2], rfl, (type_split u.contents u.readExecOnly).2.2 h.1.2⟩

theorem GdtSegment.Harmless.eq_zero {d : GdtSegment} (hd : d.Harmless) (h : d.isFree = true) : d = 0 := by
  have hne : ∀ (p : Bool) (dpl : BitVec 2) (type : BitVec 4),
      (ofBool p ++ dpl ++ ofBool true ++ type : BitVec 8) ≠ 0 := by decide
  obtain ⟨-, -, -, -, -, hac, -⟩ := of_decide_eq_true h
  exact hd.resolve_right fun ⟨_, _, hs, _⟩ => hne d.p d.dpl d.type (hs ▸ hac)

theorem findFree_zero {number : BitVec 32} (htls : ∀ i, (tls i).Harmless) (h : findFreeTlsEntry tls = .ok number) :
    ∃ i, number = entry i ∧ tls i = 0 := by
  unfold findFreeTlsEntry at h
  split at h
  · cases h
  · next i hi =>
    cases h
    exact ⟨i, rfl, (htls i).eq_zero (List.find?_some (p := fun i => (tls i).isFree) hi)⟩

theorem ok_of_bind {α β : Type} {x : Except Errno α} {f : α → Except Errno β} {b : β} (h : x >>= f = .ok b) :
    ∃ a, x = .ok a ∧ f a = .ok b := by
  cases x with
  | error => cases h
  | ok a => exact ⟨a, rfl, h⟩

theorem cloneTls_ok (h : cloneTls tls (some (some u)) = .ok tls') :
    isUserDescValid u = true ∧ ∃ i, u.entryNumber = entry i ∧ tls' = update tls i (segmentOf u) := by
  simp only [cloneTls] at h
  split at h
  · next hv => exact ⟨hv, setTlsEntry_ok h⟩
  · cases h

/-- A descriptor is accepted for the slot that was asked for, or for one that was free. -/
theorem setThreadArea_ok {uInfo : Option UserDesc} {number : Option (BitVec 32)} (htls : ∀ i, (tls i).Harmless)
    (h : setThreadArea tls uInfo = .ok (number, tls')) :
    ∃ u i, uInfo = some u ∧ isUserDescValid u = true ∧ tls' = update tls i (segmentOf u) ∧
      (number = none ∧ u.entryNumber = entry i ∨ number = some (entry i) ∧ u.entryNumber = -1 ∧ tls i = 0) := by
  cases uInfo with
  | none => cases h
  | some u =>
    simp only [setThreadArea] at h
    split at h
    · cases h
    · next hv =>
      obtain ⟨n, hn, h⟩ := ok_of_bind h
      obtain ⟨v, hset, h⟩ := ok_of_bind h
      obtain ⟨i, hi, rfl⟩ := setTlsEntry_ok hset
      cases h
      refine ⟨u, i, rfl, by simpa using hv, rfl, ?_⟩
      split at hn
      · next hal =>
        obtain ⟨j, hj, hze⟩ := findFree_zero htls hn
        obtain rfl : i = j := (show Injective entry by decide) (hi.symm.trans hj)
        exact .inr ⟨(if_pos hal).trans (congrArg some hi), hal, hze⟩
      · next hne =>
        cases hn
        exact .inl ⟨if_neg hne, hi⟩

/-! ## Runs -/

def Harmless (k : Owner → Slots) : Prop := ∀ o i, (k o i).Harmless

theorem Harmless.update (h : Harmless k) (o : Owner) (htls : ∀ i, (tls i).Harmless) : Harmless (update k o tls) :=
  (forall_update_iff k fun _ tls => ∀ i, (tls i).Harmless).mpr ⟨htls, fun o' _ => h o'⟩

theorem harmless_update (hv : isUserDescValid u = true) (htls : ∀ i, (tls i).Harmless) :
    ∀ j, (update tls i (segmentOf u) j).Harmless :=
  (forall_update_iff tls fun _ d => d.Harmless).mpr ⟨segmentOf_harmless hv, fun j _ => htls j⟩

theorem Harmless.exec (h : Harmless k) (e : Event) : Harmless (exec k e) := by
  cases e with
  | create t => exact h.update _ fun _ => .inl rfl
  | setThreadArea c t uInfo canWrite =>
    simp only [Tls.exec, sysSetThreadArea]
    split
    · exact h
    · next hset =>
      obtain ⟨u, i, -, hv, rfl, -⟩ := setThreadArea_ok (h _) hset
      exact (h.update _ (harmless_update hv (h _))).update _ (harmless_update hv (h _))
  | clone t child settls =>
    simp only [Tls.exec]
    split
    · exact h
    · next tls htls =>
      refine h.update _ ?_
      match settls with
      | none =>
        cases htls
        exact h _
      | some none => cases htls
      | some (some u) =>
        obtain ⟨hv, i, -, rfl⟩ := cloneTls_ok htls
        exact harmless_update hv (h _)
  | switch c t => exact h.update _ (h _)

/-- Descriptors that are accepted are read back, and no other ones are touched. -/
structure Sound (k : Owner → Slots) : Prop where
  harmless : Harmless k
  set : ∀ c t u canWrite number k', u.limit.toNat < 2 ^ 20 →
    sysSetThreadArea c t (some u) canWrite k = (.ok number, k') →
    ∃ i, Installed (k (.task t)) (k' (.task t)) u i ∧ (∀ t', t' ≠ t → k' (.task t') = k (.task t')) ∧
      (number = none ∧ u.entryNumber = entry i ∨ number = some (entry i) ∧ u.entryNumber = -1 ∧ k (.task t) i = 0)
  clone : ∀ t u tls, u.limit.toNat < 2 ^ 20 → cloneTls (k (.task t)) (some (some u)) = .ok tls →
    ∃ i, Installed (k (.task t)) tls u i ∧ u.entryNumber = entry i

theorem segments_sound (h : Run Step (fun _ _ => True) 0 k) : Sound k := by
  have hk : Harmless k := h.invariant (fun _ _ => .inl rfl) fun s e _ hs he _ => he ▸ hs.exec e
  refine ⟨hk, fun c t u canWrite number k' hl hca => ?_, fun t u tls hl hca => ?_⟩
  · unfold sysSetThreadArea at hca
    split at hca
    · cases hca
    · next hset =>
      obtain ⟨u, i, hu, -, rfl, hnu⟩ := setThreadArea_ok (hk _) hset
      cases hu
      split at hca
      · cases hca
      · cases hca
        refine ⟨i, ?_, fun t' ht' => ?_, hnu⟩
        · simpa using installed_update hl (k (.task t)) i
        · simp [ht']
  · obtain ⟨-, i, hi, rfl⟩ := cloneTls_ok hca
    exact ⟨i, installed_update hl _ i, hi⟩

theorem segments_sound_chosen : ∃ k, Run Step (fun _ _ => True) 0 k ∧ (k (.task 1) 0).baseMid = 5 ∧ Sound k := by
  refine ⟨_, .tail (e := .setThreadArea 0 1 (some ⟨-1, 0x51000, 1, true, 0, false, false, false, true⟩) true) (.refl _)
    rfl trivial, by decide, ?_⟩
  exact segments_sound (.tail (.refl _) rfl trivial)

end

end Yagura.Tls
