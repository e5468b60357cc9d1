import Yagura.VmLife

/-!
# What the functions on regions do

For each function of `vm.c` and `slab.c` the outcomes it can have, as the
runs of the functions it calls and the region lists it leaves behind.
-/

namespace Yagura

open Function Prog

def Machine.setPg (m : Machine) (p : Paging) : Machine := { m with pg := p }

def Machine.setRg (m : Machine) (q : Regions) : Machine := { m with rg := q }

def Machine.free (m : Machine) (x : Nat) : Machine := m.setRg { m.rg with freeList := x :: m.rg.freeList }

/-- The vm a function works on: the kernel's, or the current one if that is not the kernel's. -/
def Machine.Target (m : Machine) (kernel : Prop) (v : Nat) : Prop :=
  (kernel ∧ v = 0) ∨ (¬ kernel ∧ m.current = some v ∧ v ≠ 0)

def Regions.after (r : Regions) (v : Nat) : Option Nat → Option Nat
  | some c => (r.node c).next
  | none => (r.vm v).regions

structure Regions.Fits (r : Regions) (v : Nat) (c : Option Nat) (x : Nat) : Prop where
  before : ∀ k, c = some k → (r.span k).stop ≤ (r.span x).start
  behind : r.endsBefore (r.span x).stop (r.after v c) = true

section
variable {α β : Type} {m : Machine} {Q : α → Machine → Prop} {v a x flags : Nat}

@[simp] theorem setRg_rg {q : Regions} : (m.setRg q).rg = q := rfl

theorem userVm_gives : Gives userVm m fun v m' => m.current = some v ∧ v ≠ 0 ∧ m' = m := by
  refine .get ?_
  cases hc : m.current with
  | none => exact .trap
  | some v => exact .ensure fun h0 => .pure ⟨rfl, h0, rfl⟩

theorem target_gives {p : Prop} [Decidable p] :
    Gives (if p then pure 0 else userVm : MachineProg Nat) m fun v m' => m.Target p v ∧ m' = m := by
  refine .ite (fun hp => .pure ⟨.inl ⟨hp, rfl⟩, rfl⟩) fun hp v m' hrun => ?_
  obtain ⟨hc, h0, rfl⟩ := userVm_gives v m' hrun
  exact ⟨.inr ⟨hp, hc, h0⟩, rfl⟩

theorem vmInsertRegionAfter_gives {r : Regions} {c : Option Nat} :
    Gives (vmInsertRegionAfter v c x) r fun _ r' => r.Fits v c x ∧ r' = r.link v c x := by
  refine .get ?_
  cases c with
  | none => exact .ensure fun hf _ _ hrun => ⟨⟨nofun, hf⟩, (modify_ok.mp hrun).symm⟩
  | some k =>
    refine .ensure fun hb => .ensure fun hf _ _ hrun => ⟨⟨fun _ hk => ?_, hf⟩, (modify_ok.mp hrun).symm⟩
    exact Option.some.inj hk ▸ hb

/-! ## One step and the rest -/

namespace Prog.Gives

variable {k : β → MachineProg α} {j : Unit → MachineProg α}

theorem paging {f : Nat → PagingProg β}
    (h : ∀ b p, f m.currentPageDirectory m.pg = .ok (b, p) → Gives (k b) (m.setPg p) Q) :
    Gives (Yagura.paging f >>= k) m Q := by
  refine .bind .run fun b m' hrun => ?_
  obtain ⟨p, hp, rfl⟩ := on_ok.mp hrun
  exact h b p hp

theorem pagingOr {κ : Type} {f : Nat → PagingProg (Except κ β)} {k : Except κ β → MachineProg α}
    (he : ∀ e p, f m.currentPageDirectory m.pg = .ok (.error e, p) → Gives (k (.error e)) (m.setPg p) Q)
    (h : ∀ b p, f m.currentPageDirectory m.pg = .ok (.ok b, p) → Gives (k (.ok b)) (m.setPg p) Q) :
    Gives (Yagura.paging f >>= k) m Q :=
  .paging fun r p hp => by
    cases r with
    | error e => exact he e p hp
    | ok b => exact h b p hp

theorem look {f : Regions → Except Trap β} (h : ∀ b, f m.rg = .ok b → Gives (k b) m Q) :
    Gives (lookRegions f >>= k) m Q := by
  refine .bind .run fun b m' hrun => ?_
  obtain ⟨hb, rfl⟩ := look_ok.mp hrun
  exact h b hb

theorem lookOr {f : Regions → Except Trap (Except Errno (Option Nat × Nat))}
    {k : Except Errno (Option Nat × Nat) → MachineProg α} (he : ∀ e, f m.rg = .ok (.error e) → Gives (k (.error e)) m Q)
    (h : ∀ c b, f m.rg = .ok (.ok (c, b)) → Gives (k (.ok (c, b))) m Q) : Gives (lookRegions f >>= k) m Q :=
  .look fun r hr => by
    match r, hr with
    | .error e, hr => exact he e hr
    | .ok (c, b), hr => exact h c b hr

theorem find {k : Option Nat → MachineProg α} (h0 : Gives (k none) m Q)
    (h : ∀ i, vmFindRegion m.rg v a = .ok (some i) → Gives (k (some i)) m Q) :
    Gives (lookRegions (vmFindRegion · v a) >>= k) m Q :=
  .look fun r hr => by
    cases r with
    | none => exact h0
    | some i => exact h i hr

theorem edit {f : Regions → Regions} (h : Gives (j ()) (m.setRg (f m.rg)) Q) :
    Gives (regions (Prog.modify f) >>= j) m Q := by
  refine .bind .run fun _ m' hrun => ?_
  obtain ⟨q, hq, rfl⟩ := on_ok.mp hrun
  obtain rfl := modify_ok.mp hq
  exact h

theorem free (h : Gives (j ()) (m.free x) Q) : Gives (slabCacheFree x >>= j) m Q := .edit h

theorem insert {c : Option Nat} (h : m.rg.Fits v c x → Gives (j ()) (m.setRg (m.rg.link v c x)) Q) :
    Gives (regions (vmInsertRegionAfter v c x) >>= j) m Q := by
  refine .bind .run fun u m' hrun => ?_
  obtain ⟨q, hq, rfl⟩ := on_ok.mp hrun
  obtain ⟨hf, rfl⟩ := vmInsertRegionAfter_gives u q hq
  exact h hf

theorem pteFlags {k : Nat → MachineProg α}
    (h : validateVmFlags m flags = true → Gives (k (pteFlags flags)) m Q) : Gives (toPteFlags flags >>= k) m Q := by
  refine .bind (P := fun pf m' => pf = Yagura.pteFlags flags ∧ validateVmFlags m flags = true ∧ m' = m)
    (.get <| .ensure fun hv => .pure ⟨rfl, hv, rfl⟩) ?_
  rintro _ _ ⟨rfl, hv, rfl⟩
  exact h hv

theorem vmForFlags {k : Nat → MachineProg α} (h : ∀ v, m.Target (flags &&& VM_USER = 0) v → Gives (k v) m Q) :
    Gives (vmForFlags flags >>= k) m Q := by
  refine .bind target_gives ?_
  rintro v _ ⟨ht, rfl⟩
  exact h v ht

theorem vmForAddr {k : Nat → MachineProg α} (h : ∀ v, m.Target (isKernelAddress a = true) v → Gives (k v) m Q) :
    Gives (vmForAddr a >>= k) m Q := by
  refine .bind (P := fun v m' => m.Target (isKernelAddress a = true) v ∧ m' = m) (.ensure fun _ => target_gives) ?_
  rintro v _ ⟨ht, rfl⟩
  exact h v ht

end Prog.Gives

end

variable {m : Machine} {v size flags a src newSize i : Nat}

/-! ## The slab cache -/

def slabSpan (a : Nat) : Span := ⟨a, add32 a PAGE_SIZE, VM_RW⟩

inductive EnsureOut (m : Machine) : Except Errno Unit → Machine → Prop
  | full : m.rg.freeList ≠ [] → EnsureOut m (.ok ()) m
  | noGap {e : Errno} : m.rg.freeList = [] → vmFindGap m.rg 0 PAGE_SIZE = .ok (.error e) → EnsureOut m (.error e) m
  | noPage {c : Option Nat} {a : Nat} {p : Paging} {e : Errno} : m.rg.freeList = [] →
      vmFindGap m.rg 0 PAGE_SIZE = .ok (.ok (c, a)) →
      pageTableMapAnon m.currentPageDirectory a PAGE_SIZE (PTE_WRITE ||| PTE_GLOBAL) m.pg = .ok (.error e, p) →
      EnsureOut m (.error e) (m.setPg p)
  | grow {c : Option Nat} {a : Nat} {p : Paging} : m.rg.freeList = [] →
      vmFindGap m.rg 0 PAGE_SIZE = .ok (.ok (c, a)) →
      pageTableMapAnon m.currentPageDirectory a PAGE_SIZE (PTE_WRITE ||| PTE_GLOBAL) m.pg = .ok (.ok (), p) →
      (m.rg.addSlab (slabSpan a)).Fits 0 c m.rg.numNodes →
      EnsureOut m (.ok ()) ((m.setPg p).setRg ((m.rg.addSlab (slabSpan a)).link 0 c m.rg.numNodes))

theorem ensureCache_gives : Gives ensureCache m (EnsureOut m) := by
  refine .get <| .ite (fun hne => .pure (.full hne)) fun hne => ?_
  have hnil : m.rg.freeList = [] := not_not.mp hne
  exact .lookOr (fun _ hg => .pure (.noGap hnil hg)) fun _ _ hg => .pagingOr (fun _ _ hp => .pure (.noPage hnil hg hp))
    fun _ _ hp => .edit <| .insert fun hf => .pure (.grow hnil hg hp hf)

inductive SlabOut (m : Machine) : Except Errno Nat → Machine → Prop
  | fail {e : Errno} {m' : Machine} : EnsureOut m (.error e) m' → SlabOut m (.error e) m'
  | take {m₁ : Machine} {x : Nat} {rest : List Nat} : EnsureOut m (.ok ()) m₁ → m₁.rg.freeList = x :: rest →
      SlabOut m (.ok x) (m₁.setRg { m₁.rg with freeList := rest })

theorem slabCacheAlloc_gives : Gives slabCacheAlloc m (SlabOut m) := by
  refine .bindOr ensureCache_gives (fun _ _ he => .pure (.fail he)) fun _ m₁ he => .get ?_
  cases hl : m₁.rg.freeList with
  | nil => exact .trap
  | cons x rest => exact .edit <| .pure (.take he hl)

/-! ## Mapping -/

inductive MapOut (v size flags : Nat) (place : Regions → Except Trap (Except Errno (Option Nat × Nat)))
    (map : Nat → MachineProg (Except Errno Unit)) (m : Machine) : Except Errno Nat → Machine → Prop
  | noNode {e : Errno} {m₁ : Machine} : slabCacheAlloc m = .ok (.error e, m₁) → MapOut v size flags place map m (.error e) m₁
  | noPlace {e : Errno} {m₁ : Machine} {x : Nat} : slabCacheAlloc m = .ok (.ok x, m₁) → place m₁.rg = .ok (.error e) →
      MapOut v size flags place map m (.error e) (m₁.free x)
  | noMap {e : Errno} {m₁ m₂ : Machine} {x a : Nat} {c : Option Nat} : slabCacheAlloc m = .ok (.ok x, m₁) →
      place m₁.rg = .ok (.ok (c, a)) → map a m₁ = .ok (.error e, m₂) →
      MapOut v size flags place map m (.error e) (m₂.free x)
  | done {m₁ m₂ : Machine} {x a : Nat} {c : Option Nat} : slabCacheAlloc m = .ok (.ok x, m₁) →
      place m₁.rg = .ok (.ok (c, a)) → map a m₁ = .ok (.ok (), m₂) →
      (m₂.rg.setSpan x ⟨a, add32 a size, flags⟩).Fits v c x →
      MapOut v size flags place map m (.ok a) (m₂.setRg ((m₂.rg.setSpan x ⟨a, add32 a size, flags⟩).link v c x))

theorem mapRegion_gives {place : Regions → Except Trap (Except Errno (Option Nat × Nat))}
    {map : Nat → MachineProg (Except Errno Unit)} :
    Gives (mapRegion v size flags place map) m (MapOut v size flags place map m) :=
  .bindOr .run (fun _ _ hs => .pure (.noNode hs)) fun _ _ hs => .lookOr (fun _ hg => .free <| .pure (.noPlace hs hg))
    fun _ _ hg => .bindOr .run (fun _ _ hm => .free <| .pure (.noMap hs hg hm)) fun _ _ hm => .edit <| .insert fun hf =>
    .pure (.done hs hg hm hf)

/-! ## Splitting -/

inductive SplitOut (v region a size flags : Nat) (m : Machine) : Except Errno Unit → Machine → Prop
  | whole : (m.rg.span region).start = a → add32 a size = (m.rg.span region).stop →
      SplitOut v region a size flags m (.ok ())
        (m.setRg (m.rg.setSpan region { m.rg.span region with flags := flags }))
  | noNode {e : Errno} {m₁ : Machine} : slabCacheAlloc m = .ok (.error e, m₁) → SplitOut v region a size flags m (.error e) m₁
  | noRight {e : Errno} {m₁ m₂ : Machine} {x : Nat} : slabCacheAlloc m = .ok (.ok x, m₁) → slabCacheAlloc m₁ = .ok (.error e, m₂) →
      SplitOut v region a size flags m (.error e) (m₂.free x)
  | left {m₁ : Machine} {x : Nat} : (m.rg.span region).start = a → add32 a size ≠ (m.rg.span region).stop →
      slabCacheAlloc m = .ok (.ok x, m₁) →
      ((m₁.rg.setSpan x ⟨add32 a size, (m.rg.span region).stop, (m.rg.span region).flags⟩).setSpan region
        ⟨a, add32 a size, flags⟩).Fits v (some region) x →
      SplitOut v region a size flags m (.ok ())
        (m₁.setRg (((m₁.rg.setSpan x ⟨add32 a size, (m.rg.span region).stop, (m.rg.span region).flags⟩).setSpan
          region ⟨a, add32 a size, flags⟩).link v (some region) x))
  | right {m₁ : Machine} {x : Nat} : (m.rg.span region).start ≠ a → add32 a size = (m.rg.span region).stop →
      slabCacheAlloc m = .ok (.ok x, m₁) →
      ((m₁.rg.setSpan x ⟨a, (m.rg.span region).stop, flags⟩).setSpan region
        { m.rg.span region with stop := a }).Fits v (some region) x →
      SplitOut v region a size flags m (.ok ())
        (m₁.setRg (((m₁.rg.setSpan x ⟨a, (m.rg.span region).stop, flags⟩).setSpan region
          { m.rg.span region with stop := a }).link v (some region) x))
  | middle {m₁ m₂ : Machine} {x y : Nat} {q q' : Regions} : (m.rg.span region).start ≠ a →
      add32 a size ≠ (m.rg.span region).stop → slabCacheAlloc m = .ok (.ok x, m₁) → slabCacheAlloc m₁ = .ok (.ok y, m₂) →
      q = ((m₂.rg.setSpan x ⟨a, add32 a size, flags⟩).setSpan y
        ⟨add32 a size, (m.rg.span region).stop, (m.rg.span region).flags⟩).setSpan region
          { m.rg.span region with stop := a } →
      q.Fits v (some region) x → q' = q.link v (some region) x → q'.Fits v (some x) y →
      SplitOut v region a size flags m (.ok ()) (m₂.setRg (q'.link v (some x) y))

theorem splitFlags_gives : Gives (splitFlags v i a size flags) m (SplitOut v i a size flags m) := by
  refine .get <| .ite (fun hc => ?_) fun hc => .ite (fun hst => ?_) fun hst => .ite (fun hso => ?_) fun hso => ?_
  · obtain ⟨rfl, hso⟩ := hc
    exact .edit <| .pure (.whole rfl hso)
  · subst hst
    refine .bindOr .run (fun _ _ hs => .pure (.noNode hs)) fun x m₁ hs => .edit <| .insert fun hf => ?_
    have hout := SplitOut.left rfl (fun hso => hc ⟨rfl, hso⟩) hs hf
    exact .pure hout
  · refine .bindOr .run (fun _ _ hs => .pure (.noNode hs)) fun x m₁ hs => .edit <| .insert fun hf => ?_
    have hout := SplitOut.right hst hso.symm hs hf
    exact .pure hout
  · refine .bindOr .run (fun _ _ hs => .pure (.noNode hs)) fun x m₁ hs => .bindOr .run (fun e m₂ hs' => ?_)
      fun y m₂ hs' => ?_
    · exact .free <| .pure (.noRight hs hs')
    · refine .edit <| .insert fun hf => .insert fun hf' => ?_
      have hout := SplitOut.middle hst (Ne.symm hso) hs hs' rfl hf rfl hf'
      exact .pure hout

/-- `set_flags` when it gets as far as the page table; `i` is the region that holds `a`. -/
inductive SetFlagsOut (v a size flags : Nat) (m : Machine) : Except Errno Unit → Machine → Prop
  | refused {r : Except Errno Unit} : SetFlagsOut v a size flags m r m
  | noSplit {i : Nat} {e : Errno} {m₁ : Machine} : vmFindRegion m.rg v a = .ok (some i) →
      add32 a size ≤ (m.rg.span i).stop → SplitOut v i a size flags m (.error e) m₁ →
      SetFlagsOut v a size flags m (.error e) m₁
  | unmapped {i : Nat} {m₁ : Machine} {p : Paging} : vmFindRegion m.rg v a = .ok (some i) →
      add32 a size ≤ (m.rg.span i).stop → SplitOut v i a size flags m (.ok ()) m₁ →
      (m.rg.span i).flags &&& VM_RW ≠ 0 → flags &&& VM_RW = 0 →
      pageTableUnmap m₁.currentPageDirectory a size m₁.pg = .ok ((), p) →
      SetFlagsOut v a size flags m (.ok ()) (m₁.setPg p)
  | changed {i : Nat} {m₁ : Machine} {p : Paging} : vmFindRegion m.rg v a = .ok (some i) →
      add32 a size ≤ (m.rg.span i).stop → SplitOut v i a size flags m (.ok ()) m₁ →
      ((m.rg.span i).flags &&& VM_RW = 0 ↔ flags &&& VM_RW = 0) → validateVmFlags m₁ flags = true →
      pageTableSetFlags m₁.currentPageDirectory a size (pteFlags flags) m₁.pg = .ok ((), p) →
      SetFlagsOut v a size flags m (.ok ()) (m₁.setPg p)

theorem setFlags_gives : Gives (setFlags v a size flags) m (SetFlagsOut v a size flags m) := by
  refine .find (.pure .refused) fun i hr => .get <| .ite (fun _ => .pure .refused) fun hlt => .ite
    (fun _ => .pure .refused) fun _ => .ite (fun _ => .pure .refused) fun hrw => ?_
  have hle := not_lt.mp hlt
  exact .bindOr splitFlags_gives (fun _ _ hs => .pure (.noSplit hr hle hs)) fun _ _ hs => .ite
    (fun hf => .paging fun _ _ hp => .pure (.unmapped hr hle hs hf.1 hf.2 hp)) fun hf => .pteFlags fun hv =>
    .paging fun _ _ hp => .pure (.changed hr hle hs (by tauto) hv hp)

/-! ## Mapping a mapped range -/

def shareMap (src size flags a : Nat) : MachineProg (Except Errno Unit) := do
  let pf ← toPteFlags flags
  paging fun d => pageTableShallowCopy d a src size pf

inductive VirtOut (v src size flags : Nat) (m : Machine) : Except Errno Nat → Machine → Prop
  | noAlloc {e : Errno} {m₁ : Machine} : flags &&& VM_SHARED = 0 →
      alloc v size (flags ||| VM_WRITE) m = .ok (.error e, m₁) → VirtOut v src size flags m (.error e) m₁
  | writable {a : Nat} {m₁ m₂ : Machine} : flags &&& VM_SHARED = 0 → flags &&& VM_WRITE ≠ 0 →
      alloc v size (flags ||| VM_WRITE) m = .ok (.ok a, m₁) → copyPages a src size m₁ = .ok ((), m₂) →
      VirtOut v src size flags m (.ok a) m₂
  | readOnly {a : Nat} {m₁ m₂ m₃ : Machine} {r : Except Errno Unit} : flags &&& VM_SHARED = 0 →
      flags &&& VM_WRITE = 0 → alloc v size (flags ||| VM_WRITE) m = .ok (.ok a, m₁) →
      copyPages a src size m₁ = .ok ((), m₂) → setFlags v a size flags m₂ = .ok (r, m₃) →
      VirtOut v src size flags m (.ok a) m₃
  | shared {r : Except Errno Nat} {m' : Machine} : flags &&& VM_SHARED ≠ 0 → flags &&& VM_RW ≠ 0 →
      MapOut v size flags (vmFindGap · v size) (shareMap src size flags) m r m' →
      VirtOut v src size flags m (r.mapError fun _ => .ENOMEM) m'

theorem virtMap_gives : Gives (virtMap v src size flags) m (VirtOut v src size flags m) := by
  refine .ite (fun hsh => .bindOr .run (fun _ _ ha => .pure (.noAlloc hsh ha)) fun _ _ ha => .bind .run fun _ _ hc => ?_)
    fun hsh => .ensure fun hrw => .bindOr (x := mapRegion v size flags (vmFindGap · v size) (shareMap src size flags))
      mapRegion_gives (fun _ _ hm => .pure (.shared hsh hrw hm)) fun _ _ hm => .pure (.shared hsh hrw hm)
  exact .ite (fun hw => .bind .run fun _ _ hf => .pure (.readOnly hsh hw ha hc hf)) fun hw => .pure (.writable hsh hw ha hc)

/-! ## Resizing -/

inductive MoveOut (v i newSize pf : Nat) (m : Machine) : Except Errno Nat → Machine → Prop
  | noGap {e : Errno} : vmFindGap m.rg v newSize = .ok (.error e) → MoveOut v i newSize pf m (.error e) m
  | noCopy {e : Errno} {c : Option Nat} {b : Nat} {p : Paging} : vmFindGap m.rg v newSize = .ok (.ok (c, b)) →
      pageTableShallowCopy m.currentPageDirectory b (m.rg.span i).start
        (sub32 (m.rg.span i).stop (m.rg.span i).start) pf m.pg = .ok (.error e, p) →
      MoveOut v i newSize pf m (.error e) (m.setPg p)
  | noExtend {e : Errno} {c : Option Nat} {b old : Nat} {p₁ p₂ p₃ : Paging} :
      vmFindGap m.rg v newSize = .ok (.ok (c, b)) → old = sub32 (m.rg.span i).stop (m.rg.span i).start →
      pageTableShallowCopy m.currentPageDirectory b (m.rg.span i).start old pf m.pg = .ok (.ok (), p₁) →
      mapTail (m.rg.span i).flags m.currentPageDirectory (add32 b old) (sub32 newSize old) pf p₁ = .ok (.error e, p₂) →
      pageTableUnmap m.currentPageDirectory b old p₂ = .ok ((), p₃) →
      MoveOut v i newSize pf m (.error e) (m.setPg p₃)
  | done {c : Option Nat} {b old : Nat} {p₁ p₂ p₃ : Paging} {q : Regions} :
      vmFindGap m.rg v newSize = .ok (.ok (c, b)) → old = sub32 (m.rg.span i).stop (m.rg.span i).start →
      pageTableShallowCopy m.currentPageDirectory b (m.rg.span i).start old pf m.pg = .ok (.ok (), p₁) →
      mapTail (m.rg.span i).flags m.currentPageDirectory (add32 b old) (sub32 newSize old) pf p₁ = .ok (.ok (), p₂) →
      pageTableUnmap m.currentPageDirectory (m.rg.span i).start old p₂ = .ok ((), p₃) →
      q = (m.rg.setSpan i ⟨b, add32 b newSize, (m.rg.span i).flags⟩).unlink v i → q.Fits v c i →
      MoveOut v i newSize pf m (.ok b) ((m.setPg p₃).setRg (q.link v c i))

theorem moveRegion_gives {pf : Nat} : Gives (moveRegion v i newSize pf) m (MoveOut v i newSize pf m) :=
  .get <| .lookOr (fun _ hg => .pure (.noGap hg)) fun _ _ hg => .pagingOr (fun _ _ hp1 => .pure (.noCopy hg hp1))
    fun _ _ hp1 => .pagingOr (fun _ _ hp2 => .paging fun _ _ hp3 => .pure (.noExtend hg rfl hp1 hp2 hp3)) fun _ _ hp2 =>
    .paging fun _ _ hp3 => .edit <| .edit <| .insert fun hf => .pure (.done hg rfl hp1 hp2 hp3 rfl hf)

inductive ResizeOut (v a newSize : Nat) (m : Machine) : Except Errno Nat → Machine → Prop
  | refused {r : Except Errno Nat} : ResizeOut v a newSize m r m
  | shrink {i : Nat} {p : Paging} : vmFindRegion m.rg v a = .ok (some i) → (m.rg.span i).start = a →
      newSize < sub32 (m.rg.span i).stop a →
      pageTableUnmap m.currentPageDirectory (add32 a newSize) (sub32 (sub32 (m.rg.span i).stop a) newSize) m.pg =
        .ok ((), p) →
      ResizeOut v a newSize m (.ok a)
        ((m.setPg p).setRg (m.rg.setSpan i ⟨a, add32 a newSize, (m.rg.span i).flags⟩))
  | grow {i old : Nat} {p : Paging} : vmFindRegion m.rg v a = .ok (some i) → (m.rg.span i).start = a →
      old = sub32 (m.rg.span i).stop a → old ≤ newSize → validateVmFlags m (m.rg.span i).flags = true →
      m.rg.endsBefore (add32 a newSize + 1) (m.rg.node i).next = true →
      mapTail (m.rg.span i).flags m.currentPageDirectory (add32 a old) (sub32 newSize old)
        (pteFlags (m.rg.span i).flags) m.pg = .ok (.ok (), p) →
      ResizeOut v a newSize m (.ok a)
        ((m.setPg p).setRg (m.rg.setSpan i ⟨a, add32 a newSize, (m.rg.span i).flags⟩))
  | noGrow {i old : Nat} {p : Paging} {e : Errno} : vmFindRegion m.rg v a = .ok (some i) →
      (m.rg.span i).start = a → old = sub32 (m.rg.span i).stop a → old ≤ newSize →
      validateVmFlags m (m.rg.span i).flags = true →
      mapTail (m.rg.span i).flags m.currentPageDirectory (add32 a old) (sub32 newSize old)
        (pteFlags (m.rg.span i).flags) m.pg = .ok (.error e, p) →
      ResizeOut v a newSize m (.error e) (m.setPg p)
  | move {i : Nat} {r : Except Errno Nat} {m' : Machine} : vmFindRegion m.rg v a = .ok (some i) →
      (m.rg.span i).start = a → sub32 (m.rg.span i).stop a ≤ newSize →
      validateVmFlags m (m.rg.span i).flags = true →
      m.rg.endsBefore (add32 a newSize + 1) (m.rg.node i).next = false →
      MoveOut v i newSize (pteFlags (m.rg.span i).flags) m r m' → ResizeOut v a newSize m r m'

theorem resize_gives : Gives (resize v a newSize) m (ResizeOut v a newSize m) := by
  refine .find (.pure .refused) fun i hr => .get <| .ite (fun _ => .pure .refused) fun ha => .ite
    (fun _ => .pure .refused) fun _ => ?_
  obtain rfl : a = (m.rg.span i).start := not_not.mp ha
  refine .ite (fun hlt => .paging fun _ _ hp => .edit <| .pure (.shrink hr rfl hlt hp)) fun hlt => .pteFlags fun hv =>
    .get <| .ite (fun hb => ?_) fun hb => ?_
  · exact .pagingOr (fun _ _ hp => .pure (.noGrow hr rfl rfl (not_lt.mp hlt) hv hp)) fun _ _ hp => .edit <|
      .pure (.grow hr rfl rfl (not_lt.mp hlt) hv hb hp)
  · exact fun r m' hrun => .move hr rfl (not_lt.mp hlt) hv (Bool.eq_false_iff.mpr hb) (moveRegion_gives r m' hrun)

/-! ## Unmapping -/

inductive UnmapOut (v a size : Nat) (m : Machine) : Except Errno Unit → Machine → Prop
  | refused {r : Except Errno Unit} : UnmapOut v a size m r m
  | whole {i : Nat} {p : Paging} : vmFindRegion m.rg v a = .ok (some i) → (m.rg.span i).start = a →
      add32 a size = (m.rg.span i).stop → pageTableUnmap m.currentPageDirectory a size m.pg = .ok ((), p) →
      UnmapOut v a size m (.ok ()) (((m.setPg p).setRg (m.rg.unlink v i)).free i)
  | front {i : Nat} {p : Paging} : vmFindRegion m.rg v a = .ok (some i) → (m.rg.span i).start = a →
      add32 a size < (m.rg.span i).stop → pageTableUnmap m.currentPageDirectory a size m.pg = .ok ((), p) →
      UnmapOut v a size m (.ok ())
        ((m.setPg p).setRg (m.rg.setSpan i ⟨add32 a size, (m.rg.span i).stop, (m.rg.span i).flags⟩))
  | back {i : Nat} {p : Paging} : vmFindRegion m.rg v a = .ok (some i) → (m.rg.span i).start ≠ a →
      add32 a size = (m.rg.span i).stop → pageTableUnmap m.currentPageDirectory a size m.pg = .ok ((), p) →
      UnmapOut v a size m (.ok ()) ((m.setPg p).setRg
        (m.rg.setSpan i ⟨(m.rg.span i).start, sub32 (m.rg.span i).stop size, (m.rg.span i).flags⟩))
  | noNode {i : Nat} {e : Errno} {m₁ : Machine} : vmFindRegion m.rg v a = .ok (some i) →
      slabCacheAlloc m = .ok (.error e, m₁) → UnmapOut v a size m (.error e) m₁
  | middle {i x : Nat} {m₁ : Machine} {p : Paging} {q : Regions} : vmFindRegion m.rg v a = .ok (some i) →
      (m.rg.span i).start ≠ a → add32 a size < (m.rg.span i).stop → slabCacheAlloc m = .ok (.ok x, m₁) →
      pageTableUnmap m₁.currentPageDirectory a size m₁.pg = .ok ((), p) →
      q = (m₁.rg.setSpan x ⟨add32 a size, (m.rg.span i).stop, (m.rg.span i).flags⟩).setSpan i
        ⟨(m.rg.span i).start, a, (m.rg.span i).flags⟩ → q.Fits v (some i) x →
      UnmapOut v a size m (.ok ()) ((m₁.setPg p).setRg (q.link v (some i) x))

theorem unmap_gives : Gives (unmap v a size) m (UnmapOut v a size m) := by
  refine .find (.pure .refused) fun i hr => .get <| .ite (fun _ => .pure .refused) fun hle => .ite
    (fun hc => .paging fun _ _ hp => .edit <| .free <| .pure (.whole hr hc.1 (hc.1 ▸ hc.2) hp)) fun hc => .ite (fun ha => ?_)
    fun ha => .ite (fun hs => .paging fun _ _ hp => .edit <| .pure (.back hr ha hs.symm hp)) fun hs => ?_
  · subst ha
    exact .paging fun _ _ hp => .edit <| .pure
      (.front hr rfl (lt_of_le_of_ne (not_lt.mp hle) fun hh => hc ⟨rfl, hh⟩) hp)
  · exact .bindOr .run (fun _ _ hx => .pure (.noNode hr hx)) fun _ _ hx => .paging fun _ _ hp => .edit <| .insert fun hf => by
        have hout := UnmapOut.middle hr ha (lt_of_le_of_ne (not_lt.mp hle) (Ne.symm hs)) hx hp rfl hf
        exact .pure hout

inductive FreeOut (a : Nat) (m : Machine) : Except Errno Unit → Machine → Prop
  | refused {e : Errno} : FreeOut a m (.error e) m
  | done {v i : Nat} {p : Paging} : a ≠ 0 → m.Target (isKernelAddress a = true) v →
      vmFindRegion m.rg v a = .ok (some i) → (m.rg.span i).start = roundDown a →
      pageTableUnmap m.currentPageDirectory (m.rg.span i).start (sub32 (m.rg.span i).stop (m.rg.span i).start) m.pg =
        .ok ((), p) →
      FreeOut a m (.ok ()) (((m.setPg p).setRg (m.rg.unlink v i)).free i)

theorem vmFree_gives : Gives (vmFree a) m (FreeOut a m) :=
  .ite (fun _ => .pure .refused) fun h0 => .vmForAddr fun _ ht => .find (.pure .refused) fun _ hr => .get <|
    .ite (fun _ => .pure .refused) fun hs => .paging fun _ _ hp => .edit <| .free <| .pure
    (.done h0 ht hr (not_not.mp hs) hp)

end Yagura
