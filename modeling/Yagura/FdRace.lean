import Yagura.Fds

/-!
# Threads that share a descriptor table

`close`, `dup`, `dup3`, `read`, `write` and `poll` of threads with one
`struct files`. A step is one section under `files->lock` or one access to a
`struct file`. `task_get_file` takes no reference, and `file_close` drops the
descriptor's reference before `task_free_file_descriptor` clears the slot, so
a file that loses its last reference can still be in the slot or in another
thread's hands. Calls that stop at a descriptor that is not open change
nothing and are left out.
-/

namespace Yagura

open Function

/-- Where a thread stands. In the steps that close a descriptor `k` is the
`oldfd_file` of `sys_dup3`. -/
inductive FdPc
  | idle
  | use (fs : List Nat) (rest : List Int)
  | close (f : Nat) (fd : Int) (k : Option Nat)
  | drop (f : Nat) (fd : Int) (k : Option Nat)
  /-- `ref_count` is zero, `fops->close` and `kfree` follow. -/
  | release (f : Nat) (fd : Int) (k : Option Nat)
  | free (fd : Int) (k : Option Nat)
  | dup3 (f : Nat) (newfd : Int)
  | alloc (f : Nat) (fd : Int)
  | ref (f : Nat)

namespace FdPc

def Touches (f : Nat) : FdPc → Prop
  | .use fs [] => f ∈ fs
  | .close g _ _ | .drop g _ _ | .release g _ _ | .ref g => f = g
  | _ => False

def Needs (f : Nat) : FdPc → Prop
  | .use fs _ => f ∈ fs
  | .close g _ k | .drop g _ k => f = g ∨ k = some f
  | .release _ _ k | .free _ k => k = some f
  | .dup3 g _ | .alloc g _ | .ref g => f = g
  | .idle => False

end FdPc

structure FdRace where
  slot : Nat → Option Nat
  refCount : Nat → Nat
  freed : Nat → Bool
  pc : Nat → FdPc

namespace FdRace

def setPc (s : FdRace) (t : Nat) (p : FdPc) : FdRace := { s with pc := update s.pc t p }

def setSlot (s : FdRace) (j : Nat) (e : Option Nat) : FdRace := { s with slot := update s.slot j e }

def setRef (s : FdRace) (f r : Nat) : FdRace := { s with refCount := update s.refCount f r }

def setFreed (s : FdRace) (f : Nat) : FdRace := { s with freed := update s.freed f true }

def get (s : FdRace) (fd : Int) : Option Nat := if 0 ≤ fd ∧ fd < OPEN_MAX then s.slot fd.toNat else none

def freeSlot (s : FdRace) (fd : Int) : Option Nat :=
  if (OPEN_MAX : Int) ≤ fd then none
  else if 0 ≤ fd then if (s.slot fd.toNat).isNone then some fd.toNat else none
  else (List.range OPEN_MAX).find? fun j => (s.slot j).isNone

def decrement (r : Nat) : Nat := if r = 0 then 2 ^ 32 - 1 else r - 1

def afterFree (fd : Int) : Option Nat → FdPc
  | none => .idle
  | some f => .alloc f fd

inductive Step : FdRace → Nat → FdRace → Prop
  | read {s t fd f} : s.pc t = .idle → s.get fd = some f → Step s t (s.setPc t (.use [f] []))
  | poll {s t} (fds : List Int) : s.pc t = .idle → Step s t (s.setPc t (.use [] fds))
  | pollGet {s t fs fd rest} : s.pc t = .use fs (fd :: rest) →
      Step s t (s.setPc t (.use ((s.get fd).toList ++ fs) rest))
  | access {s t fs f} : s.pc t = .use fs [] → f ∈ fs → Step s t s
  | finish {s t fs} : s.pc t = .use fs [] → Step s t (s.setPc t .idle)
  | close {s t fd f} : s.pc t = .idle → s.get fd = some f → Step s t (s.setPc t (.close f fd none))
  | assert {s t f fd k} : s.pc t = .close f fd k → 0 < s.refCount f → Step s t (s.setPc t (.drop f fd k))
  | drop {s t f fd k} : s.pc t = .drop f fd k → s.refCount f ≠ 1 →
      Step s t ((s.setRef f (decrement (s.refCount f))).setPc t (.free fd k))
  | dropLast {s t f fd k} : s.pc t = .drop f fd k → s.refCount f = 1 →
      Step s t ((s.setRef f 0).setPc t (.release f fd k))
  | release {s t f fd k} : s.pc t = .release f fd k → Step s t ((s.setFreed f).setPc t (.free fd k))
  | free {s t fd k f} : s.pc t = .free fd k → s.get fd = some f →
      Step s t ((s.setSlot fd.toNat none).setPc t (afterFree fd k))
  | freeFail {s t fd k} : s.pc t = .free fd k → s.get fd = none → Step s t (s.setPc t .idle)
  /-- `sys_dup`, or `sys_fcntl` with `F_DUPFD`. -/
  | dup {s t fd f} : s.pc t = .idle → s.get fd = some f → Step s t (s.setPc t (.alloc f (-1)))
  | dup3 {s t oldfd newfd f} : s.pc t = .idle → s.get oldfd = some f → oldfd ≠ newfd →
      Step s t (s.setPc t (.dup3 f newfd))
  | dup3Close {s t newfd f g} : s.pc t = .dup3 f newfd → s.get newfd = some g →
      Step s t (s.setPc t (.close g newfd (some f)))
  | dup3Free {s t newfd f} : s.pc t = .dup3 f newfd → s.get newfd = none → Step s t (s.setPc t (.alloc f newfd))
  | alloc {s t fd f j} : s.pc t = .alloc f fd → s.freeSlot fd = some j →
      Step s t ((s.setSlot j (some f)).setPc t (.ref f))
  | allocFail {s t fd f} : s.pc t = .alloc f fd → s.freeSlot fd = none → Step s t (s.setPc t .idle)
  | ref {s t f} : s.pc t = .ref f → Step s t ((s.setRef f (s.refCount f + 1)).setPc t .idle)

def Initial (s : FdRace) : Prop :=
  (∀ t, s.pc t = .idle) ∧ ∀ j < OPEN_MAX, ∀ f, s.slot j = some f → 0 < s.refCount f ∧ s.freed f = false

/-! ## Open files -/

def Live (s : FdRace) (f : Nat) : Prop := 0 < s.refCount f ∧ s.freed f = false

structure Safe (s : FdRace) : Prop where
  slots : ∀ j < OPEN_MAX, ∀ f, s.slot j = some f → s.Live f
  needs : ∀ t f, (s.pc t).Needs f → s.Live f
  releases : ∀ t f fd k, s.pc t = .release f fd k → s.refCount f = 0 ∧ s.freed f = false ∧
    ∀ u fd' k', s.pc u = .release f fd' k' → u = t

/-- A thread drops the last reference to a file only when nothing else leads to it. -/
def ordered (s : FdRace) (t : Nat) : Prop := ∀ f fd k, s.pc t = .drop f fd k → s.refCount f = 1 →
  (∀ j < OPEN_MAX, s.slot j ≠ some f) ∧ k ≠ some f ∧ ∀ u, u ≠ t → ¬ (s.pc u).Needs f

variable {s s' : FdRace} {t f : Nat}

theorem get_some {fd : Int} (h : s.get fd = some f) : fd.toNat < OPEN_MAX ∧ s.slot fd.toNat = some f := by
  unfold get at h
  split_ifs at h with hb
  exact ⟨by omega, h⟩

theorem Safe.get (hs : Safe s) {fd : Int} (h : s.get fd = some f) : s.Live f :=
  hs.slots _ (get_some h).1 f (get_some h).2

theorem Safe.setPc (hs : Safe s) {p : FdPc} (hn : ∀ f, p.Needs f → s.Live f)
    (hp : ∀ f fd k, p ≠ .release f fd k) : Safe (s.setPc t p) := by
  refine ⟨hs.slots, fun u f hu => ?_, fun u f fd k hu => ?_⟩
  · by_cases he : u = t
    · subst he
      exact hn f (by simpa [FdRace.setPc] using hu)
    · exact hs.needs u f (by simpa [FdRace.setPc, he] using hu)
  · by_cases he : u = t
    · subst he
      exact absurd (by simpa [FdRace.setPc] using hu) (hp f fd k)
    · obtain ⟨h0, hf, hun⟩ := hs.releases u f fd k (by simpa [FdRace.setPc, he] using hu)
      refine ⟨h0, hf, fun v fd' k' hv => ?_⟩
      by_cases hv' : v = t
      · subst hv'
        exact absurd (by simpa [FdRace.setPc] using hv) (hp f fd' k')
      · exact hun v fd' k' (by simpa [FdRace.setPc, hv'] using hv)

theorem Safe.setSlot (hs : Safe s) {j : Nat} {e : Option Nat} (he : ∀ f, e = some f → s.Live f) :
    Safe (s.setSlot j e) := by
  refine ⟨fun m hm f hf => ?_, hs.needs, hs.releases⟩
  by_cases hj : m = j
  · subst hj
    exact he f (by simpa [FdRace.setSlot] using hf)
  · exact hs.slots m hm f (by simpa [FdRace.setSlot, hj] using hf)

theorem Safe.setRef (hs : Safe s) {r : Nat} (hf : s.Live f) (hr : 0 < r) : Safe (s.setRef f r) := by
  have live : ∀ g, s.Live g → (s.setRef f r).Live g := by
    rintro g ⟨h1, h2⟩
    refine ⟨?_, h2⟩
    by_cases he : g = f
    · subst he
      simpa [FdRace.setRef] using hr
    · simpa [FdRace.setRef, he] using h1
  refine ⟨fun j hj g hg => live g (hs.slots j hj g hg), fun u g hg => live g (hs.needs u g hg), fun u g fd k hu => ?_⟩
  obtain ⟨h0, hre⟩ := hs.releases u g fd k hu
  have hne : g ≠ f := by
    rintro rfl
    exact absurd hf.1 (by omega)
  exact ⟨by simpa [FdRace.setRef, hne] using h0, hre⟩

theorem Safe.dropLast_iff (hs : Safe s) {fd : Int} {k : Option Nat} (hp : s.pc t = .drop f fd k)
    (h1 : s.refCount f = 1) : Safe ((s.setRef f 0).setPc t (.release f fd k)) ↔ ordered s t := by
  have hf : s.Live f := hs.needs t f (by simp [hp, FdPc.Needs])
  have hze : ¬ ((s.setRef f 0).setPc t (.release f fd k)).Live f := by
    simp [Live, FdRace.setRef, FdRace.setPc]
  have hpc : ∀ u, u ≠ t → ((s.setRef f 0).setPc t (.release f fd k)).pc u = s.pc u := fun u hu => by
    simp [FdRace.setRef, FdRace.setPc, hu]
  have hpct : ((s.setRef f 0).setPc t (.release f fd k)).pc t = .release f fd k := by simp [FdRace.setPc]
  constructor
  · intro hsa f' fd' k' hp' _
    rw [hp] at hp'
    cases hp'
    refine ⟨fun j hj hsl => hze (hsa.slots j hj f hsl), fun hk => hze (hsa.needs t f ?_),
      fun u hu hns => hze (hsa.needs u f ?_)⟩
    · rw [hpct]
      exact hk
    · rw [hpc u hu]
      exact hns
  · intro hok
    obtain ⟨hso, hk, hot⟩ := hok f fd k hp h1
    have live : ∀ g, g ≠ f → s.Live g → ((s.setRef f 0).setPc t (.release f fd k)).Live g := fun g hg h => by
      simpa [Live, FdRace.setRef, FdRace.setPc, hg] using h
    refine ⟨fun j hj g hg => ?_, fun u g hg => ?_, fun u g fd' k' hu => ?_⟩
    · refine live g ?_ (hs.slots j hj g hg)
      rintro rfl
      exact hso j hj hg
    · by_cases hut : u = t
      · subst hut
        rw [hpct] at hg
        have hg' : k = some g := hg
        refine live g (fun he => hk (he ▸ hg')) (hs.needs u g ?_)
        rw [hp]
        exact .inr hg'
      · rw [hpc u hut] at hg
        exact live g (fun he => hot u hut (he ▸ hg)) (hs.needs u g hg)
    · -- nobody else can be releasing `f`, whose count was not zero
      have hrel : ∀ v g' fd' k', v ≠ t → s.pc v = .release g' fd' k' → g' ≠ f := by
        rintro v g' fd' k' - hv rfl
        have := (hs.releases v g' fd' k' hv).1
        omega
      by_cases hut : u = t
      · subst hut
        rw [hpct] at hu
        cases hu
        refine ⟨by simp [FdRace.setRef, FdRace.setPc], hf.2, fun v fd'' k'' hv => ?_⟩
        by_contra hvt
        rw [hpc v hvt] at hv
        exact hrel v f fd'' k'' hvt hv rfl
      · rw [hpc u hut] at hu
        have hne := hrel u g fd' k' hut hu
        obtain ⟨h0, hfr, hun⟩ := hs.releases u g fd' k' hu
        refine ⟨by simpa [FdRace.setRef, FdRace.setPc, hne] using h0, hfr, fun v fd'' k'' hv => ?_⟩
        by_cases hvt : v = t
        · subst hvt
          rw [hpct] at hv
          cases hv
          exact absurd rfl hne
        · rw [hpc v hvt] at hv
          exact hun v fd'' k'' hv

theorem Safe.release (hs : Safe s) {fd : Int} {k : Option Nat} (hp : s.pc t = .release f fd k) :
    Safe ((s.setFreed f).setPc t (.free fd k)) := by
  obtain ⟨h0, -, hun⟩ := hs.releases t f fd k hp
  have live : ∀ g, s.Live g → ((s.setFreed f).setPc t (.free fd k)).Live g := by
    rintro g ⟨h1, h2⟩
    have hne : g ≠ f := by
      rintro rfl
      omega
    exact ⟨h1, by simpa [FdRace.setFreed, FdRace.setPc, hne] using h2⟩
  refine ⟨fun j hj g hg => live g (hs.slots j hj g hg), fun u g hg => ?_, fun u g fd' k' hu => ?_⟩
  · by_cases hut : u = t
    · subst hut
      refine live g (hs.needs u g ?_)
      rw [hp]
      simpa [FdRace.setPc, FdRace.setFreed, FdPc.Needs] using hg
    · exact live g (hs.needs u g (by simpa [FdRace.setPc, FdRace.setFreed, hut] using hg))
  · by_cases hut : u = t
    · subst hut
      simp [FdRace.setPc] at hu
    · have hu' : s.pc u = .release g fd' k' := by simpa [FdRace.setPc, FdRace.setFreed, hut] using hu
      obtain ⟨hg0, hgf, hgu⟩ := hs.releases u g fd' k' hu'
      have hne : g ≠ f := by
        rintro rfl
        exact hut (hun u fd' k' hu')
      refine ⟨hg0, by simpa [FdRace.setPc, FdRace.setFreed, hne] using hgf, fun v fd'' k'' hv => ?_⟩
      by_cases hvt : v = t
      · subst hvt
        simp [FdRace.setPc] at hv
      · exact hgu v fd'' k'' (by simpa [FdRace.setPc, FdRace.setFreed, hvt] using hv)

theorem Safe.step_iff (hs : Safe s) (h : Step s t s') : Safe s' ↔ ordered s t := by
  -- only a thread that drops a reference can be out of order
  have quiet : ∀ {p}, s.pc t = p → (∀ f fd k, p ≠ .drop f fd k) → Safe s' → (Safe s' ↔ ordered s t) := by
    intro p hp hne hsa
    refine ⟨fun _ f fd k hd _ => ?_, fun _ => hsa⟩
    rw [hp] at hd
    exact absurd hd (hne f fd k)
  cases h with
  | @read _ f hp hg | @close _ f hp hg =>
    refine quiet hp nofun (hs.setPc (fun g hn => ?_) nofun)
    obtain rfl : g = f := by simpa [FdPc.Needs] using hn
    exact hs.get hg
  | poll fds hp => exact quiet hp nofun (hs.setPc (fun g hn => by simp [FdPc.Needs] at hn) nofun)
  | @pollGet fs fd rest hp =>
    refine quiet hp nofun (hs.setPc (fun g hn => ?_) nofun)
    obtain hn | hn := List.mem_append.mp (show g ∈ (s.get fd).toList ++ fs from hn)
    · exact hs.get (Option.mem_toList.mp hn)
    · exact hs.needs t g (by simpa [hp, FdPc.Needs] using hn)
  | access hp _ => exact quiet hp nofun hs
  | finish hp | freeFail hp | allocFail hp => exact quiet hp nofun (hs.setPc (fun _ hn => hn.elim) nofun)
  | assert hp | dup3Free hp =>
    exact quiet hp nofun (hs.setPc (fun g hn => hs.needs t g (by rw [hp]; exact hn)) nofun)
  | @drop f fd k hp h1 =>
    have hf : s.Live f := hs.needs t f (by simp [hp, FdPc.Needs])
    have hpos : 0 < decrement (s.refCount f) := by
      unfold decrement
      split_ifs <;> omega
    have hsa : Safe ((s.setRef f (decrement (s.refCount f))).setPc t (.free fd k)) := by
      have hs' := hs.setRef hf hpos
      refine hs'.setPc (fun g hn => hs'.needs t g ?_) nofun
      change (s.pc t).Needs g
      rw [hp]
      exact .inr hn
    refine ⟨fun _ f' fd' k' hd h1' => ?_, fun _ => hsa⟩
    rw [hp] at hd
    cases hd
    exact absurd h1' h1
  | dropLast hp h1 => exact hs.dropLast_iff hp h1
  | release hp => exact quiet hp nofun (hs.release hp)
  | @free fd k f hp hg =>
    have hs' : Safe (s.setSlot fd.toNat none) := hs.setSlot nofun
    refine quiet hp nofun (hs'.setPc (fun g hn => ?_) fun _ _ _ => by cases k <;> nofun)
    cases k with
    | none => exact hn.elim
    | some m =>
      obtain rfl : g = m := hn
      exact hs.needs t g (by simp [hp, FdPc.Needs])
  | @dup _ f hp hg | @dup3 _ _ f hp hg =>
    refine quiet hp nofun (hs.setPc (fun g hn => ?_) nofun)
    obtain rfl : g = f := hn
    exact hs.get hg
  | @dup3Close newfd f g hp hg =>
    refine quiet hp nofun (hs.setPc (fun m hn => ?_) nofun)
    obtain rfl | hn := hn
    · exact hs.get hg
    · cases hn
      exact hs.needs t f (by simp [hp, FdPc.Needs])
  | @alloc fd f j hp _ =>
    have hf : s.Live f := hs.needs t f (by simp [hp, FdPc.Needs])
    have hs' : Safe (s.setSlot j (some f)) := hs.setSlot fun g hg => Option.some.inj hg ▸ hf
    exact quiet hp nofun (hs'.setPc (fun g hn => (show g = f from hn) ▸ hf) nofun)
  | @ref f hp =>
    have hf : s.Live f := hs.needs t f (by simp [hp, FdPc.Needs])
    exact quiet hp nofun ((hs.setRef hf (Nat.succ_pos _)).setPc (fun _ hn => hn.elim) nofun)

/-! ## Runs -/

structure NoRace (s : FdRace) : Prop where
  accesses : ∀ t f, (s.pc t).Touches f → s.freed f = false
  asserts : ∀ t f fd k, s.pc t = .close f fd k → 0 < s.refCount f
  slots : ∀ j < OPEN_MAX, ∀ f, s.slot j = some f → s.freed f = false

theorem Initial.safe (h : Initial s) : Safe s := by
  refine ⟨h.2, fun t f hn => ?_, fun t f fd k hp => ?_⟩
  · rw [h.1 t] at hn
    exact hn.elim
  · rw [h.1 t] at hp
    cases hp

theorem Safe.noRace (hs : Safe s) : NoRace s := by
  refine ⟨fun t f ht => ?_, fun t f fd k hp => (hs.needs t f (by simp [hp, FdPc.Needs])).1,
    fun j hj f hf => (hs.slots j hj f hf).2⟩
  cases hp : s.pc t with
  | use fs rest =>
    cases rest with
    | nil => exact (hs.needs t f (by simpa [hp, FdPc.Touches, FdPc.Needs] using ht)).2
    | cons => simp [hp, FdPc.Touches] at ht
  | close | drop =>
    exact (hs.needs t f (by rw [hp] at ht ⊢; exact .inl ht)).2
  | release g fd k =>
    rw [hp] at ht
    obtain rfl : f = g := ht
    exact (hs.releases t f fd k hp).2.1
  | ref g => exact (hs.needs t f (by rw [hp] at ht ⊢; exact ht)).2
  | _ => simp [hp, FdPc.Touches] at ht

theorem no_race_of_ordered {s₀ : FdRace} (h₀ : Initial s₀) (hr : Run Step ordered s₀ s) :
    NoRace s ∧ ∀ t s', Step s t s' → (Safe s' ↔ ordered s t) := by
  have hs : Safe s := hr.invariant h₀.safe fun _ _ _ hs h hok => (hs.step_iff h).mpr hok
  exact ⟨hs.noRace, fun _ _ h => hs.step_iff h⟩

def oneFile : FdRace := ⟨fun j => if j = 0 then some 0 else none, fun _ => 1, fun _ => false, fun _ => .idle⟩

theorem oneFile_initial : Initial oneFile := ⟨fun _ => rfl, fun _ _ _ _ => ⟨Nat.one_pos, rfl⟩⟩

theorem ordered_of_ne {p : FdPc} (hp : s.pc t = p) (hne : ∀ f fd k, p = .drop f fd k → s.refCount f ≠ 1) :
    ordered s t := by
  intro f fd k hd h1
  rw [hp] at hd
  exact absurd h1 (hne f fd k hd)

theorem no_race_with_reader :
    ∃ s, Initial oneFile ∧ Run Step ordered oneFile s ∧ s.slot 0 = none ∧ s.slot 1 = some 0 ∧ NoRace s := by
  have r₀ : Run Step ordered oneFile oneFile := .refl _
  have r₁ := r₀.tail (@Step.read _ 0 0 0 rfl rfl) (ordered_of_ne rfl nofun)
  have r₂ := r₁.tail (@Step.dup _ 1 0 0 rfl rfl) (ordered_of_ne rfl nofun)
  have r₃ := r₂.tail (@Step.alloc _ 1 (-1) 0 1 rfl (by decide +kernel)) (ordered_of_ne rfl nofun)
  have r₄ := r₃.tail (@Step.ref _ 1 0 rfl) (ordered_of_ne rfl nofun)
  have r₅ := r₄.tail (@Step.close _ 1 0 0 rfl rfl) (ordered_of_ne rfl nofun)
  have r₆ := r₅.tail (@Step.assert _ 1 0 0 none rfl Nat.two_pos) (ordered_of_ne rfl nofun)
  have r₇ := r₆.tail (@Step.drop _ 1 0 0 none rfl nofun)
    (ordered_of_ne rfl (by rintro f fd k ⟨⟩; nofun))
  have r₈ := r₇.tail (@Step.free _ 1 0 none 0 rfl rfl) (ordered_of_ne rfl nofun)
  exact ⟨_, oneFile_initial, r₈, rfl, rfl, (no_race_of_ordered oneFile_initial r₈).1⟩

/-- One thread closes the descriptor while another reads from it. -/
theorem read_after_close : ∃ s, Initial oneFile ∧ Run Step (fun _ _ => True) oneFile s ∧
    (s.pc 1).Touches 0 ∧ s.freed 0 = true ∧ s.slot 0 = some 0 := by
  have r₀ : Run Step (fun _ _ => True) oneFile oneFile := .refl _
  have r₁ := r₀.tail (@Step.read _ 1 0 0 rfl rfl) trivial
  have r₂ := r₁.tail (@Step.close _ 0 0 0 rfl rfl) trivial
  have r₃ := r₂.tail (@Step.assert _ 0 0 0 none rfl Nat.one_pos) trivial
  have r₄ := r₃.tail (@Step.dropLast _ 0 0 0 none rfl rfl) trivial
  have r₅ := r₄.tail (@Step.release _ 0 0 0 none rfl) trivial
  exact ⟨_, oneFile_initial, r₅, List.mem_singleton.mpr rfl, rfl, rfl⟩

end FdRace

end Yagura
