import Yagura.Paging

/-!
# What the paging functions leave alone

Mapping, unmapping and cloning change frames, reference counts and directory
entries, never which directories there are.
-/

namespace Yagura

open Paging Prog

def Paging.shape (s : Paging) : Nat × (Nat → Nat) × (Nat → Bool) × Nat × Bool :=
  (s.numPages, s.dirAddr, s.dirLive, s.numDirs, s.smpActive)

section
variable {s : Paging} {d p i n w : Nat} {ws : Nat → Nat}

@[simp] theorem setRef_shape : (s.setRef p i).shape = s.shape := rfl

@[simp] theorem setFrame_shape : (s.setFrame p ws).shape = s.shape := rfl

@[simp] theorem setDir_shape : (s.setDir d i w).shape = s.shape := by
  unfold setDir
  split <;> rfl

@[simp] theorem setWord_shape : (s.setWord p i w).shape = s.shape := by
  unfold setWord
  split <;> rfl

@[simp] theorem setEntry_shape : (s.setEntry d n w).shape = s.shape := by
  unfold setEntry
  split <;> simp

end

section
variable {d n i j k a b size flags : Nat}

theorem pageAlloc_shape : Keeps shape pageAlloc := by
  refine .bind .get fun s => ?_
  split
  · exact .pure _
  · exact .bind .ensure fun _ => .bind .ensure fun _ => .bind (.modify fun _ => rfl) fun _ => .pure _

theorem pageRef_shape : Keeps shape (pageRef a) :=
  .bind .ensure fun _ => .bind .get fun _ => .ite (.pure _) <| .bind .ensure fun _ => .bind .ensure fun _ =>
    .ite (.modify fun _ => rfl) (.pure _)

theorem pageUnref_shape : Keeps shape (pageUnref a) :=
  .bind .ensure fun _ => .bind .get fun _ => .ite (.pure _) <| .bind .ensure fun _ => .bind .ensure fun _ =>
    .ite (.ite (.modify fun _ => rfl) (.modify fun _ => rfl)) (.pure _)

theorem getOrCreatePageTable_shape : Keeps shape (getOrCreatePageTable d i) := by
  refine .bind .get fun s => .ite (.pure _) <| .bind pageAlloc_shape fun r => ?_
  cases r with
  | error | ok => exact .bind (.modify fun s => by simp) fun _ => .pure _

theorem presentEntry_shape : Keeps shape (presentEntry d n) :=
  .bind .get fun _ => .bind .ensure fun _ => .pure _

theorem flushTlbRange_shape : Keeps shape (flushTlbRange a size) :=
  .bind .ensure fun _ => .bind .ensure fun _ => .bind .get fun _ => .ite .ensure (.pure _)

theorem pageTableUnmap_shape : Keeps shape (pageTableUnmap d a size) :=
  .bind .ensure fun _ => .bind .ensure fun _ => .bind (.forUp (fun _ => .bind presentEntry_shape fun _ =>
    .bind pageUnref_shape fun _ => .modify fun _ => by simp) _ _) fun _ => flushTlbRange_shape

theorem pageTableSetFlags_shape : Keeps shape (pageTableSetFlags d a size flags) :=
  .bind .ensure fun _ => .bind .ensure fun _ => .bind (.forUp (fun _ => .bind presentEntry_shape fun _ =>
    .modify fun _ => by simp) _ _) fun _ => flushTlbRange_shape

theorem mapRange_shape {check : Nat → PagingProg Unit} {phys : Nat → PagingProg (Except Errno Nat)}
    (hc : ∀ i, Keeps shape (check i)) (hp : ∀ i, Keeps shape (phys i)) :
    Keeps shape (mapRange d a size k flags check phys) := by
  refine .bind (.forUpOr (fun i => .bind (hc i) fun _ => .bind getOrCreatePageTable_shape fun r => ?_) _ _)
    fun r => ?_
  · cases r with
    | error e => exact .pure _
    | ok u =>
      refine .bind .get fun _ => .bind .ensure fun _ => .bind (hp i) fun r => ?_
      cases r with
      | error e => exact .pure _
      | ok b => exact .bind (.modify fun _ => by simp) fun _ => .pure _
  · match r with
    | .ok () => exact .bind flushTlbRange_shape fun _ => .pure _
    | .error (e, i) => exact .bind pageTableUnmap_shape fun _ => .pure _

theorem pageTableMapAnon_shape : Keeps shape (pageTableMapAnon d a size flags) := by
  refine .bind .ensure fun _ => .bind .ensure fun _ => mapRange_shape (fun _ => .pure _) fun _ => ?_
  refine .bind pageAlloc_shape fun r => ?_
  cases r <;> exact .pure _

theorem pageTableMapPhys_shape : Keeps shape (pageTableMapPhys d a b size flags) :=
  .bind .ensure fun _ => .bind .ensure fun _ => .bind .ensure fun _ =>
    mapRange_shape (fun _ => .pure _) fun _ => .bind pageRef_shape fun _ => .pure _

theorem pageTableShallowCopy_shape : Keeps shape (pageTableShallowCopy d a b size flags) :=
  .bind .ensure fun _ => .bind .ensure fun _ => .bind .ensure fun _ =>
    mapRange_shape (fun _ => .bind presentEntry_shape fun _ => .pure _) fun _ =>
      .bind .get fun _ => .bind pageRef_shape fun _ => .pure _

theorem writablePage_shape : Keeps shape (writablePage d n) :=
  .bind .get fun _ => .bind .ensure fun _ => .pure _

theorem copyPage_shape : Keeps shape (copyPage d a b) :=
  .bind (.bind .get fun _ => .bind .ensure fun _ => .pure _) fun _ => .bind writablePage_shape fun _ =>
    .modify fun _ => rfl

theorem quickmap_shape : Keeps shape (quickmap d n a flags) :=
  .bind .get fun _ => .bind .ensure fun _ => .bind (.modify fun _ => by simp) fun _ => flushTlbRange_shape

theorem unquickmap_shape : Keeps shape (unquickmap d n) :=
  .bind .get fun _ => .bind .ensure fun _ => .bind (.modify fun _ => by simp) fun _ => flushTlbRange_shape

theorem storeDest_shape {w : Nat} : Keeps shape (storeDest d j w) :=
  .bind writablePage_shape fun _ => .modify fun _ => by simp

theorem clonePte_shape : Keeps shape (clonePte d i j) := by
  refine .bind .get fun _ => .ite (.bind storeDest_shape fun _ => .pure _) <|
    .ite (.bind storeDest_shape fun _ => .bind pageRef_shape fun _ => .pure _) <|
    .bind pageAlloc_shape fun r => ?_
  cases r with
  | error e => exact .bind unquickmap_shape fun _ => .pure _
  | ok p =>
    exact .bind storeDest_shape fun _ => .bind quickmap_shape fun _ => .bind copyPage_shape fun _ =>
      .bind unquickmap_shape fun _ => .pure _

theorem clonePde_shape {dst : Nat} : Keeps shape (clonePde d dst i) := by
  refine .bind .get fun _ => .ite (.bind (.modify fun _ => by simp) fun _ => .pure _) <| .bind ?_ fun r => ?_
  · refine .bind pageAlloc_shape fun r => ?_
    cases r with
    | error e => exact .pure _
    | ok pt =>
      refine .bind quickmap_shape fun _ => .bind (.forUpOr (fun _ => clonePte_shape) _ _) fun r => ?_
      match r with
      | .error (e, _) => exact .pure _
      | .ok () => exact .bind unquickmap_shape fun _ => .pure _
  · cases r with
    | error e => exact .pure _
    | ok pt => exact .bind (.modify fun _ => by simp) fun _ => .pure _

theorem destroyTable_shape : Keeps shape (destroyTable d i) :=
  .bind .get fun _ => .ite (.forUp (fun _ => .bind .get fun _ => .ite pageUnref_shape (.pure _)) _ _) (.pure _)

theorem destroyPde_shape : Keeps shape (destroyPde d i) :=
  .bind .get fun _ => .ite pageUnref_shape (.pure _)

end

end Yagura
