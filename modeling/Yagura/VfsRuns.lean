import Yagura.VfsRename

/-!
# Runs of calls

Every call keeps the invariant, whatever memory, tasks and devices it meets, so
it holds in every state that is reached from the one after boot.
-/

namespace Yagura

namespace Vfs

open List Prog

open Getdents (FileType)

section
variable {s t : Vfs} {base : Path} {r : Except Errno Unit} {pathname : Str}

section
variable (hs : s.Sound)
include hs

theorem Sound.of_outside (ht : t.Inv [] []) (hout : t.outside = s.outside) : t.Sound where
  inv := ht
  cwds p hp := hs.cwds p ((show t.cwds = s.cwds from congrArg Outside.cwds hout) ▸ hp)

theorem Sound.enter (env : Env) : (s.enter env).Sound where
  inv := hs.inv.pass rfl rfl rfl rfl rfl hs.inv.mounts fun _ => rfl
  cwds := hs.cwds

theorem Makes.sound (ht : Makes s r t) : t.Sound := by
  cases r with
  | error rc =>
    obtain ⟨e, -, ht⟩ := ht
    exact hs.held ht
  | ok _ =>
    obtain ⟨d, name, i, ht⟩ := ht
    exact hs.held ht

theorem Filed.sound {e : Edit} (ht : Filed s e r t) : t.Sound := by
  cases r with
  | error rc => exact hs.held ht
  | ok _ =>
    obtain ⟨i, u, hu, rfl⟩ := ht
    exact hs.addFile hu

theorem Opens.sound {flags : Nat} {slot : Bool} (ht : Opens s base pathname flags slot r t) : t.Sound := by
  obtain ⟨-, e, -, ht⟩ | ⟨v, d, name, i, -, -, -, ht⟩ := ht
  · exact ht.sound hs
  · exact ht.sound hs

theorem Symlinks.sound {target : Str} (ht : Symlinks s base target pathname r t) : t.Sound := by
  obtain ⟨-, -, e, -, ht⟩ | ⟨v, d, name, i, -, -, -, ⟨ht, -⟩ | ⟨u, content, hu, rfl⟩⟩ := ht
  · exact hs.held ht
  · exact hs.held ht
  · have hi := (hu.live (.head _)).1
    have hadd := hs.addFile hu
    exact ⟨hadd.inv.setData hi rfl ((hu.inv.ok i hi).withData (u.inode i).rdev content) rfl rfl rfl rfl, hadd.cwds⟩

theorem Links.sound (ht : Links s r t) : t.Sound := by
  cases r with
  | error rc => exact hs.held ht
  | ok _ =>
    obtain ⟨d, name, i, ht | ht⟩ := ht
    · exact hs.of_outside ht.inv ht.grown.outside
    · exact hs.held ht

theorem Removal.sound (rm : Removal s t) : t.Sound := by
  have hv := drop_released rm.held.inv_nil (rm.parent.mem rm.full.partial_) rm.entry rm.drop
  rw [← append_nil rm.path.inodes] at hv
  have ht := destroy_released hv.1 rm.destroy
  exact hs.of_outside ht.1 (ht.2.outside_eq.trans (hv.2.outside_eq.trans rm.held.grown.outside))

theorem Unlinks.sound (ht : Unlinks s r t) : t.Sound := by
  cases r with
  | error rc => exact hs.held ht
  | ok _ =>
    obtain ⟨rm⟩ := ht
    exact rm.sound hs

theorem MoveEnds.sound {w : Vfs} {p q : Path} {i : Nat} (hp : p.Partial) (hq : q.Full)
    (hi : i ∈ q.inodes) (hw : w.Inv (p.inodes ++ q.inodes) []) (hout : w.outside = s.outside)
    (hend : MoveEnds w p q i r t) : t.Sound := by
  obtain ⟨_, _, _, _, _, -, -, -, -, -, ht, -, hout'⟩ := hend.elim hp hq hi hw
  exact hs.of_outside ht (hout'.trans hout)

theorem Renamed.sound {t₀ : Vfs} {p q : Path} {i : Nat} (hp : p.Partial) (hq : q.Full)
    (hi : i ∈ q.inodes) (ht0 : Held s .none [] t₀ (p.inodes ++ q.inodes)) (hend : Renamed s t₀ p q i r t) :
    t.Sound := by
  cases hend with
  | root _ _ ht | same _ _ _ ht | blocked _ _ _ _ _ _ _ _ ht => exact hs.held ht
  | replaced j d' name' w _ _ _ ha _ hw hend =>
    have hwi := hw.inv (ht0.inv_nil.withMem _) (mem_append_left _ (ha.mem hp))
    exact hend.sound hs hp hq hi hwi.1 (hwi.2.trans ht0.grown.outside)
  | moved _ _ hend => exact hend.sound hs hp hq hi ht0.inv_nil ht0.grown.outside

theorem RenameEnds.sound {old new : Str} (ht : RenameEnds s base old new r t) : t.Sound := by
  cases ht with
  | quiet _ ht => exact hs.held ht
  | found q p u v i _ _ hfull hpart _ hi hv hend =>
    refine hend.sound hs hpart hfull ?_ hv
    obtain ⟨_, hi', hm⟩ := hfull.inode
    rw [hi] at hi'
    exact Option.some.inj hi' ▸ hm

theorem Mounts.sound (ht : Mounts s r t) : t.Sound := by
  cases r with
  | error rc =>
    obtain ⟨e, -, ht⟩ := ht
    exact hs.held ht
  | ok _ =>
    obtain ⟨e, u, host, guest, -, hu, hlt, rfl⟩ := ht
    refine ⟨hu.inv.pass rfl rfl rfl rfl rfl (fun m hm => ?_) fun j => ?_, fun p hp => hs.cwds p (hu.grown.cwds ▸ hp)⟩
    · rcases mem_cons.mp hm with rfl | hm
      · exact hlt
      · exact hu.inv.mounts m hm
    · simp only [addMount, outer, flatMap_cons, count_append, count_cons, count_nil, cons_append,
        nil_append]
      omega

theorem Chdirs.sound {k : Nat} (ht : Chdirs s k base r t) : t.Sound := by
  cases r with
  | error rc => exact hs.held ht
  | ok _ =>
    obtain ⟨p, u, hp, hu, hinv, hrun⟩ := ht
    rw [← append_nil base.inodes] at hinv
    have ht := (pathDestroyRecursive_yields hinv).ok hrun
    refine ⟨ht.1, fun q hq => ?_⟩
    rw [show t.cwds = (u.setCwd k p).cwds from congrArg Outside.cwds ht.2] at hq
    rcases mem_or_eq_of_mem_set hq with hq | rfl
    · exact hs.cwds q (hu.grown.cwds ▸ hq)
    · exact hp

end

end

/-! ## Every call -/

def Outcome (s : Vfs) (k : Nat) (base : Path) (c : Call) (r : Except Errno Unit) (t : Vfs) : Prop :=
  match c with
  | .mkdir (.ok _) | .mknod (.ok _) _ _ => Makes s r t
  | .open (.ok path) flags slot => Opens s base path flags slot r t
  | .close j => t = s ∨ r = .ok () ∧ ∃ i, s.files[j]? = some i ∧ inodeUnref i (s.dropFile j) = .ok ((), t)
  | .write _ content => t = s ∨ r = .ok () ∧ ∃ i, i < s.numInodes ∧ (s.inode i).fops = .tmpfsNode ∧
      t = s.setInode i { s.inode i with content := content }
  | .link (.ok _) (.ok _) => Links s r t
  | .symlink (.ok target) (.ok path) => Symlinks s base target path r t
  | .unlink (.ok _) | .rmdir (.ok _) => Unlinks s r t
  | .rename (.ok old) (.ok new) => RenameEnds s base old new r t
  | .mount (.ok _) (some _) => Mounts s r t
  | .chdir (.ok _) => Chdirs s k base r t
  | _ => r ≠ .ok () ∧ t = s

section
variable {s t : Vfs} {k : Nat} {base : Path} {c : Call} {r : Except Errno Unit}

theorem pure_outcome {rc : Errno} (hrun : (pure (.error rc) : Op (Except Errno Unit)) s = .ok (r, t)) :
    r ≠ .ok () ∧ t = s := by
  cases pure_inj hrun
  exact ⟨nofun, rfl⟩

theorem exec_outcome (hs : s.Sound) (hk : s.cwds[k]? = some base) (hrun : c.exec k base s = .ok (r, t)) :
    Outcome s k base c r t := by
  have hb := mem_of_getElem? hk
  cases c with
  | mkdir path =>
    cases path with
    | error rc => exact pure_outcome hrun
    | ok path => exact (sysMkdir_ends hs hb).ok hrun
  | mknod path type rdev =>
    cases path with
    | error rc => exact pure_outcome hrun
    | ok path => exact (sysMknod_ends hs hb).ok hrun
  | «open» path flags slot =>
    cases path with
    | error rc => exact pure_outcome hrun
    | ok path => exact (sysOpen_ends hs hb).ok hrun
  | close j => exact (sysClose_yields hs).ok hrun
  | write j content => exact (sysWrite_yields hs).ok hrun
  | link old new =>
    cases old with
    | error rc => exact pure_outcome hrun
    | ok old =>
      cases new with
      | error rc => exact pure_outcome hrun
      | ok new => exact (sysLink_ends hs hb).ok hrun
  | symlink target path =>
    cases target with
    | error rc => exact pure_outcome hrun
    | ok target =>
      cases path with
      | error rc =>
        have hrun : sysSymlink base (.ok target) (.error rc) s = .ok (r, t) := hrun
        unfold sysSymlink at hrun
        dsimp only at hrun
        split at hrun
        · exact pure_outcome hrun
        · exact pure_outcome hrun
      | ok path => exact (sysSymlink_ends hs hb).ok hrun
  | unlink path =>
    cases path with
    | error rc => exact pure_outcome hrun
    | ok path => exact (sysUnlink_ends hs hb).ok hrun
  | rmdir path =>
    cases path with
    | error rc => exact pure_outcome hrun
    | ok path => exact (sysRmdir_ends hs hb).ok hrun
  | rename old new =>
    cases old with
    | error rc => exact pure_outcome hrun
    | ok old =>
      cases new with
      | error rc => exact pure_outcome hrun
      | ok new => exact (sysRename_ends hs hb).ok hrun
  | mount target fs =>
    cases target with
    | error rc => exact pure_outcome hrun
    | ok target =>
      cases fs with
      | none => exact pure_outcome hrun
      | some fs => exact (sysMount_ends hs hb).ok hrun
  | chdir path =>
    cases path with
    | error rc => exact pure_outcome hrun
    | ok path => exact (sysChdir_ends hs hk).ok hrun

theorem Outcome.sound (hs : s.Sound) (ho : Outcome s k base c r t) : t.Sound := by
  unfold Outcome at ho
  split at ho
  · exact Makes.sound hs ho
  · exact Makes.sound hs ho
  · exact Opens.sound hs ho
  · obtain rfl | ⟨-, i, hi, hrun⟩ := ho
    · exact hs
    · have hrel := (inodeUnref_yields (A := fun _ => True) (hs.dropFile_inv hi) trivial
        fun _ _ _ _ _ => trivial).ok hrun
      refine ⟨hrel.1, fun p hp => hs.cwds p ?_⟩
      rwa [show t.cwds = s.cwds from congrArg Outside.cwds hrel.2.outside_eq] at hp
  · next content =>
    obtain rfl | ⟨-, i, hi, -, rfl⟩ := ho
    · exact hs
    · exact ⟨hs.inv.setData hi rfl ((hs.inv.ok i hi).withData (s.inode i).rdev content) rfl rfl rfl rfl, hs.cwds⟩
  · exact Links.sound hs ho
  · exact Symlinks.sound hs ho
  · exact Unlinks.sound hs ho
  · exact Unlinks.sound hs ho
  · exact RenameEnds.sound hs ho
  · exact Mounts.sound hs ho
  · exact Chdirs.sound hs ho
  · exact ho.2 ▸ hs

theorem Step.outcome {e : Event} (hs : s.Sound) (h : Step s e t) :
    ∃ base r, s.cwds[e.task]? = some base ∧ Outcome (s.enter e.env) e.task base e.call r t := by
  obtain ⟨base, r, hk, hrun⟩ := h
  exact ⟨base, r, hk, exec_outcome (hs.enter e.env) hk hrun⟩

theorem Step.sound {e : Event} (hs : s.Sound) (h : Step s e t) : t.Sound := by
  obtain ⟨base, r, -, ho⟩ := h.outcome hs
  exact ho.sound (hs.enter e.env)

end

/-! ## The first state -/

section
variable {n : Nat} {devices : List (FileType × Nat)}

theorem boot_held (i : Nat) : ((boot n devices).inode i).held = [] := by
  unfold boot
  dsimp only
  split
  · rfl
  · split <;> rfl

theorem boot_numLinks (i : Nat) : ((boot n devices).inode i).numLinks = 0 := by
  unfold boot
  dsimp only
  split
  · rfl
  · split <;> rfl

theorem boot_holders (i : Nat) :
    (boot n devices).holders i = if i = 0 then n + 1 else if i ≤ devices.length then 1 else 0 := by
  have hcw : (replicate n (⟨0, []⟩ : Path)).flatMap Path.inodes = replicate n 0 := by
    induction n with
    | zero => rfl
    | succ n ih =>
      rw [replicate_succ, flatMap_cons, ih]
      rfl
  have hnd : ((range devices.length).map (· + 1)).Nodup :=
    nodup_range.map fun a b h => Nat.succ.inj h
  have hin : tally (boot n devices).numInodes (boot n devices).inode (fun x => x.held.count i) = 0 :=
    tally_eq_zero fun j _ => by rw [boot_held j]; rfl
  have hou : (boot n devices).outer = 0 :: ((range devices.length).map (· + 1) ++ replicate n 0) := by
    rw [← hcw]
    simp [outer, boot]
  unfold holders
  rw [hin, hou, Nat.zero_add, count_cons, count_append, count_replicate]
  by_cases hi : i = 0
  · subst hi
    rw [count_eq_zero.mpr (by simp), if_pos rfl]
    simp
  · have hne : ¬ (0 == i) = true := by simpa using Ne.symm hi
    rw [if_neg hi, if_neg hne, if_neg hne]
    by_cases hle : i ≤ devices.length
    · rw [if_pos hle, count_eq_one_of_mem hnd (mem_map.mpr ⟨i - 1, by simp; omega, by omega⟩)]
    · rw [if_neg hle, count_eq_zero.mpr (by simp; omega)]

theorem boot_inode {i : Nat} (hi : i < (boot n devices).numInodes) (hne : i ≠ 0) :
    ∃ d ∈ devices, (boot n devices).inode i = ⟨.device, d.1, 0, d.2, none, 0, [], [], false⟩ := by
  have hlt : i - 1 < devices.length := by
    have hi : i < devices.length + 1 := hi
    omega
  refine ⟨devices[i - 1], getElem_mem hlt, ?_⟩
  simp [boot, hne, hlt]

theorem boot_freed {i : Nat} (hi : i < (boot n devices).numInodes) : ((boot n devices).inode i).freed = false := by
  by_cases hne : i = 0
  · subst hne
    rfl
  · obtain ⟨d, -, hd⟩ := boot_inode hi hne
    rw [hd]

theorem boot_sound (hdev : ∀ d ∈ devices, d.1 = .chr ∨ d.1 = .blk) : (boot n devices).Sound := by
  have hen : ∀ i, (boot n devices).entries i = 0 := fun i =>
    tally_eq_zero fun j _ => by
      have hhe : ((boot n devices).inode j).held = [] := boot_held j
      rw [(append_eq_nil_iff.mp hhe).2]
      rfl
  refine ⟨⟨fun i hi hf => ?_, fun i hi => ?_, fun i hi hf => ?_, fun i hi => ?_, fun i hi hd => ?_,
    by rintro _ ⟨⟩, fun _ _ => rfl⟩, fun p hp => ?_⟩
  · have hi : i < devices.length + 1 := hi
    rw [boot_holders]
    change (if i = 0 then n + 1 else 1) = _ + 0 + 0
    split
    · rfl
    · rw [if_pos (by omega)]
  · rw [boot_holders, count_nil] at hi
    have hlt : i < (boot n devices).numInodes := by
      change i < devices.length + 1
      split at hi
      · omega
      · split at hi
        · omega
        · omega
    exact ⟨hlt, boot_freed hlt⟩
  · rw [boot_numLinks, hen]
    rfl
  · by_cases hne : i = 0
    · subst hne
      exact tmpfsInode_ok .dir 1
    · obtain ⟨d, hd, hx⟩ := boot_inode hi hne
      rw [hx]
      refine ⟨nodup_nil, ?_, fun hl => ?_⟩
      · rcases hdev d hd with h | h <;> simp [h, Fops.isDir]
      · rcases hdev d hd with h | h <;> rw [h] at hl <;> cases hl
  · by_cases hne : i = 0
    · subst hne
      cases hd
    · have hi : i < devices.length + 1 := hi
      exact mem_map.mpr ⟨i - 1, by simp; omega, by omega⟩
  · obtain ⟨-, rfl⟩ := mem_replicate.mp hp
    rintro _ ⟨⟩

theorem Run.sound {ok : Vfs → Event → Prop} {s : Vfs} (hdev : ∀ d ∈ devices, d.1 = .chr ∨ d.1 = .blk)
    (hr : Run Step ok (boot n devices) s) : s.Sound :=
  hr.invariant (boot_sound hdev) fun _ _ _ hs h _ => h.sound hs

end

/-! ## Runs by evaluation -/

def calm : Env := ⟨fun _ => true, fun _ => false, fun _ => .ok [], none⟩

def next (s : Vfs) (e : Event) : Option Vfs :=
  match s.cwds[e.task]? with
  | some base => (e.call.exec e.task base).after (s.enter e.env)
  | none => none

theorem next_step {s t : Vfs} {e : Event} (h : s.next e = some t) : Step s e t := by
  unfold next at h
  split at h
  · rename_i base hba
    obtain ⟨r, hr⟩ := after_some h
    exact ⟨base, r, hba, hr⟩
  · cases h

end Vfs

end Yagura
