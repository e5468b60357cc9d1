import Yagura.VfsOpen

/-!
# What the calls on names do

`link`, `unlink`, `rmdir` and `rename` look their paths up and then make or drop
entries; what `link_at` and `unlink_at` leave is described exactly, so that each
call is known up to the inodes that go when references are given up. From there
every call keeps the invariant.
-/

namespace Yagura

namespace Vfs

open List Nat Prog

open Getdents (FileType)

/-! ## References taken for a while -/

section
variable {s t : Vfs} {h k l : List Nat} {i j d c : Nat} {name : Str}

theorem setRef_back {m : Nat} : (t.setRef i m).setRef i (t.refCount i) = t := by
  unfold setRef
  simp

theorem Inv.ref_mem (hs : s.Inv h k) (hi : i ∈ h) : (s.setRef i (s.refCount i + 1)).Inv (i :: h) k :=
  hs.ref (hs.live_of_mem hi).1 (hs.live_of_mem hi).2

theorem inodeUnref_back (hs : s.Inv h k) (hi : i ∈ h) :
    inodeUnref i (s.setRef i (s.refCount i + 1)) = .ok ((), s) := by
  have hrun := inodeUnref_run (hs.ref_mem hi) (by have := count_pos_iff.mpr hi; omega)
  rw [hrun, setRef_self, Nat.add_sub_cancel, setRef_back]

end

/-! ## Entries dropped and made -/

def PathAt (p : Path) (d : Nat) (name : Str) : Prop :=
  ∃ o ns, p.nodes = (name, o) :: ns ∧ Path.inode ⟨p.top, ns⟩ = some d

theorem PathAt.mem {p : Path} {d : Nat} {name : Str} (ha : PathAt p d name) (hp : p.Partial) :
    d ∈ p.inodes := by
  obtain ⟨top, ms⟩ := p
  obtain ⟨o, ns, rfl, hd⟩ := ha
  obtain ⟨-, hfull⟩ := hp
  obtain ⟨_, hd', hmem⟩ := hfull.inode
  obtain rfl := Option.mem_unique hd hd'
  rw [Path.inodes_cons]
  exact mem_append_right _ hmem

theorem exists_pathAt {p : Path} (hp : p.Partial) (hne : p.nodes ≠ []) : ∃ d name, PathAt p d name := by
  obtain ⟨top, ms⟩ := p
  cases ms with
  | nil => exact absurd rfl hne
  | cons n ns =>
    obtain ⟨d, hd, -⟩ := hp.2.inode
    exact ⟨d, n.1, n.2, ns, rfl, hd⟩

def Unlinked (t : Vfs) (d : Nat) (name : Str) (r : Except Errno Unit) (v : Vfs) : Prop :=
  match r with
  | .error _ => v = t ∧ ((t.inode d).fops ≠ .tmpfsDir ∨ (t.inode d).children.lookup name = none)
  | .ok () => (t.inode d).fops = .tmpfsDir ∧ ∃ c, (t.inode d).children.lookup name = some c ∧
      inodeUnref c (t.detach d name c) = .ok ((), v)

def Linkable (t : Vfs) (d : Nat) (name : Str) (i : Nat) : Prop :=
  (t.inode d).fops = .tmpfsDir ∧ (t.inode d).dev = (t.inode i).dev ∧ (t.inode d).children.lookup name = none ∧
    t.mem 0 = true ∧ t.mem 1 = true

def Linked (t : Vfs) (d : Nat) (name : Str) (i : Nat) (r : Except Errno Unit) (v : Vfs) : Prop :=
  match r with
  | .error _ => ¬ Linkable t d name i ∧ ∃ f, v = { t with mem := f }
  | .ok () => Linkable t d name i ∧ ∃ f, v = { t with mem := f }.linked d name i

section
variable {s t : Vfs} {h k l : List Nat} {i j d c : Nat} {name : Str} {p : Path}

theorem dentryRemove_none (hfr : (t.inode d).freed = false) (hc : (t.inode d).children.lookup name = none) :
    dentryRemove d name t = .ok (.error .ENOENT, t) := by
  unfold dentryRemove
  rw [useInode_bind hfr, hc]
  exact pure_run _

theorem dentryRemove_run (ht : t.Inv l []) (hd : d ∈ l) (hc : (t.inode d).children.lookup name = some c) :
    dentryRemove d name t = .ok (.ok c, t.detach d name c) := by
  obtain ⟨hlt, hfr⟩ := ht.live_of_mem hd
  obtain ⟨hpos, hinv⟩ := ht.detach hlt hc
  have hcf := (ht.live c (by have := holders_pos_of_held hlt (mem_held_of_lookup hc); omega)).2
  have hcf' : ((t.setInode d { t.inode d with
      children := (t.inode d).children.eraseP (·.1 == name) }).inode c).freed = false := by
    by_cases hcd : c = d
    · subst hcd
      rw [setInode_self]
      exact hcf
    · rw [setInode_other hcd]
      exact hcf
  unfold dentryRemove
  rw [useInode_bind hfr, hc]
  dsimp only
  rw [modify_bind, useInode_bind hcf', ensure_bind, if_pos hpos, modify_bind, pure_run]
  rfl

theorem unlinkAt_yields (ht : t.Inv l []) (ha : PathAt p d name) (hmem : d ∈ l) :
    Yields (unlinkAt p) t (Unlinked t d name) := by
  obtain ⟨top, ms⟩ := p
  obtain ⟨o, ns, rfl, hd⟩ := ha
  obtain ⟨hlt, hfr⟩ := ht.live_of_mem hmem
  have hu := ht.ref_mem hmem
  refine .run_bind (pathInode_run hd) (.run_bind (inodeRef_run hfr) ?_)
  refine .run_bind (useInode_run hfr) ?_
  split
  · rename_i htmp
    cases hc : (t.inode d).children.lookup name with
    | none =>
      have hrun := dentryRemove_none (t := t.setRef d (t.refCount d + 1)) hfr hc
      refine .bind (.run_bind hrun (.run_bind (inodeUnref_back ht hmem) (.pure (Q := fun r v => r = .error .ENOENT ∧
        v = t) ⟨rfl, rfl⟩))) ?_
      rintro _ _ ⟨rfl, rfl⟩
      exact .pure ⟨rfl, .inr hc⟩
    | some c =>
      have hrun := dentryRemove_run hu (.head _) (show _ = some c from hc)
      have hdet := (ht.detach hlt hc).2
      have hba : inodeUnref d ((t.setRef d (t.refCount d + 1)).detach d name c) = .ok ((), t.detach d name c) :=
        inodeUnref_back hdet (.tail _ hmem)
      refine .bind (.run_bind hrun (.run_bind hba (.pure (Q := fun r v => r = .ok c ∧ v = t.detach d name c)
        ⟨rfl, rfl⟩))) ?_
      rintro _ _ ⟨rfl, rfl⟩
      obtain ⟨_, v, hv, -⟩ := inodeUnref_yields (A := fun _ => True) hdet trivial fun _ _ _ _ _ => trivial
      exact .run_bind hv (.pure ⟨htmp, c, hc, hv⟩)
  · rename_i htmp
    exact .run_bind (inodeUnref_back ht hmem) (.pure ⟨rfl, .inl htmp⟩)

theorem setRef_ref_comm : (t.setRef d (t.refCount d + 1)).setRef i ((t.setRef d (t.refCount d + 1)).refCount i + 1) =
    (t.setRef i (t.refCount i + 1)).setRef d ((t.setRef i (t.refCount i + 1)).refCount d + 1) := by
  by_cases hdi : d = i
  · subst hdi
    rfl
  · rw [setRef_other _ (Ne.symm hdi), setRef_other _ hdi]
    unfold setRef
    rw [Function.update_comm hdi]

theorem Inv.withMem (ht : t.Inv l k) (f : Nat → Bool) : ({ t with mem := f } : Vfs).Inv l k :=
  ht.pass rfl rfl rfl rfl rfl ht.mounts fun _ => rfl

theorem linkAt_yields (ht : t.Inv l []) (ha : PathAt p d name) (hmem : d ∈ l) (hi : i ∈ l) :
    Yields (linkAt p i) t (Linked t d name i) := by
  obtain ⟨top, ms⟩ := p
  obtain ⟨o, ns, rfl, hd⟩ := ha
  have hdl := ht.live_of_mem hmem
  have hil := ht.live_of_mem hi
  generalize hu : t.setRef d (t.refCount d + 1) = u
  have hun : u.Inv (d :: l) [] := hu ▸ ht.ref_mem hmem
  have hui : u.inode = t.inode := by subst hu; rfl
  have hum : u.mem = t.mem := by subst hu; rfl
  generalize hw : u.setRef i (u.refCount i + 1) = w
  have hwi : w.inode = t.inode := by subst hw; exact hui
  have hwm : w.mem = t.mem := by subst hw; exact hum
  have hwd : (w.inode d).freed = false := hwi ▸ hdl.2
  have hwi' : (w.inode i).freed = false := hwi ▸ hil.2
  have hud : ∀ f, inodeUnref i { w with mem := f } = .ok ((), { u with mem := f }) := by
    intro f
    subst hw
    exact inodeUnref_back (hun.withMem f) (.tail _ hi)
  have hun' : ∀ f, inodeUnref d { u with mem := f } = .ok ((), { t with mem := f }) := by
    intro f
    subst hu
    exact inodeUnref_back (ht.withMem f) hmem
  have hco : w = (t.setRef i (t.refCount i + 1)).setRef d ((t.setRef i (t.refCount i + 1)).refCount d + 1) := by
    subst hw hu
    exact setRef_ref_comm
  have hsw : ∀ rc, ¬ Linkable t d name i →
      Yields (do inodeUnref d; inodeUnref i; pure (.error rc)) w (Linked t d name i) := by
    intro rc hno
    rw [hco]
    refine .run_bind (inodeUnref_back (ht.ref_mem hi) (.tail _ hmem)) ?_
    exact .run_bind (inodeUnref_back ht hi) (.pure ⟨hno, t.mem, rfl⟩)
  refine .run_bind (pathInode_run hd) (.run_bind (inodeRef_run hdl.2) ?_)
  rw [hu]
  refine .run_bind (inodeRef_run (hui ▸ hil.2)) ?_
  rw [hw]
  refine .run_bind (useInode_run hwd) (.run_bind (useInode_run hwi') ?_)
  rw [hwi]
  split
  · rename_i htmp
    exact hsw _ fun hl => htmp hl.1
  · rename_i htmp
    split
    · rename_i hdev
      exact hsw _ fun hl => hdev hl.2.1
    · rename_i hdev
      obtain ⟨f, -, hrun⟩ := dentryAppend_eq name hwd hwi'
      by_cases hc : (t.inode d).children.lookup name = none
      · rw [if_neg (by rw [hwi]; exact not_not.mpr hc)] at hrun
        by_cases hm : t.mem 0 = true ∧ t.mem 1 = true
        · rw [if_pos (by rw [hwm]; exact hm)] at hrun
          have hinv : ({ t with mem := f }.linked d name i).Inv l [] :=
            ((ht.withMem f).ref_mem hi).attach hdl.1 hc
          have hba : inodeUnref d ({ w with mem := f }.attach d name i) =
              .ok ((), { t with mem := f }.linked d name i) := by
            rw [hco]
            exact inodeUnref_back hinv hmem
          exact .run_bind hrun (.run_bind hba (.pure ⟨⟨not_not.mp htmp, not_not.mp hdev, hc, hm⟩, f, rfl⟩))
        · rw [if_neg (by rw [hwm]; exact hm), bind_run (hud f), pure_run] at hrun
          exact .run_bind hrun (.run_bind (hun' f) (.pure ⟨fun hl => hm hl.2.2.2, f, rfl⟩))
      · rw [if_pos (by rw [hwi]; exact hc), bind_run (hud w.mem), pure_run] at hrun
        exact .run_bind hrun (.run_bind (hun' w.mem) (.pure ⟨fun hl => hc hl.2.2.1, w.mem, rfl⟩))

end

/-! ## The invariant of the calls -/

structure Sound (s : Vfs) : Prop where
  inv : s.Inv [] []
  cwds : ∀ p ∈ s.cwds, p.Full

section
variable {s t : Vfs} {e : Edit} {l : List Nat} {base : Path} {pathname : Str} {i : Nat} {type : FileType}

theorem Sound.owned (hb : base ∈ s.cwds) : ∀ i ∈ base.inodes, Owned s [] l i := fun i hi => by
  refine .inr ?_
  have hmem : i ∈ s.outer := mem_append_right _ (mem_flatMap.mpr ⟨base, hb, hi⟩)
  have := holders_pos_of_outer hmem
  omega

theorem Sound.start (hs : s.Sound) : Held s .none [] s [] := .refl hs.inv

theorem Held.inv_nil (ht : Held s e [] t l) : t.Inv l [] := by
  have := ht.inv
  rwa [append_nil] at this

theorem Sound.held (hs : s.Sound) (ht : Held s e [] t []) : t.Sound where
  inv := ht.inv
  cwds p hp := hs.cwds p (ht.grown.cwds ▸ hp)

/-! ### Creating -/

def Makes (s : Vfs) (r : Except Errno Unit) (t : Vfs) : Prop :=
  match r with
  | .ok () => ∃ d name i, Held s (.made d name i) [] t []
  | .error _ => ∃ e, Edit.Quiet e ∧ Held s e [] t []

theorem sysMkdir_ends (hs : s.Sound) (hb : base ∈ s.cwds) :
    Ends Uaf (sysMkdir base (.ok pathname)) s (Makes s) := by
  refine .bind (vfsCreateAt_ends hs.start (hs.cwds base hb) (Sound.owned hb)) fun r u hu => ?_
  cases r with
  | error rc => exact .pure hu
  | ok i =>
    obtain ⟨d, name, -, hu⟩ := hu
    exact .bind (inodeUnref_ends hu) fun _ v hv => .pure ⟨d, name, i, hv.1⟩

theorem sysMknod_ends {rdev : Nat} (hs : s.Sound) (hb : base ∈ s.cwds) :
    Ends Uaf (sysMknod base type rdev (.ok pathname)) s (Makes s) := by
  unfold sysMknod
  dsimp only
  split
  · exact .pure ⟨.none, trivial, hs.start⟩
  · refine .bind (vfsCreateAt_ends hs.start (hs.cwds base hb) (Sound.owned hb)) fun r u hu => ?_
    cases r with
    | error rc => exact .pure hu
    | ok i =>
      obtain ⟨d, name, -, hu⟩ := hu
      have hi := (hu.live (.head _)).1
      have hnew : s.numInodes ≤ i := hu.grown.fresh
      have hset := hu.setData (x := { u.inode i with rdev := rdev }) hi rfl
        ((hu.inv.ok i hi).withData rdev (u.inode i).content) rfl rfl rfl rfl hu.grown.fresh id
        (fun _ _ _ => rfl) fun hlt => absurd hnew (not_le.mpr hlt)
      exact .modify_bind (.bind (inodeUnref_ends hset) fun _ v hv => .pure ⟨d, name, i, hv.1⟩)

/-! ### Opening -/

def addFile (s : Vfs) (i : Nat) : Vfs := { s with files := s.files ++ [i] }

theorem Held.addFile_inv (ht : Held s e [] t [i]) : (t.addFile i).Inv [] [] := by
  refine ht.inv.pass rfl rfl rfl rfl rfl ht.inv.mounts fun j => ?_
  simp only [addFile, outer, count_append, count_cons, count_nil]
  omega

theorem Sound.addFile (hs : s.Sound) (ht : Held s e [] t [i]) : (t.addFile i).Sound where
  inv := ht.addFile_inv
  cwds p hp := hs.cwds p (ht.grown.cwds ▸ hp)

theorem Edit.After.quiet {e' : Edit} (h : e.After e') (he : e.Quiet) : e'.Quiet := by
  rcases h with rfl | ⟨-, ⟨_, _, rfl⟩ | ⟨_, rfl⟩⟩
  · exact he
  · trivial
  · trivial

def Filed (s : Vfs) (e : Edit) (r : Except Errno Unit) (t : Vfs) : Prop :=
  match r with
  | .ok () => ∃ i u, Held s e [] u [i] ∧ t = u.addFile i
  | .error _ => Held s e [] t []

/-- Without a name to create no entry is made. With one, the entry is there, and the call fails for want of an access mode,
memory for the file or a descriptor. -/
def Opens (s : Vfs) (base : Path) (pathname : Str) (flags : Nat) (slot : Bool) (r : Except Errno Unit) (t : Vfs) : Prop :=
  (¬ (creates flags = true ∧ ∃ v, CreatableAt s base pathname v) ∧ ∃ e, Edit.Quiet e ∧ Filed s e r t) ∨
    ∃ v d name i, (creates flags = true ∧ CreatableAt s base pathname v) ∧ d < s.numInodes ∧
      (r ≠ .ok () ↔ accmode flags = 3 ∨ v.mem 3 = false ∨ slot = false) ∧ Filed s (.made d name i) r t

theorem installFile_ends {slot : Bool} (ht : Held s e [] t [i]) : Ends Uaf (installFile i slot) t fun r u =>
      (r ≠ .ok () ↔ slot = false) ∧ Filed s e r u := by
  cases slot with
  | false => exact .bind (inodeUnref_ends ht) fun _ v hv => .pure ⟨by simp, hv.1⟩
  | true => exact .modify_bind (.pure ⟨by simp, i, t, ht, rfl⟩)

theorem sysOpen_ends {flags : Nat} {slot : Bool} (hs : s.Sound) (hb : base ∈ s.cwds) :
    Ends (OpenTrap flags) (sysOpen base flags slot (.ok pathname)) s (Opens s base pathname flags slot) := by
  refine .bind (vfsOpenAt_ends hs.start (hs.cwds base hb) (Sound.owned hb) (.inl rfl)) fun r u hu => ?_
  obtain ⟨hno, -, e, he, hu⟩ | ⟨v, d, name, i, hc, hold, hu⟩ := hu
  · cases r with
    | error rc =>
      obtain ⟨e', he', hu⟩ := hu
      exact .pure (.inl ⟨hno, e', he'.quiet he, hu⟩)
    | ok j =>
      obtain ⟨e', he', hu⟩ := hu
      exact ((installFile_ends hu).weaken fun _ => .inl).mono fun r w hw => .inl ⟨hno, e', he'.quiet he, hw.2⟩
  · cases r with
    | error rc =>
      refine .pure (.inr ⟨v, d, name, i, hc, hold, ?_, hu.2⟩)
      exact iff_of_true nofun (hu.1.imp id .inl)
    | ok j =>
      obtain ⟨⟨hac, hm⟩, rfl, -, hu⟩ := hu
      refine ((installFile_ends hu).weaken fun _ => .inl).mono fun r w hw => .inr ⟨v, d, name, j, hc, hold, ?_, hw.2⟩
      rw [hw.1]
      refine ⟨fun h => .inr (.inr h), ?_⟩
      rintro (h | h | h)
      · exact absurd h hac
      · exact absurd (hm.symm.trans h) nofun
      · exact h

def Written (s : Vfs) (e : Edit) (i : Nat) (r : Except Errno Unit) (t : Vfs) : Prop :=
  (Held s e [] t [] ∧ r ≠ .ok ()) ∨
    ∃ u content, Held s e [] u [i] ∧ t = (u.addFile i).setInode i { u.inode i with content := content }

def Symlinks (s : Vfs) (base : Path) (target pathname : Str) (r : Except Errno Unit) (t : Vfs) : Prop :=
  (¬ (target.length ≤ SYMLINK_MAX ∧ ∃ v, CreatableAt s base pathname v) ∧ r ≠ .ok () ∧
      ∃ e, Edit.Quiet e ∧ Held s e [] t []) ∨
    ∃ v d name i, (target.length ≤ SYMLINK_MAX ∧ CreatableAt s base pathname v) ∧ d < s.numInodes ∧
      (r ≠ .ok () ↔ v.mem 3 = false ∨ target ≠ [] ∧ v.mem 4 = false) ∧ Written s (.made d name i) i r t

theorem writeLink_ends {target : Str} (ht : Held s e [] t [i]) :
    Ends Uaf (writeLink i target) t fun r v => (r ≠ .ok () ↔ target ≠ [] ∧ t.mem 0 = false) ∧ Written s e i r v := by
  have hsa : ∀ u : Vfs, u.addFile i = (u.addFile i).setInode i { u.inode i with content := (u.inode i).content } := by
    intro u
    unfold setInode addFile
    rw [Function.update_eq_self]
  have hfi : kmalloc (t.addFile i) = .ok (t.mem 0, (t.used 1).addFile i) := rfl
  refine .modify_bind ?_
  split
  · rename_i hnil
    exact .pure ⟨by simp [hnil], .inr ⟨t, _, ht, hsa t⟩⟩
  · rename_i hne
    refine .run_bind hfi ?_
    cases hm : t.mem 0 with
    | false => exact .pure ⟨by simp [hne], .inr ⟨_, _, ht.mem _, hsa _⟩⟩
    | true => exact .modify_bind (.pure ⟨by simp, .inr ⟨_, target, ht.mem _, rfl⟩⟩)

theorem sysSymlink_ends {target : Str} (hs : s.Sound) (hb : base ∈ s.cwds) :
    Ends Uaf (sysSymlink base (.ok target) (.ok pathname)) s (Symlinks s base target pathname) := by
  unfold sysSymlink
  dsimp only
  split
  · rename_i hlo
    exact .pure (.inl ⟨fun hc => absurd hc.1 (not_le.mpr hlo), nofun, .none, trivial, hs.start⟩)
  · rename_i hlo
    refine .bind ((vfsOpenAt_ends hs.start (hs.cwds base hb) (Sound.owned hb) (.inr rfl)).weaken ?_) fun r u hu => ?_
    · rintro e (he | ⟨_, hno, _⟩)
      · exact he
      · exact absurd hno (by decide)
    · obtain ⟨hno, hex, e, he, hu⟩ | ⟨v, d, name, i, ⟨-, hc⟩, hold, hu⟩ := hu
      · cases r with
        | error rc =>
          obtain ⟨e', he', hu⟩ := hu
          exact .pure (.inl ⟨fun hc => hno ⟨rfl, hc.2⟩, nofun, e', he'.quiet he, hu⟩)
        | ok j => exact absurd rfl (hex (by decide) (by decide) j)
      · cases r with
        | error rc =>
          obtain ⟨hfa, hu⟩ := hu
          refine .pure (.inr ⟨v, d, name, i, ⟨not_lt.mp hlo, hc⟩, hold, iff_of_true nofun ?_, .inl ⟨hu, nofun⟩⟩)
          exact .inl (hfa.resolve_left (by decide))
        | ok j =>
          obtain ⟨⟨-, hm⟩, rfl, hum, hu⟩ := hu
          refine (writeLink_ends hu).mono fun r w hw => .inr ⟨v, d, name, j, ⟨not_lt.mp hlo, hc⟩, hold, ?_, hw.2⟩
          rw [hw.1, hum]
          have hm : v.mem 3 = true := hm
          rw [hm]
          exact ⟨.inr, fun h => h.resolve_left nofun⟩

end

/-! ### Linking -/

section
variable {s t : Vfs} {e : Edit} {h l : List Nat} {base p q : Path} {i d : Nat}

theorem failUnit_ends {rc : Errno} (ht : Held s e h t (p.inodes ++ l)) :
    Ends Uaf (failUnit p rc) t fun r u => r = .error rc ∧ Held s e h u l := by
  exact .bind (pathDestroyRecursive_ends ht) fun _ u hu => .pure ⟨rfl, hu.1⟩

theorem done_ends {rc : Except Errno Unit} (ht : Held s e h t (p.inodes ++ q.inodes)) :
    Ends Uaf (done p q rc) t fun r u => r = rc ∧ Held s e h u [] ∧ Released (s.numInodes ≤ ·) t u := by
  rw [← append_nil q.inodes] at ht
  exact .bind (pathDestroyRecursive_ends ht) fun _ u hu =>
    .bind (pathDestroyRecursive_ends hu.1) fun _ v hv => .pure ⟨rfl, hv.1, hu.2.trans hv.2⟩

def Links (s : Vfs) (r : Except Errno Unit) (t : Vfs) : Prop :=
  match r with
  | .ok () => ∃ d name i, Held (s.linked d name i) .none [] t [] ∨ Held s (.made d name i) [] t []
  | .error _ => Held s .none [] t []

theorem linkPaths_ends (ht : Held s .none [] t (p.inodes ++ q.inodes)) (hp : p.Partial) (hi : i ∈ q.inodes) :
    Ends Uaf (linkPaths p q i) t (Links s) := by
  have hfa : ∀ u rc, Held s .none [] u (p.inodes ++ q.inodes) →
      Ends Uaf (done p q (.error rc)) u (Links s) := fun u rc hu =>
    (done_ends hu).mono fun r v ⟨hr, hv⟩ => by rw [hr]; exact hv.1
  unfold linkPaths
  split
  · exact hfa t _ ht
  · split
    · exact hfa t _ ht
    · rename_i hne
      obtain ⟨d, name, ha⟩ := exists_pathAt hp hne
      have hdl : d ∈ p.inodes ++ q.inodes := mem_append_left _ (ha.mem hp)
      have hil : i ∈ p.inodes ++ q.inodes := mem_append_right _ hi
      refine .bind (linkAt_yields ht.inv_nil ha hdl hil).ends fun r u hu => ?_
      cases r with
      | error rc =>
        obtain ⟨-, f, rfl⟩ := hu
        exact hfa _ _ (ht.mem f)
      | ok _ =>
        obtain ⟨⟨htmp, -, hfr, -⟩, f, rfl⟩ := hu
        have hu := ht.mem f
        have hold := ht.dir_old (ht.live hdl).1 htmp
        by_cases hio : i < s.numInodes
        · have hv := hu.link hil hio hold hfr
          refine (done_ends hv).mono fun r v ⟨hr, hv, _⟩ => ?_
          rw [hr]
          exact ⟨d, name, i, .inl hv⟩
        · have hv : Held s (.made d name i) [] ({ t with mem := f }.linked d name i) (p.inodes ++ q.inodes) :=
            (hu.ref (hu.known (.inl hil))).made (.inl rfl) (by omega) hold hfr
          refine (done_ends hv).mono fun r v ⟨hr, hv, _⟩ => ?_
          rw [hr]
          exact ⟨d, name, i, .inr hv⟩

end

section
variable {s t : Vfs} {l : List Nat} {base : Path} {i : Nat}
  {pathname name : Str} {p : Path} {v : Vfs} {d : Nat} {r : Except Errno Unit}

theorem allowNoent_zero : allowNoent 0 = false := by decide

theorem resolve_ends (hs : s.Sound) (hb : base ∈ s.cwds) : Ends Uaf (vfsResolvePathAt base pathname 0) s fun r u =>
      match r with
      | .ok p => Held s .none [] u p.inodes ∧ p.Full
      | .error _ => Held s .none [] u [] := by
  refine (vfsResolvePathAt_ends hs.start (hs.cwds base hb) (Sound.owned hb)).mono fun r u hu => ?_
  cases r with
  | error rc => exact hu
  | ok p =>
    obtain ⟨hu, -, hfull⟩ := hu
    rw [append_nil] at hu
    exact ⟨hu, hfull allowNoent_zero⟩

theorem resolve_again_ends {q : Path} (hs : s.Sound) (hb : base ∈ s.cwds) (ht : Held s .none [] t q.inodes) :
    Ends Uaf (vfsResolvePathAt base pathname O_ALLOW_NOENT) t fun r u =>
      match r with
      | .ok p => Held s .none [] u (p.inodes ++ q.inodes) ∧ p.Partial
      | .error _ => Held s .none [] u q.inodes := by
  refine (vfsResolvePathAt_ends ht (hs.cwds base hb) (Sound.owned hb)).mono fun r u hu => ?_
  cases r with
  | error rc => exact hu
  | ok p => exact ⟨hu.1, hu.2.1⟩

theorem failUnit_nil {rc : Errno} {Q : Except Errno Unit → Vfs → Prop} (ht : Held s .none [] t p.inodes)
    (hQ : ∀ u, Held s .none [] u [] → Q (.error rc) u) : Ends Uaf (failUnit p rc) t Q := by
  rw [← append_nil p.inodes] at ht
  exact (failUnit_ends ht).mono fun r u ⟨hr, hu⟩ => hr ▸ hQ u hu

theorem sysLink_ends {old new : Str} (hs : s.Sound) (hb : base ∈ s.cwds) :
    Ends Uaf (sysLink base (.ok old) (.ok new)) s (Links s) := by
  refine .bind (resolve_ends hs hb) fun r t ht => ?_
  cases r with
  | error rc => exact .pure ht
  | ok q =>
    obtain ⟨ht, hq⟩ := ht
    obtain ⟨i, hi, him⟩ := hq.inode
    refine .run_bind (pathInode_run hi) (useInode_ends (ht.live him).2 ?_)
    split
    · exact failUnit_nil ht fun _ => id
    · refine .bind (resolve_again_ends hs hb ht) fun r u hu => ?_
      cases r with
      | error rc => exact failUnit_nil hu fun _ => id
      | ok p => exact linkPaths_ends hu.1 hu.2 him

/-! ### Unlinking -/

structure Removal (s t : Vfs) where
  path : Path
  u : Vfs
  v : Vfs
  name : Str
  d : Nat
  c : Nat
  full : path.Full
  parent : PathAt path d name
  held : Held s .none [] u path.inodes
  entry : (u.inode d).children.lookup name = some c
  drop : inodeUnref c (u.detach d name c) = .ok ((), v)
  destroy : pathDestroyRecursive path v = .ok ((), t)

def Unlinks (s : Vfs) (r : Except Errno Unit) (t : Vfs) : Prop :=
  match r with
  | .ok () => Nonempty (Removal s t)
  | .error _ => Held s .none [] t []

theorem drop_released {c : Nat} (ht : t.Inv l []) (hd : d ∈ l) (hc : (t.inode d).children.lookup name = some c)
    (hrun : inodeUnref c (t.detach d name c) = .ok ((), v)) :
    v.Inv l [] ∧ Released (fun _ => True) (t.detach d name c) v := by
  have hdet := (ht.detach (ht.live_of_mem hd).1 hc).2
  exact (inodeUnref_yields hdet trivial fun _ _ _ _ _ => trivial).ok hrun

theorem destroy_released (ht : t.Inv (p.inodes ++ l) []) (hrun : pathDestroyRecursive p t = .ok ((), v)) :
    v.Inv l [] ∧ Released (fun _ => True) t v :=
  (pathDestroyNodes_frame ht (fun _ _ => .inl trivial) fun _ _ _ _ _ => trivial).ok hrun

theorem Unlinked.inv (ht : t.Inv l []) (hd : d ∈ l) (hv : Unlinked t d name r v) :
    v.Inv l [] ∧ v.outside = t.outside := by
  cases r with
  | error rc =>
    obtain ⟨rfl, -⟩ := hv
    exact ⟨ht, rfl⟩
  | ok _ =>
    obtain ⟨-, c, hc, hrun⟩ := hv
    have hv := drop_released ht hd hc hrun
    exact ⟨hv.1, hv.2.outside_eq⟩

theorem Linked.inv (ht : t.Inv l []) (hd : d ∈ l) (hi : i ∈ l) (hv : Linked t d name i r v) :
    v.Inv l [] ∧ v.outside = t.outside := by
  cases r with
  | error rc =>
    obtain ⟨-, f, rfl⟩ := hv
    exact ⟨ht.withMem f, rfl⟩
  | ok _ =>
    obtain ⟨hl, f, rfl⟩ := hv
    exact ⟨((ht.withMem f).ref_mem hi).attach (ht.live_of_mem hd).1 hl.2.2.1, rfl⟩

theorem pathDestroyRecursive_yields (ht : t.Inv (p.inodes ++ l) []) :
    Yields (pathDestroyRecursive p) t fun _ v => v.Inv l [] ∧ v.outside = t.outside :=
  (pathDestroyNodes_frame (A := fun _ => True) ht (fun _ _ => .inl trivial) fun _ _ _ _ _ => trivial).mono
    fun _ _ hv => ⟨hv.1, hv.2.outside_eq⟩

theorem remove_ends {u : Vfs} (hp : p.Full) (hne : p.nodes ≠ []) (hu : Held s .none [] u p.inodes) :
    Ends Uaf (do
      let rc ← unlinkAt p
      pathDestroyRecursive p
      pure rc) u (Unlinks s) := by
  obtain ⟨d, name, ha⟩ := exists_pathAt hp.partial_ hne
  have hmem := ha.mem hp.partial_
  refine .bind (unlinkAt_yields hu.inv_nil ha hmem).ends fun r v hv => ?_
  have hvi := hv.inv hu.inv_nil hmem
  cases r with
  | error rc =>
    obtain ⟨rfl, -⟩ := hv
    exact .bind (pathDestroyRecursive_ends (l := []) (by rwa [append_nil])) fun _ w hw => .pure hw.1
  | ok _ =>
    obtain ⟨-, c, hc, hrun⟩ := hv
    rw [← append_nil (Path.inodes _)] at hvi
    obtain ⟨_, t, hde, -⟩ := pathDestroyRecursive_yields hvi.1
    exact .run_bind hde (.pure ⟨⟨p, u, v, name, d, c, hp, ha, hu, hc, hrun, hde⟩⟩)

theorem sysUnlink_ends (hs : s.Sound) (hb : base ∈ s.cwds) :
    Ends Uaf (sysUnlink base (.ok pathname)) s (Unlinks s) := by
  refine .bind (resolve_ends hs hb) fun r t ht => ?_
  cases r with
  | error rc => exact .pure ht
  | ok p =>
    obtain ⟨ht, hp⟩ := ht
    obtain ⟨i, hi, him⟩ := hp.inode
    refine .run_bind (pathInode_run hi) (useInode_ends (ht.live him).2 ?_)
    split
    · exact failUnit_nil ht fun _ => id
    · rename_i hco
      rw [not_or] at hco
      exact remove_ends hp hco.1 ht

theorem ensureEmptyDirectory_ends {h : List Nat} (ht : Held s .none h t (i :: l)) (hty : (t.inode i).type = .dir) :
    Ends Uaf (ensureEmptyDirectory i) t fun _ u => Held s .none h u l := by
  refine useInode_ends (ht.live (.head _)).2 (.ensure_bind hty ?_)
  refine .bind (inodeOpen_same ht (by decide)) fun r u ⟨hu, _⟩ => ?_
  cases r with
  | error rc => exact .pure hu
  | ok file =>
    obtain ⟨rfl, hu⟩ := hu
    refine useInode_ends (hu.live (.head _)).2 (.bind (inodeUnref_ends hu) fun _ v hv => ?_)
    split
    · exact .pure hv.1
    · exact .pure hv.1

theorem sysRmdir_ends (hs : s.Sound) (hb : base ∈ s.cwds) :
    Ends Uaf (sysRmdir base (.ok pathname)) s (Unlinks s) := by
  refine .bind (resolve_ends hs hb) fun r t ht => ?_
  cases r with
  | error rc => exact .pure ht
  | ok p =>
    obtain ⟨ht, hp⟩ := ht
    obtain ⟨i, hi, him⟩ := hp.inode
    refine .run_bind (pathInode_run hi) (useInode_ends (ht.live him).2 ?_)
    split
    · exact failUnit_nil ht fun _ => id
    · rename_i hne
      split
      · exact failUnit_nil ht fun _ => id
      · rename_i hty
        rw [not_not] at hty
        refine .bind (inodeRef_ends ht (ht.known (.inl him))) fun _ u ⟨hu, hui⟩ => ?_
        refine .bind (ensureEmptyDirectory_ends hu (hui ▸ hty)) fun r v hv => ?_
        cases r with
        | error rc => exact failUnit_nil hv fun _ => id
        | ok _ => exact remove_ends hp hne hv

end

/-! ### Files, mounts and working directories -/

section
variable {s t : Vfs} {e : Edit} {h l : List Nat} {base : Path} {i : Nat} {k : Nat}

theorem sysWrite_yields {content : Str} (hs : s.Sound) : Yields (sysWrite k content) s fun r t => t = s ∨
      r = .ok () ∧ ∃ i, i < s.numInodes ∧ (s.inode i).fops = .tmpfsNode ∧
        t = s.setInode i { s.inode i with content := content } := by
  refine .get ?_
  cases hk : s.files[k]? with
  | none => exact .pure (.inl rfl)
  | some i =>
    have hmem : i ∈ s.outer := by
      have := mem_of_getElem? hk
      simp [outer, this]
    have hi := (hs.inv.live i (by have := holders_pos_of_outer hmem; omega)).1
    dsimp only
    split
    · rename_i hnd
      exact .modify_bind (.pure (.inr ⟨rfl, i, hi, hnd, rfl⟩))
    · exact .pure (.inl rfl)

def dropFile (s : Vfs) (k : Nat) : Vfs := { s with files := s.files.eraseIdx k }

theorem Sound.dropFile_inv (hs : s.Sound) (hk : s.files[k]? = some i) : (s.dropFile k).Inv [i] [] := by
  obtain ⟨hlt, rfl⟩ := List.getElem?_eq_some_iff.mp hk
  have hpe := List.getElem_cons_eraseIdx_perm hlt
  refine hs.inv.pass rfl rfl rfl rfl rfl hs.inv.mounts fun j => ?_
  have := hpe.count_eq j
  rw [List.count_cons] at this
  simp only [dropFile, outer, List.count_append, List.count_cons, List.count_nil]
  omega

theorem sysClose_yields (hs : s.Sound) : Yields (sysClose k) s fun r t => t = s ∨
      r = .ok () ∧ ∃ i, s.files[k]? = some i ∧ inodeUnref i (s.dropFile k) = .ok ((), t) := by
  refine .get ?_
  cases hk : s.files[k]? with
  | none => exact .pure (.inl rfl)
  | some i =>
    obtain ⟨_, t, hrun, -⟩ := inodeUnref_yields (A := fun _ => True) (hs.dropFile_inv hk) trivial
      fun _ _ _ _ _ => trivial
    exact .modify_bind (.run_bind hrun (.pure (.inr ⟨rfl, i, rfl, hrun⟩)))

theorem Held.withDev (ht : Held s e h t l) (n : Nat) : Held s e h { t with nextDev := n } l where
  start := ht.start
  grown := ⟨ht.grown.outside, ht.grown.size, ht.grown.fresh, ht.grown.old, ht.grown.closed, ht.grown.kinds⟩
  inv := ht.inv.pass rfl rfl rfl rfl rfl ht.inv.mounts fun _ => rfl
  safe := ht.safe

theorem mountFs_ends {fs : FsType} (ht : Held s .none h t l) : Ends Uaf (mountFs fs) t fun r u =>
      match r with
      | .ok g => ∃ e, Edit.Quiet e ∧ Held s e h u (g :: l) ∧ t.numInodes ≤ g
      | .error _ => Held s .none h u l := by
  refine .bind (P := fun _ u => Held s .none h u l ∧ u.numInodes = t.numInodes) (.of_ok rfl ⟨ht.mem _, rfl⟩)
    fun b u ⟨hu, hun⟩ => ?_
  cases b with
  | false => exact .pure hu
  | true =>
    refine .run_bind (t := { u with nextDev := u.nextDev + 1 }) rfl ?_
    have hv := hu.withDev (u.nextDev + 1)
    generalize hv' : ({ u with nextDev := u.nextDev + 1 } : Vfs) = v at hv
    have hvn : v.numInodes = t.numInodes := by subst hv'; exact hun
    cases fs with
    | tmpfs =>
      have hnew := hv.make (tmpfsInode_ok .dir u.nextDev) rfl (tmpfsInode_not_device _ _) rfl rfl
      exact .run_bind (newInode_run v _) (.pure ⟨.making v.numInodes, trivial, hnew, by omega⟩)
    | proc =>
      have htmp : Fops.procRoot ≠ .tmpfsDir := nofun
      refine (newProcDir_ends hv rfl htmp rootItems_files).mono fun r w hw => ?_
      cases r with
      | error rc => exact hw
      | ok g =>
        obtain ⟨rfl, hw⟩ := hw
        exact ⟨.none, trivial, hw, by omega⟩

def addMount (s : Vfs) (host guest : Nat) : Vfs := { s with mounts := (host, guest) :: s.mounts }

def Mounts (s : Vfs) (r : Except Errno Unit) (t : Vfs) : Prop :=
  match r with
  | .ok () => ∃ e u host guest, Edit.Quiet e ∧ Held s e [] u [host, guest] ∧ host < guest ∧
      t = u.addMount host guest
  | .error _ => ∃ e, Edit.Quiet e ∧ Held s e [] t []

theorem mountAt_ends {host guest : Nat} (he : e.Quiet) (ht : Held s e [] t [host, guest]) (hlt : host < guest) :
    Ends Uaf (mountAt host guest) t (Mounts s) := by
  have hfa : ∀ u rc, Held s e [] u [host, guest] → Ends Uaf (do
      inodeUnref host
      inodeUnref guest
      pure (.error rc)) u (Mounts s) := fun u rc hu =>
    .bind (inodeUnref_ends hu) fun _ v hv => .bind (inodeUnref_ends hv.1) fun _ w hw => .pure ⟨e, he, hw.1⟩
  refine useInode_ends (ht.live (.head _)).2 ?_
  split
  · exact hfa t _ ht
  · refine .bind (kmalloc_ends ht) fun b u hu => ?_
    cases b with
    | false => exact hfa u _ hu
    | true => exact .modify_bind (.pure ⟨e, u, host, guest, he, hu, hlt, rfl⟩)

theorem sysMount_ends {target : Str} {fs : FsType} (hs : s.Sound) (hb : base ∈ s.cwds) :
    Ends Uaf (sysMount base (some fs) (.ok target)) s (Mounts s) := by
  refine .bind (resolve_ends hs hb) fun r t ht => ?_
  cases r with
  | error rc => exact .pure ⟨.none, trivial, ht⟩
  | ok p =>
    obtain ⟨ht, hp⟩ := ht
    obtain ⟨host, hho, hmem⟩ := hp.inode
    refine .bind (mountFs_ends ht) fun r u hu => ?_
    cases r with
    | error rc => exact failUnit_nil hu fun _ hv => ⟨.none, trivial, hv⟩
    | ok g =>
      obtain ⟨e, he, hu, hg⟩ := hu
      have hu' : Held s e [] u (p.inodes ++ [g]) := hu.perm perm_append_comm
      refine .bind (pathIntoInode_ends hu') fun o v ⟨ho, hv, _⟩ => ?_
      rw [hho] at ho
      subst ho
      have hlt := (ht.live hmem).1
      exact mountAt_ends he hv (by omega)

def setCwd (s : Vfs) (k : Nat) (p : Path) : Vfs := { s with cwds := s.cwds.set k p }

theorem count_set_flatMap {α : Type} {f : α → List Nat} {ps : List α} {j : Nat} {a b : α} (hk : ps[k]? = some a) :
    ((ps.set k b).flatMap f).count j + (f a).count j = (ps.flatMap f).count j + (f b).count j := by
  induction ps generalizing k with
  | nil => cases hk
  | cons p ps ih =>
    cases k with
    | zero =>
      cases hk
      simp only [set_cons_zero, flatMap_cons, count_append]
      omega
    | succ k =>
      have := ih hk
      simp only [set_cons_succ, flatMap_cons, count_append]
      omega

def Chdirs (s : Vfs) (k : Nat) (base : Path) (r : Except Errno Unit) (t : Vfs) : Prop :=
  match r with
  | .ok () => ∃ p u, p.Full ∧ Held s .none [] u p.inodes ∧ (u.setCwd k p).Inv base.inodes [] ∧
      pathDestroyRecursive base (u.setCwd k p) = .ok ((), t)
  | .error _ => Held s .none [] t []

theorem sysChdir_ends {pathname : Str} (hs : s.Sound) (hk : s.cwds[k]? = some base) :
    Ends Uaf (sysChdir k base (.ok pathname)) s (Chdirs s k base) := by
  have hb := mem_of_getElem? hk
  refine .bind (resolve_ends hs hb) fun r u hu => ?_
  cases r with
  | error rc => exact .pure hu
  | ok p =>
    obtain ⟨hu, hp⟩ := hu
    obtain ⟨i, hi, him⟩ := hp.inode
    refine .run_bind (pathInode_run hi) (useInode_ends (hu.live him).2 ?_)
    split
    · exact failUnit_nil hu fun _ => id
    · have hinv : (u.setCwd k p).Inv (base.inodes ++ []) [] := by
        refine hu.inv.pass rfl rfl rfl rfl rfl hu.inv.mounts fun j => ?_
        have := count_set_flatMap (f := Path.inodes) (b := p) (j := j) (hu.grown.cwds ▸ hk)
        simp only [setCwd, outer, count_append, append_nil]
        omega
      obtain ⟨_, t, hrun, -⟩ := pathDestroyRecursive_yields hinv
      rw [append_nil] at hinv
      exact .modify_bind (.run_bind hrun (.pure ⟨p, u, hp, hu, hinv, hrun⟩))

end

end Vfs

end Yagura
