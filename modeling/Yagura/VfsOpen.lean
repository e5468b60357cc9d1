import Yagura.VfsWalk

/-!
# References in opening and creating

`create_at` and `vfs_open_at` leave, besides the references they return, at most
one edit of the inodes they found: the entry of a new inode, the FIFO of its
node, or a file without its content. A call that fails may have made the entry
already.
-/

namespace Yagura

namespace Vfs

open List Nat Option Prog

open Getdents (FileType)

/-! ## Edits -/

section
variable {s t : Vfs} {h l : List Nat} {i d c : Nat} {name : Str} {type : FileType}

theorem Held.make {x : Inode} (ht : Held s .none h t l) (hok : x.Ok) (hfr : x.freed = false)
    (hdev : x.fops ≠ .device) (hhe : x.held = []) (hli : x.numLinks = 0) :
    Held s (.making t.numInodes) h (t.grow x) (t.numInodes :: l) :=
  ht.grow hok hfr hdev hhe hli ht.grown.size (fun _ => rfl) nofun

theorem attach_inode (hj : i ≠ c) : (s.attach d name c).inode i =
    if i = d then { s.inode i with children := (s.inode i).children ++ [(name, c)] } else s.inode i := by
  unfold attach
  rw [setInode_other hj]
  split
  · rename_i hid
    subst hid
    rw [setInode_self]
  · rename_i hid
    rw [setInode_other hid]

theorem Held.made {e : Edit} (ht : Held s e h t (c :: l)) (he : e = .none ∨ e = .making c) (hc : s.numInodes ≤ c)
    (hdo : d < s.numInodes) (hn : (t.inode d).children.lookup name = none) :
    Held s (.made d name c) h (t.attach d name c) l where
  start := ht.start
  grown := by
    have hold : ∀ i < s.numInodes, t.inode i = s.inode i := fun i hi => by
      rw [ht.grown.old i hi]
      rcases he with rfl | rfl <;> rfl
    refine ⟨ht.grown.outside, ht.grown.size, hc, fun i hi => ?_, fun i hi hin j hj => ?_, nofun⟩
    · rw [attach_inode (by omega), hold i hi]
      rfl
    · rcases attach_held hj with hj | rfl
      · exact ht.grown.closed i hi hin j hj
      · exact hc
  inv := ht.inv.attach (lt_of_lt_of_le hdo ht.grown.size) hn
  safe j hj := ht.safe j (.tail _ hj)

theorem count_attach_le (m j : Nat) : (s.inode m).held.count j ≤ ((s.attach d name c).inode m).held.count j := by
  have hap : ∀ x : Inode, x.held.count j ≤ (Inode.held { x with children := x.children ++ [(name, c)] }).count j := by
    intro x
    simp only [Inode.held, map_append, count_append]
    omega
  rw [attach_eq]
  by_cases hd : m = d
  · subst hd
    rw [setInode_self]
    by_cases hc : m = c
    · subst hc
      rw [setInode_self]
      exact hap _
    · rw [setInode_other hc]
      exact hap _
  · rw [setInode_other hd]
    by_cases hc : m = c
    · subst hc
      rw [setInode_self]
      rfl
    · rw [setInode_other hc]

theorem holders_le_attach (d : Nat) (name : Str) (c j : Nat) : s.holders j ≤ (s.attach d name c).holders j :=
  Nat.add_le_add_right (Finset.sum_le_sum fun m _ => count_attach_le m j) _

theorem attach_congr {n : Nat} (hold : ∀ j < n, t.inode j = s.inode j) (hd : d < n) (hc : c < n) (hi : i < n) :
    (t.attach d name c).inode i = (s.attach d name c).inode i := by
  have hfi : ∀ j < n, (t.setInode d { t.inode d with children := (t.inode d).children ++ [(name, c)] }).inode j =
      (s.setInode d { s.inode d with children := (s.inode d).children ++ [(name, c)] }).inode j := by
    intro j hj
    by_cases hjd : j = d
    · subst hjd
      rw [setInode_self, setInode_self, hold j hj]
    · rw [setInode_other hjd, setInode_other hjd, hold j hj]
  unfold attach
  by_cases hic : i = c
  · subst hic
    rw [setInode_self, setInode_self, hfi i hi]
  · rw [setInode_other hic, setInode_other hic, hfi i hi]

def linked (s : Vfs) (d : Nat) (name : Str) (i : Nat) : Vfs := (s.setRef i (s.refCount i + 1)).attach d name i

theorem Held.link (ht : Held s .none h t l) (hi : i ∈ l) (hio : i < s.numInodes) (hdo : d < s.numInodes)
    (hn : (t.inode d).children.lookup name = none) : Held (s.linked d name i) .none h (t.linked d name i) l := by
  have hold : ∀ j < s.numInodes, t.inode j = s.inode j := ht.grown.old
  have hfr : (s.inode i).freed = false := by
    rw [← hold i hio]
    exact (ht.live hi).2
  have hd : s.inode d = t.inode d := (hold d hdo).symm
  refine ⟨?_, ⟨ht.grown.outside, ht.grown.size, trivial, fun j hj => ?_, fun j hj hjn k hk => ?_, fun he j hjn hj => ?_⟩,
    ?_, fun j hj => ?_⟩
  · exact (ht.start.ref hio hfr).attach hdo (by rw [setRef_inode, hd]; exact hn)
  · exact attach_congr (s := s.setRef i _) (t := t.setRef i _) hold hdo hio hj
  · have hjn : s.numInodes ≤ j := hjn
    have hsa : (t.linked d name i).inode j = t.inode j := attach_other (by omega) (by omega)
    rw [hsa] at hk
    exact ht.grown.closed j hj hjn k hk
  · exact (attach_fops (s := t.setRef i _)).trans_ne (ht.grown.kinds he j hjn hj)
  · exact (ht.inv.ref (ht.live hi).1 (ht.live hi).2).attach (Nat.lt_of_lt_of_le hdo ht.grown.size) hn
  · refine (ht.safe j hj).imp id fun hpos => ?_
    have := holders_le_attach (s := s.setRef i (s.refCount i + 1)) d name i j
    exact Nat.lt_of_lt_of_le hpos (Nat.add_le_add_right this _)

end

theorem Held.dir_old {s t : Vfs} {h l : List Nat} {d : Nat} (ht : Held s .none h t l) (hd : d < t.numInodes)
    (htmp : (t.inode d).fops = .tmpfsDir) : d < s.numInodes := by
  by_contra hnew
  exact ht.grown.kinds rfl d (by omega) hd htmp

def Edit.Quiet : Edit → Prop
  | .none | .making _ | .piped _ _ | .emptied _ => True
  | .made _ _ _ => False

/-! ## Creating -/

section
variable {s t : Vfs} {h l : List Nat} {i d : Nat} {name : Str} {type : FileType}

theorem tmpfsInode_ok (type : FileType) (dev : Nat) : (tmpfsInode type dev).Ok := by
  refine ⟨nodup_nil, ?_, fun hl => .inl ?_⟩
  · unfold tmpfsInode
    by_cases hd : type = .dir
    · simp [hd, Fops.isDir]
    · simp [hd, Fops.isDir]
  · subst hl
    rfl

theorem tmpfsInode_not_device (type : FileType) (dev : Nat) : (tmpfsInode type dev).fops ≠ .device := by
  unfold tmpfsInode
  by_cases hd : type = .dir
  · simp [hd]
  · simp [hd]

/-- `create_child` finds the name missing and has memory for the inode, the dentry and the name in it. -/
def Creatable (t : Vfs) (d : Nat) (name : Str) : Prop :=
  (t.inode d).fops = .tmpfsDir ∧ (t.inode d).children.lookup name = none ∧ ∀ n < 3, t.mem n = true

theorem creatable_iff (htmp : (t.inode d).fops = .tmpfsDir) :
    Creatable t d name ↔ t.mem 0 = true ∧ Appendable (t.used 1) d name := by
  unfold Creatable Appendable used
  refine ⟨fun h => ⟨h.2.2 0 (by decide), h.2.1, h.2.2 1 (by decide), h.2.2 2 (by decide)⟩, fun h => ⟨htmp, h.2.1, ?_⟩⟩
  intro n hn
  obtain ⟨h0, -, h1, h2⟩ := h
  match n, hn with
  | 0, _ => exact h0
  | 1, _ => exact h1
  | 2, _ => exact h2

def Alike (x y : Inode) : Prop := y.type = x.type ∧ y.fops = x.fops

theorem Alike.fades {x y z : Inode} (h : Alike x y) (hf : Fades y z) : Alike x z :=
  ⟨hf.type.trans h.1, hf.fops.trans h.2⟩

def Created (s : Vfs) (h : List Nat) (t : Vfs) (l : List Nat) (d : Nat) (name : Str) (type : FileType)
    (r : Except Errno Nat) (u : Vfs) : Prop :=
  match r with
  | .ok i => (Creatable t d name ∧ u.mem = (t.used 3).mem) ∧ d < s.numInodes ∧ Held s (.made d name i) h u (i :: l) ∧
      Alike (tmpfsInode type 0) (u.inode i)
  | .error _ => ¬ Creatable t d name ∧ ∃ e, Edit.Quiet e ∧ Held s e h u l

theorem tmpfsLinkChild_ends {c : Nat} (ht : Held s (.making c) h t (c :: d :: l)) (hold : d < s.numInodes) :
    Ends Uaf (tmpfsLinkChild d name c) t fun r u =>
      Alike (t.inode c) (u.inode c) ∧
      match r with
      | .ok () => (Appendable t d name ∧ u.mem = (t.used 2).mem) ∧ Held s (.made d name c) h u l
      | .error _ => ¬ Appendable t d name ∧ Held s (.making c) h u l := by
  have hd := ht.live (.tail _ (.head _))
  refine .bind (P := fun r u => Alike (t.inode c) (u.inode c) ∧
    match r with
    | .ok () => (Appendable t d name ∧ u.mem = (t.used 2).mem) ∧ Held s (.made d name c) h u (d :: l)
    | .error _ => ¬ Appendable t d name ∧ Held s (.making c) h u (d :: l)) ?_ fun r u hu => ?_
  · refine dentryAppend_cases (P := fun u => Held s (.making c) h u (c :: d :: l) ∧ u.inode = t.inode) hd.2
      (ht.live (.head _)).2 ⟨ht, rfl⟩ (fun u f hu => ⟨hu.1.mem f, hu.2⟩) (fun hl => ?_) fun hno u rc hu => ?_
    · exact ⟨⟨attach_type, attach_fops⟩, ⟨hl, rfl⟩, (ht.mem _).made (.inr rfl) ht.grown.fresh hold hl.1⟩
    · refine (inodeUnref_ends hu.1).mono fun _ v hv => ⟨?_, hno, hv.1⟩
      rw [← hu.2]
      exact ⟨(hv.2.fades c).type, (hv.2.fades c).fops⟩
  · cases r with
    | error rc =>
      exact .bind (inodeUnref_ends hu.2.2) fun _ v hv => .pure ⟨hu.1.fades (hv.2.fades c), hu.2.1, hv.1⟩
    | ok _ =>
      exact .bind (inodeUnref_ends hu.2.2) fun _ v hv =>
        .pure ⟨hu.1.fades (hv.2.fades c), ⟨hu.2.1.1, hv.2.mem.trans hu.2.1.2⟩, hv.1⟩

theorem tmpfsCreateChild_ends (ht : Held s .none h t (d :: l)) (htmp : (t.inode d).fops = .tmpfsDir) :
    Ends Uaf (tmpfsCreateChild d name type) t (Created s h t l d name type) := by
  have hd := ht.live (.head _)
  have hu : Held s .none h (t.used 1) (d :: l) := ht.mem _
  have hfi : kmalloc t = .ok (t.mem 0, t.used 1) := rfl
  refine useInode_ends hd.2 (.run_bind hfi ?_)
  cases hm : t.mem 0 with
  | false =>
    refine (failLost_ends hu).mono fun r v ⟨hr, hv⟩ => ?_
    rw [hr]
    refine ⟨fun hc => ?_, .none, trivial, hv⟩
    rw [hc.2.2 0 (by decide)] at hm
    cases hm
  | true =>
    generalize hx : tmpfsInode type (t.inode d).dev = x
    have hnew := hu.make (x := x) (by subst hx; exact tmpfsInode_ok _ _) (by subst hx; rfl)
      (by subst hx; exact tmpfsInode_not_device _ _) (by subst hx; rfl) (by subst hx; rfl)
    have hne : d ≠ (t.used 1).numInodes := by
      have := hd.1
      exact Nat.ne_of_lt this
    have hfr : (((t.used 1).grow x).inode (t.used 1).numInodes).freed = false := by
      rw [grow_self]
      subst hx
      rfl
    refine .run_bind (newInode_run _ x) (.run_bind (inodeRef_run hfr) ?_)
    generalize hw : ((t.used 1).grow x).setRef (t.used 1).numInodes _ = w
    have hwd : w.inode d = t.inode d := by
      subst hw
      exact grow_other hne
    have hwx : w.inode (t.used 1).numInodes = x := by
      subst hw
      exact grow_self
    have hwm : w.mem = (t.used 1).mem := by
      subst hw
      rfl
    have hap : Appendable w d name ↔ Creatable t d name := by
      rw [creatable_iff htmp, Appendable, Appendable, hwd, hwm]
      exact ⟨fun h => ⟨hm, h⟩, fun h => h.2⟩
    have hw : Held s (.making (t.used 1).numInodes) h w (_ :: _ :: d :: l) :=
      hw ▸ hnew.ref (hnew.known (.inl (.head _)))
    refine .bind (tmpfsLinkChild_ends (hw.perm ((List.Perm.swap _ _ _).cons _)) (ht.dir_old hd.1 htmp))
      fun r v ⟨hal, hv⟩ => ?_
    cases r with
    | error rc =>
      exact .bind (inodeUnref_ends hv.2) fun _ z hz => .pure ⟨fun hc => hv.1 (hap.mpr hc), .making _, trivial, hz.1⟩
    | ok _ =>
      obtain ⟨⟨ha, hvm⟩, hv⟩ := hv
      refine .pure ⟨⟨hap.mp ha, ?_⟩, ht.dir_old hd.1 htmp, hv, ?_⟩
      · rw [hvm]
        funext n
        exact congrFun hwm (n + 2)
      · rw [hwx] at hal
        subst hx
        exact hal

theorem inodeCreateChild_ends (ht : Held s .none h t (d :: l)) :
    Ends Uaf (inodeCreateChild d name type) t (Created s h t l d name type) := by
  refine useInode_ends (ht.live (.head _)).2 ?_
  split
  · rename_i htmp
    exact tmpfsCreateChild_ends ht htmp
  · rename_i htmp
    exact .bind (inodeUnref_ends ht) fun _ u hu => .pure ⟨fun hc => htmp hc.1, .none, trivial, hu.1⟩

theorem createLast_ends {top : Nat} {ns : List (Str × Option Nat)} (ht : Held s .none h t (Path.inodes ⟨top, ns⟩ ++ l))
    (hfull : Path.Full ⟨top, ns⟩) (hd : Path.inode ⟨top, ns⟩ = some d) :
    Ends Uaf (createLast ⟨top, (name, none) :: ns⟩ type) t fun r u =>
      match r with
      | .ok q => ∃ i, q = ⟨top, (name, some i) :: ns⟩ ∧ (Creatable t d name ∧ u.mem = (t.used 3).mem) ∧ d < s.numInodes ∧
          Held s (.made d name i) h u (q.inodes ++ l) ∧ Alike (tmpfsInode type 0) (u.inode i)
      | .error _ => ¬ Creatable t d name ∧ ∃ e, Edit.Quiet e ∧ Held s e h u l := by
  obtain ⟨_, hd', hmem⟩ := hfull.inode
  obtain rfl := mem_unique hd hd'
  have hkn := ht.known (.inl (mem_append_left _ hmem))
  refine .run_bind (pathInode_run hd) (.run_bind (inodeRef_run hkn.1.2) ?_)
  refine .bind (inodeCreateChild_ends (ht.ref hkn)) fun r v hv => ?_
  cases r with
  | error rc =>
    obtain ⟨hno, e, he, hv⟩ := hv
    refine (failPath_ends (p := ⟨top, (name, none) :: ns⟩) hv).mono fun r w ⟨hr, hw⟩ => ?_
    rw [hr]
    exact ⟨hno, e, he, hw⟩
  | ok i => exact .pure ⟨i, rfl, hv⟩

/-- The lookup of `create_at` leaves `u`; it has found a name that can be created. -/
def CreatableAt (t : Vfs) (base : Path) (pathname : Str) (u : Vfs) : Prop :=
  ∃ p ns d name, vfsResolvePathAt base pathname O_ALLOW_NOENT t = .ok (.ok p, u) ∧ p.nodes = (name, none) :: ns ∧
    Path.inode ⟨p.top, ns⟩ = some d ∧ Creatable u d name

def AtPath (s : Vfs) (h : List Nat) (t : Vfs) (l : List Nat) (base : Path) (pathname : Str) (type : FileType)
    (excl : Bool) (r : Except Errno Path) (u : Vfs) : Prop :=
  match r with
  | .ok p => p.Full ∧ (excl = false ∧ (∀ v, ¬ CreatableAt t base pathname v) ∧ Held s .none h u (p.inodes ++ l) ∨
      ∃ v d name i, (CreatableAt t base pathname v ∧ u.mem = (v.used 3).mem) ∧ d < s.numInodes ∧ p.inode = some i ∧
        Held s (.made d name i) h u (p.inodes ++ l) ∧ Alike (tmpfsInode type 0) (u.inode i))
  | .error _ => (∀ v, ¬ CreatableAt t base pathname v) ∧ ∃ e, Edit.Quiet e ∧ Held s e h u l

theorem createAt_ends {base : Path} {pathname : Str} {excl : Bool} (ht : Held s .none h t l) (hba : base.Full)
    (hown : ∀ i ∈ base.inodes, Owned s h l i) :
    Ends Uaf (createAt base pathname type excl) t (AtPath s h t l base pathname type excl) := by
  refine .bind_of_run (vfsResolvePathAt_ends ht hba hown) fun r u hrun hu => ?_
  cases r with
  | error rc =>
    refine .pure ⟨?_, .none, trivial, hu⟩
    rintro v ⟨p, _, _, _, hrun', -⟩
    rw [hrun] at hrun'
    cases hrun'
  | ok p =>
    obtain ⟨hu, hp, -⟩ := hu
    dsimp only
    cases hi : p.inode with
    | some i =>
      have hno : ∀ v, ¬ CreatableAt t base pathname v := by
        rintro v ⟨p', ns, d, name, hrun', hns, -⟩
        rw [hrun] at hrun'
        cases hrun'
        rw [Path.inode, hns] at hi
        cases hi
      cases excl with
      | true =>
        refine (failPath_ends hu).mono fun r v ⟨hr, hv⟩ => ?_
        rw [hr]
        exact ⟨hno, .none, trivial, hv⟩
      | false => exact .pure ⟨hp.full hi, .inl ⟨rfl, hno, hu⟩⟩
    | none =>
      obtain ⟨top, ns⟩ := p
      cases ns with
      | nil => cases hi
      | cons n ns =>
        obtain ⟨name, o⟩ := n
        obtain rfl : o = none := hi
        obtain ⟨hna, hfull⟩ := hp
        obtain ⟨d, hd, -⟩ := hfull.inode
        have hu : Held s .none h u (Path.inodes ⟨top, ns⟩ ++ l) := hu
        refine (createLast_ends (d := d) hu hfull hd).mono fun r v hv => ?_
        cases r with
        | error rc =>
          refine ⟨?_, hv.2⟩
          rintro v ⟨p', ns', d', name', hrun', hns, hd', hc⟩
          rw [hrun] at hrun'
          cases hrun'
          cases hns
          cases hd.symm.trans hd'
          exact hv.1 hc
        | ok q =>
          obtain ⟨i, rfl, ⟨hc, hm⟩, hold, hv, hal⟩ := hv
          refine ⟨fun m hm => ?_, .inr ⟨u, d, name, i, ⟨⟨_, ns, d, name, hrun, rfl, hd, hc⟩, hm⟩, hold, rfl, hv, hal⟩⟩
          rcases mem_cons.mp hm with rfl | hm
          · exact ⟨hna, rfl⟩
          · exact hfull m hm

theorem vfsCreateAt_ends {base : Path} {pathname : Str} (ht : Held s .none h t l) (hba : base.Full)
    (hown : ∀ i ∈ base.inodes, Owned s h l i) :
    Ends Uaf (vfsCreateAt base pathname type) t fun r u =>
      match r with
      | .ok i => ∃ d name, d < s.numInodes ∧ Held s (.made d name i) h u (i :: l)
      | .error _ => ∃ e, Edit.Quiet e ∧ Held s e h u l := by
  refine .bind (createAt_ends ht hba hown) fun r u hu => ?_
  cases r with
  | error rc => exact .pure hu.2
  | ok p =>
    obtain ⟨-, ⟨hex, -⟩ | ⟨v, d, name, i, -, hold, hi, hu, -⟩⟩ := hu
    · cases hex
    · refine .bind (pathIntoInode_ends hu) fun o v ⟨ho, hv, _⟩ => ?_
      rw [hi] at ho
      subst ho
      exact .pure ⟨d, name, hold, hv⟩

end

/-! ## Opening -/

def Edit.After (e e' : Edit) : Prop := e' = e ∨ e = .none ∧ ((∃ i f, e' = .piped i f) ∨ ∃ i, e' = .emptied i)

section
variable {s t : Vfs} {e : Edit} {h l : List Nat} {i j f : Nat}

theorem Held.pipe (ht : Held s .none h t (f :: l)) (hi : i < t.numInodes) (hnn : (t.inode i).fifo = none)
    (hnew : s.numInodes ≤ f) : Held s (.piped i f) h (t.setInode i { t.inode i with fifo := some f }) l where
  start := ht.start
  grown := by
    refine ⟨ht.grown.outside, ht.grown.size, ⟨hnew, fun hlt => ?_⟩, fun j hj => ?_, fun j hj hjn k hk => ?_,
      nofun⟩
    · rw [← show t.inode i = s.inode i from ht.grown.old i hlt]
      exact hnn
    · have hold : t.inode j = s.inode j := ht.grown.old j hj
      simp only [Edit.apply]
      split
      · rename_i hji
        subst hji
        rw [setInode_self, hold]
      · rename_i hji
        rw [setInode_other hji, hold]
    · by_cases hji : j = i
      · subst hji
        rw [setInode_self] at hk
        simp only [Inode.held, toList_some, singleton_append, mem_cons] at hk
        rcases hk with rfl | hk
        · exact hnew
        · exact ht.grown.closed j hj hjn k (mem_append_right _ hk)
      · rw [setInode_other hji] at hk
        exact ht.grown.closed j hj hjn k hk
  inv := by
    have hok := ht.inv.ok i hi
    refine ht.inv.setInode hi rfl ⟨hok.names, hok.dir, hok.link⟩ rfl (fun j => ?_) fun j => rfl
    simp only [Inode.held, hnn, toList_some, toList_none, nil_append, cons_append, count_cons]
    omega
  safe j hj := ht.safe j (.tail _ hj)

theorem Held.setData {e' : Edit} {x : Inode} (ht : Held s e h t l) (hi : i < t.numInodes)
    (hf : x.freed = (t.inode i).freed) (hok : x.Ok) (hfo : x.fops = (t.inode i).fops)
    (hfi : x.fifo = (t.inode i).fifo) (hch : x.children = (t.inode i).children)
    (hli : x.numLinks = (t.inode i).numLinks) (hfr : e'.Fresh s) (hno : e' = .none → e = .none)
    (hot : ∀ j < s.numInodes, j ≠ i → e'.apply s j = e.apply s j) (hse : i < s.numInodes → e'.apply s i = x) :
    Held s e' h (t.setInode i x) l where
  start := ht.start
  grown := by
    refine ⟨ht.grown.outside, ht.grown.size, hfr, fun j hj => ?_, fun j hj hjn k hk => ?_, fun he j hjn hj => ?_⟩
    · by_cases hji : j = i
      · subst hji
        rw [setInode_self, hse hj]
      · rw [setInode_other hji, hot j hj hji]
        exact ht.grown.old j hj
    · by_cases hji : j = i
      · subst hji
        rw [setInode_self] at hk
        unfold Inode.held at hk
        rw [hfi, hch] at hk
        exact ht.grown.closed j hj hjn k hk
      · rw [setInode_other hji] at hk
        exact ht.grown.closed j hj hjn k hk
    · rw [setInode_proj Inode.fops hfo]
      exact ht.grown.kinds (hno he) j hjn hj
  inv := ht.inv.setData hi hf hok hfo hfi hch hli
  safe := ht.safe

theorem Held.emptyNew (ht : Held s e h t l) (hi : i < t.numInodes) (hnew : s.numInodes ≤ i) :
    Held s e h (t.setInode i { t.inode i with content := [] }) l :=
  ht.setData hi rfl ((ht.inv.ok i hi).withData (t.inode i).rdev []) rfl rfl rfl rfl ht.grown.fresh id
    (fun _ _ _ => rfl) fun hlt => absurd hnew (not_le.mpr hlt)

theorem Held.empty (ht : Held s e h t l) (hi : i < t.numInodes) (he : e = .none ∨ s.numInodes ≤ i) :
    ∃ e', e.After e' ∧ Held s e' h (t.setInode i { t.inode i with content := [] }) l := by
  have hok := (ht.inv.ok i hi).withData (t.inode i).rdev []
  by_cases hnew : s.numInodes ≤ i
  · exact ⟨e, .inl rfl, ht.emptyNew hi hnew⟩
  · obtain rfl := he.resolve_right hnew
    have hold : t.inode i = s.inode i := ht.grown.old i (by omega)
    refine ⟨.emptied i, .inr ⟨rfl, .inr ⟨i, rfl⟩⟩, ht.setData hi rfl hok rfl rfl rfl rfl trivial nofun
      (fun j _ hji => if_neg hji) fun _ => ?_⟩
    rw [hold]
    exact if_pos rfl

def Opened (s : Vfs) (e : Edit) (h l : List Nat) (r : Except Errno Nat) (u : Vfs) : Prop :=
  match r with
  | .ok i => ∃ e', e.After e' ∧ Held s e' h u (i :: l)
  | .error _ => ∃ e', e.After e' ∧ Held s e' h u l

theorem inodeOpen_opened {flags : Nat} (ht : Held s e h t (i :: l)) (he : e = .none ∨ s.numInodes ≤ i) :
    Ends Uaf (inodeOpen i flags) t (Opened s e h l) := by
  refine inodeOpen_cases ht (fun u rc hu => ⟨e, .inl rfl, hu⟩) fun u hu _ => ?_
  have hok : Opened s e h l (.ok i) u := ⟨e, .inl rfl, hu⟩
  unfold openTrunc
  split
  · split
    · refine (failLost_ends hu).mono fun r v ⟨hr, hv⟩ => ?_
      rw [hr]
      exact ⟨e, .inl rfl, hv⟩
    · split
      · exact .modify_bind (.pure (hu.empty (hu.live (.head _)).1 he))
      · exact .pure hok
  · exact .pure hok

theorem fifoCreate_ends {dev : Nat} (ht : Held s e h t l) : Ends Uaf (fifoCreate dev) t fun r u =>
      match r with
      | .ok f => Held s e h u (f :: l) ∧ s.numInodes ≤ f ∧ ∀ j < t.numInodes, u.inode j = t.inode j
      | .error _ => Held s e h u l := by
  refine .bind (P := fun _ u => Held s e h u l ∧ u.inode = t.inode ∧ u.numInodes = t.numInodes) ?_
    fun b u hb => ?_
  · exact .of_ok (allocBoth_eq t) ⟨ht.mem _, rfl, rfl⟩
  · obtain ⟨hu, hui, hun⟩ := hb
    cases b with
    | false => exact .pure hu
    | true =>
      have hok : Inode.Ok ⟨.fifo, .fifo, dev, 0, none, 0, [], [], false⟩ :=
        ⟨nodup_nil, by simp [Fops.isDir], by rintro ⟨⟩⟩
      refine .run_bind (newInode_run u _) (.pure ⟨hu.new hok rfl (by rintro ⟨⟩) (by rintro ⟨⟩) rfl rfl, hu.grown.size,
        fun j hj => ?_⟩)
      rw [grow_other (by omega), hui]

theorem openFifo_ends (ht : Held s .none h t (i :: l)) :
    Ends Uaf (openFifo i (t.inode i)) t fun r u => Opened s .none h l r u ∧
      ∀ j, r = .ok j → Held s .none h u (j :: l) ∨ s.numInodes ≤ j := by
  have hi := ht.live (.head _)
  unfold openFifo
  cases hx : (t.inode i).fifo with
  | some f =>
    have hhe : f ∈ (t.inode i).held := mem_append_left _ (by simp [hx])
    refine .bind (inodeRef_ends ht (ht.known_of_held hi.1 hhe)) fun _ u hu => ?_
    refine .bind (inodeUnref_ends (hu.1.perm (List.Perm.swap _ _ _))) fun _ v hv => ?_
    exact .pure ⟨⟨.none, .inl rfl, hv.1⟩, fun j hj => .inl (Except.ok.inj hj ▸ hv.1)⟩
  | none =>
    refine .bind (fifoCreate_ends ht) fun r u hu => ?_
    cases r with
    | error rc =>
      refine (failLost_ends hu).mono fun r v ⟨hr, hv⟩ => ?_
      rw [hr]
      exact ⟨⟨.none, .inl rfl, hv⟩, nofun⟩
    | ok f =>
      obtain ⟨hu, hnew, hsa⟩ := hu
      have hse : u.inode i = t.inode i := hsa i hi.1
      refine .bind (inodeRef_ends hu (hu.known (.inl (.head _)))) fun _ v ⟨hv, hvi⟩ => ?_
      have hvi' : v.inode i = t.inode i := by rw [hvi, hse]
      have hlt := (hv.live (i := i) (by simp)).1
      have hpi := hv.pipe (i := i) hlt (hvi' ▸ hx) hnew
      refine .modify_bind (.bind (inodeUnref_ends (hpi.perm (List.Perm.swap _ _ _))) fun _ w hw => ?_)
      exact .pure ⟨⟨_, .inr ⟨rfl, .inl ⟨i, f, rfl⟩⟩, hw.1⟩, fun j hj => .inr (Except.ok.inj hj ▸ hnew)⟩

def Special (s : Vfs) (h l : List Nat) (r : Except Errno Nat) (u : Vfs) : Prop :=
  match r with
  | .ok j => ∃ e', Edit.After .none e' ∧ Held s e' h u (j :: l) ∧ (e' = .none ∨ s.numInodes ≤ j)
  | .error _ => ∃ e', Edit.After .none e' ∧ Held s e' h u l

theorem resolveDevice_ends (ht : Held s .none h t (i :: l)) :
    Ends Uaf (match t.findDevice (t.inode i) with
      | none => failInode i .ENODEV
      | some d => do
        inodeRef d
        inodeUnref i
        pure (.ok d)) t (Special s h l) := by
  cases hd : t.findDevice (t.inode i) with
  | none =>
    refine (failInode_ends ht).mono ?_
    rintro r u ⟨hr, hu⟩
    rw [hr]
    exact ⟨.none, .inl rfl, hu⟩
  | some d =>
    have hmem : d ∈ s.devices := by
      rw [← show t.devices = s.devices from congrArg Outside.devices ht.grown.outside]
      exact mem_of_find?_eq_some hd
    have hown : 0 < s.holders d := holders_pos_of_outer (by simp [outer, hmem])
    refine .bind (inodeRef_ends ht (ht.known (.inr (by omega)))) fun _ u hu => ?_
    exact .bind (inodeUnref_ends (hu.1.perm (List.Perm.swap _ _ _))) fun _ v hv =>
      .pure ⟨.none, .inl rfl, hv.1, .inl rfl⟩

theorem resolveSpecialFile_ends (ht : Held s .none h t (i :: l)) :
    Ends Uaf (resolveSpecialFile i) t (Special s h l) := by
  have hse : Ends Uaf (pure (.ok i) : Op (Except Errno Nat)) t (Special s h l) :=
    .pure ⟨.none, .inl rfl, ht, .inl rfl⟩
  refine useInode_ends (ht.live (.head _)).2 (.get ?_)
  cases (t.inode i).type with
  | blk | chr => exact resolveDevice_ends ht
  | fifo =>
    refine (openFifo_ends ht).mono ?_
    rintro r u ⟨hu, hj⟩
    cases r with
    | error rc => exact hu
    | ok j =>
      rcases hj j rfl with hj | hj
      · exact ⟨.none, .inl rfl, hj, .inl rfl⟩
      · obtain ⟨e', he', hu⟩ := hu
        exact ⟨e', he', hu, .inr hj⟩
  | dir | reg | lnk | sock => exact hse

theorem Edit.After.trans {e₁ e₂ e₃ : Edit} (h : e₁.After e₂) (h' : e₂.After e₃) : e₁.After e₃ := by
  rcases h' with rfl | ⟨rfl, h'⟩
  · exact h
  · rcases h with rfl | ⟨rfl, ⟨_, _, he⟩ | ⟨_, he⟩⟩
    · exact .inr ⟨rfl, h'⟩
    · cases he
    · cases he

theorem openPath_ends {p : Path} {flags : Nat} (ht : Held s .none h t (p.inodes ++ l)) (hi : p.inode = some i) :
    Ends Uaf (openPath p flags) t (Opened s .none h l) := by
  refine .bind (pathIntoInode_ends ht) fun o u ⟨ho, hu, _⟩ => ?_
  rw [hi] at ho
  subst ho
  refine .bind (resolveSpecialFile_ends hu) fun r v hv => ?_
  cases r with
  | error rc => exact .pure hv
  | ok j =>
    obtain ⟨e', he', hv, hsi⟩ := hv
    refine (inodeOpen_opened hv hsi).mono fun r w hw => ?_
    cases r with
    | error rc =>
      obtain ⟨e'', he'', hw⟩ := hw
      exact ⟨e'', he'.trans he'', hw⟩
    | ok k =>
      obtain ⟨e'', he'', hw⟩ := hw
      exact ⟨e'', he'.trans he'', hw⟩

/-! ## Opening what has just been made -/

/-- `inode_open` fails for a new inode if the access mode is not one, or there is no memory for the file. -/
def OpenedNew (s : Vfs) (h l : List Nat) (e : Edit) (i flags : Nat) (mem : Nat → Bool) (r : Except Errno Nat) (u : Vfs) :
    Prop :=
  match r with
  | .ok j => (accmode flags ≠ 3 ∧ mem 0 = true) ∧ j = i ∧ u.mem = (fun n => mem (n + 1)) ∧ Held s e h u (i :: l)
  | .error _ => (accmode flags = 3 ∨ mem 0 = false) ∧ Held s e h u l

theorem inodeOpen_new {flags : Nat} (ht : Held s e h t (i :: l)) (hnew : s.numInodes ≤ i)
    (hty : (t.inode i).type ≠ .dir) (hfo : (t.inode i).fops = .tmpfsNode) :
    Ends Uaf (inodeOpen i flags) t (OpenedNew s h l e i flags t.mem) := by
  have hfa : ∀ u rc, Held s e h u (i :: l) → (accmode flags = 3 ∨ t.mem 0 = false) →
      Ends Uaf (failInode i rc) u (OpenedNew s h l e i flags t.mem) := fun u rc hu hc =>
    (failInode_ends hu).mono fun r v ⟨hr, hv⟩ => by rw [hr]; exact ⟨hc, hv⟩
  have hu : Held s e h (t.used 1) (i :: l) := ht.mem _
  have hfi : kmalloc t = .ok (t.mem 0, t.used 1) := rfl
  refine useInode_ends (ht.live (.head _)).2 ?_
  split
  · rename_i hac
    exact hfa t _ ht (.inl hac)
  · rename_i hac
    rw [if_neg fun h => hty h.2]
    refine .run_bind hfi ?_
    cases hm : t.mem 0 with
    | false => exact hfa _ _ hu (.inr hm)
    | true =>
      refine .run_bind (show fopsOpen i (t.inode i).fops (t.used 1) = .ok (none, t.used 1) by rw [hfo]; exact pure_run _) ?_
      dsimp only
      unfold openTrunc
      rw [if_neg hty, if_pos hfo]
      split
      · refine .modify_bind (.pure ⟨⟨hac, hm⟩, rfl, rfl, ?_⟩)
        exact hu.emptyNew (hu.live (.head _)).1 hnew
      · exact .pure ⟨⟨hac, hm⟩, rfl, rfl, hu⟩

theorem openPath_new {p : Path} {type : FileType} (flags : Nat) (ht : Held s e h t (p.inodes ++ l))
    (hi : p.inode = some i) (hnew : s.numInodes ≤ i) (hal : Alike (tmpfsInode type 0) (t.inode i))
    (hty : type = .reg ∨ type = .lnk) : Ends Uaf (openPath p flags) t (OpenedNew s h l e i flags t.mem) := by
  refine .bind (pathIntoInode_ends ht) fun o u ⟨ho, hu, hrel⟩ => ?_
  rw [hi] at ho
  subst ho
  obtain ⟨hty', hfo⟩ := hal.fades (hrel.fades i)
  have hres : resolveSpecialFile i u = .ok (.ok i, u) := by
    unfold resolveSpecialFile
    rw [useInode_bind (hu.live (.head _)).2, Prog.get_bind, hty']
    rcases hty with rfl | rfl
    · exact pure_run _
    · exact pure_run _
  refine .run_bind hres ?_
  rw [← hrel.mem]
  refine inodeOpen_new hu hnew ?_ ?_
  · rw [hty']
    rcases hty with rfl | rfl
    · nofun
    · nofun
  · rw [hfo]
    rcases hty with rfl | rfl
    · rfl
    · rfl

/-- `ASSERT(inode)` fails for a path without an inode, which only `O_ALLOW_NOENT` lets through. -/
def OpenTrap (flags : Nat) (e : VfsTrap) : Prop := Uaf e ∨ e = .assert ∧ creates flags = false ∧ allowNoent flags = true

def OpenedAt (s : Vfs) (h : List Nat) (t : Vfs) (l : List Nat) (base : Path) (pathname : Str) (flags : Nat)
    (r : Except Errno Nat) (u : Vfs) : Prop :=
  (¬ (creates flags = true ∧ ∃ v, CreatableAt t base pathname v) ∧
      (creates flags = true → exclusive flags = true → ∀ j, r ≠ .ok j) ∧ ∃ e, Edit.Quiet e ∧ Opened s e h l r u) ∨
    ∃ v d name i, (creates flags = true ∧ CreatableAt t base pathname v) ∧ d < s.numInodes ∧
      OpenedNew s h l (.made d name i) i flags (v.used 3).mem r u

theorem vfsOpenAt_ends {base : Path} {pathname : Str} {flags : Nat} {type : FileType} (ht : Held s .none h t l)
    (hba : base.Full) (hown : ∀ i ∈ base.inodes, Owned s h l i) (htp : type = .reg ∨ type = .lnk) :
    Ends (OpenTrap flags) (vfsOpenAt base pathname flags type) t (OpenedAt s h t l base pathname flags) := by
  unfold vfsOpenAt pathToOpen
  split
  · rename_i hcr
    refine .bind ((createAt_ends ht hba hown).weaken fun e => .inl) fun r u hu => ?_
    cases r with
    | error rc =>
      obtain ⟨hno, e, he, hu⟩ := hu
      exact .pure (.inl ⟨fun ⟨_, v, hv⟩ => hno v hv, fun _ _ => nofun, e, he, e, .inl rfl, hu⟩)
    | ok p =>
      obtain ⟨hp, ⟨hex, hno, hu⟩ | ⟨v, d, name, i, ⟨hc, hm⟩, hold, hi, hu, hal⟩⟩ := hu
      · obtain ⟨i, hi, -⟩ := hp.inode
        refine ((openPath_ends hu hi).weaken fun e => .inl).mono fun r w hw =>
          .inl ⟨fun ⟨_, v, hv⟩ => hno v hv, fun _ hex' => ?_, .none, trivial, hw⟩
        rw [hex] at hex'
        cases hex'
      · have hop := openPath_new flags hu hi hu.grown.fresh hal htp
        rw [hm] at hop
        exact (hop.weaken fun e => .inl).mono fun r w hw => .inr ⟨v, d, name, i, ⟨hcr, hc⟩, hold, hw⟩
  · rename_i hcr
    have hnot : ¬ (creates flags = true ∧ ∃ v, CreatableAt t base pathname v) := fun hc => hcr hc.1
    refine .bind ((vfsResolvePathAt_ends ht hba hown).weaken fun e => .inl) fun r u hu => ?_
    cases r with
    | error rc => exact .pure (.inl ⟨hnot, fun hc => absurd hc hcr, .none, trivial, .none, .inl rfl, hu⟩)
    | ok p =>
      obtain ⟨hu, -, hfull⟩ := hu
      cases hi : p.inode with
      | some i =>
        exact ((openPath_ends hu hi).weaken fun e => .inl).mono fun r v hv =>
          .inl ⟨hnot, fun hc => absurd hc hcr, .none, trivial, hv⟩
      | none =>
        have hal : allowNoent flags = true := by
          by_contra hno
          obtain ⟨i, hi', -⟩ := (hfull (by simpa using hno)).inode
          rw [hi] at hi'
          cases hi'
        refine .bind ((pathIntoInode_ends hu).weaken fun e => .inl) fun o v ⟨ho, _⟩ => ?_
        rw [hi] at ho
        subst ho
        exact .trap (.inr ⟨rfl, by simpa using hcr, hal⟩)

end

end Vfs

end Yagura
