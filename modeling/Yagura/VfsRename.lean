import Yagura.VfsCalls

/-!
# What rename does

`sys_rename` drops the target's entry, makes the new entry and drops the old
one. Each of the three can fail, and nothing takes back what the ones before it
did.
-/

namespace Yagura

namespace Vfs

open List Prog

open Getdents (FileType)

def Moved (t : Vfs) (d' : Nat) (name' : Str) (i d : Nat) (name : Str) (r : Except Errno Unit) (v : Vfs) : Prop :=
  (¬ Linkable t d' name' i ∧ r ≠ .ok () ∧ ∃ f, v = { t with mem := f }) ∨
    Linkable t d' name' i ∧ ∃ f, Unlinked ({ t with mem := f }.linked d' name' i) d name r v

def MoveEnds (w : Vfs) (p q : Path) (i : Nat) (r : Except Errno Unit) (t : Vfs) : Prop :=
  ∃ d' name' d name v v', PathAt p d' name' ∧ PathAt q d name ∧ Moved w d' name' i d name r v ∧
    pathDestroyRecursive p v = .ok ((), v') ∧ pathDestroyRecursive q v' = .ok ((), t)

def Removable (t : Vfs) (d : Nat) (name : Str) : Prop :=
  (t.inode d).fops = .tmpfsDir ∧ (t.inode d).children.lookup name ≠ none

/-- The entry of the target `j` is dropped; a directory gives way only to a directory, and if it can be listed and is
empty. -/
def Goes (t : Vfs) (x : Inode) (j d : Nat) (name : Str) : Prop :=
  Removable t d name ∧ ((t.inode j).type = .dir →
    x.type = .dir ∧ t.mem 0 = true ∧ (t.inode j).children = [] ∧ (t.inode j).fops ≠ .procRoot)

/-- The allocations before the target goes: a file for listing it. -/
def listing (x : Inode) : Nat := if x.type = .dir then 1 else 0

inductive Renamed (s t₀ : Vfs) (p q : Path) (i : Nat) (r : Except Errno Unit) (t : Vfs) : Prop
  | root (hp : p.nodes = []) (hr : r ≠ .ok ()) (ht : Held s .none [] t [])
  | same (hne : p.nodes ≠ []) (hp : p.inode = some i) (hr : r = .ok ()) (ht : Held s .none [] t [])
  | blocked (j d' : Nat) (name' : Str) (hne : p.nodes ≠ []) (hp : p.inode = some j) (hj : j ≠ i)
    (ha : PathAt p d' name') (hgo : ¬ Goes t₀ (t₀.inode i) j d' name') (ht : Held s .none [] t [])
  | replaced (j d' : Nat) (name' : Str) (w : Vfs) (hne : p.nodes ≠ []) (hp : p.inode = some j) (hj : j ≠ i)
    (ha : PathAt p d' name') (hgo : Goes t₀ (t₀.inode i) j d' name')
    (hw : Unlinked (t₀.used (listing (t₀.inode j))) d' name' (.ok ()) w) (hend : MoveEnds w p q i r t)
  | moved (hne : p.nodes ≠ []) (hp : p.inode = none) (hend : MoveEnds t₀ p q i r t)

section
variable {s t v : Vfs} {p q : Path} {d' i d : Nat} {name' name : Str} {l : List Nat}

theorem Unlinked.removable (hv : Unlinked t d name (.ok ()) v) : Removable t d name := by
  obtain ⟨htmp, c, hc, -⟩ := hv
  exact ⟨htmp, by rw [hc]; nofun⟩

theorem moveEntry_yields (hp : p.Partial) (hq : q.Partial) (ht : t.Inv l []) (ha' : PathAt p d' name')
    (ha : PathAt q d name) (hi : i ∈ l) (hpl : ∀ j ∈ p.inodes, j ∈ l) (hql : ∀ j ∈ q.inodes, j ∈ l) :
    Yields (moveEntry p q i) t fun r v => Moved t d' name' i d name r v ∧ v.Inv l [] ∧ v.outside = t.outside := by
  have hmem' := ha'.mem hp
  have hmem := ha.mem hq
  refine .bind (linkAt_yields ht ha' (hpl _ hmem') hi) fun r u hu => ?_
  have hui := hu.inv ht (hpl _ hmem') hi
  cases r with
  | error rc =>
    obtain ⟨hno, f, rfl⟩ := hu
    exact .pure ⟨.inl ⟨hno, nofun, f, rfl⟩, hui⟩
  | ok _ =>
    obtain ⟨hl, f, rfl⟩ := hu
    refine (unlinkAt_yields hui.1 ha (hql _ hmem)).mono fun r v hv => ?_
    have hvi := hv.inv hui.1 (hql _ hmem)
    exact ⟨.inr ⟨hl, f, hv⟩, hvi.1, hvi.2.trans hui.2⟩

theorem ensureEmptyDirectory_run {j : Nat} (ht : t.Inv l []) (hj : j ∈ l) (hty : (t.inode j).type = .dir) :
    Yields (ensureEmptyDirectory j) (t.setRef j (t.refCount j + 1)) fun r u => u = t.used 1 ∧
      (r = .ok () ↔ t.mem 0 = true ∧ (t.inode j).children = [] ∧ (t.inode j).fops ≠ .procRoot) := by
  obtain ⟨hlt, hfr⟩ := ht.live_of_mem hj
  have hun : inodeUnref j ((t.setRef j (t.refCount j + 1)).used 1) = .ok ((), t.used 1) :=
    inodeUnref_back (s := t.used 1) (ht.withMem _) hj
  have hfi : kmalloc (t.setRef j (t.refCount j + 1)) = .ok (t.mem 0, (t.setRef j (t.refCount j + 1)).used 1) := rfl
  have hfo : ∀ u, fopsOpen j (t.inode j).fops u = .ok (none, u) := by
    intro u
    have hdir := (ht.ok j hlt).dir.mpr hty
    cases hf : (t.inode j).fops with
    | procItem | fifo =>
      rw [hf] at hdir
      cases hdir
    | _ => exact pure_run _
  refine .run_bind (useInode_run hfr) (.run_bind (a := ()) (ensure_ok.mpr ⟨hty, rfl⟩) ?_)
  refine .bind (P := fun r u => if t.mem 0 then r = .ok j ∧ u = (t.setRef j (t.refCount j + 1)).used 1 else
    r = .error .ENOMEM ∧ u = t.used 1) ?_ fun r u hu => ?_
  · refine .run_bind (useInode_run hfr) ?_
    rw [if_neg (by decide), if_neg fun h => h.1 rfl]
    refine .run_bind hfi ?_
    cases t.mem 0 with
    | false => exact .run_bind hun (.pure ⟨rfl, rfl⟩)
    | true => exact .run_bind (hfo _) (.pure ⟨rfl, rfl⟩)
  · cases hm : t.mem 0 with
    | false =>
      rw [hm] at hu
      obtain ⟨rfl, rfl⟩ := hu
      exact .pure ⟨rfl, by simp⟩
    | true =>
      rw [hm] at hu
      obtain ⟨rfl, rfl⟩ := hu
      refine .run_bind (useInode_run hfr) (.run_bind hun ?_)
      split
      · rename_i hco
        exact .pure ⟨rfl, iff_of_false nofun fun h => hco.elim (fun hne => hne h.2.1) h.2.2⟩
      · rename_i hco
        rw [not_or, not_not] at hco
        exact .pure ⟨rfl, iff_of_true rfl ⟨rfl, hco⟩⟩

def Replaced (t : Vfs) (x : Inode) (j d : Nat) (name : Str) : Except Errno Unit → Vfs → Prop
  | .ok (), w => Goes t x j d name ∧ Unlinked (t.used (listing (t.inode j))) d name (.ok ()) w
  | .error _, w => ¬ Goes t x j d name ∧ ∃ n, w = t.used n

theorem replaceTarget_yields {j : Nat} {x : Inode} (ht : t.Inv l []) (hj : p.inode = some j) (hjl : j ∈ l)
    (ha : PathAt p d' name') (hdl : d' ∈ l) : Yields (replaceTarget p x) t (Replaced t x j d' name') := by
  have hun : ((t.inode j).type = .dir →
        x.type = .dir ∧ t.mem 0 = true ∧ (t.inode j).children = [] ∧ (t.inode j).fops ≠ .procRoot) →
      Yields (unlinkAt p) (t.used (listing (t.inode j))) (Replaced t x j d' name') := by
    intro hdir
    refine (unlinkAt_yields (ht.withMem _) ha hdl).mono fun r w hw => ?_
    cases r with
    | error rc =>
      obtain ⟨rfl, hno⟩ := hw
      exact ⟨fun hgo => hno.elim (fun h => h hgo.1.1) hgo.1.2, _, rfl⟩
    | ok _ => exact ⟨⟨hw.removable, hdir⟩, hw⟩
  refine .run_bind (pathInode_run hj) (.run_bind (useInode_run (ht.live_of_mem hjl).2) ?_)
  split
  · rename_i hty
    split
    · rename_i hx
      exact .pure ⟨fun hgo => hx (hgo.2 hty).1, 0, rfl⟩
    · rename_i hx
      refine .run_bind (inodeRef_run (ht.live_of_mem hjl).2) ?_
      refine .bind (ensureEmptyDirectory_run ht hjl hty) ?_
      rintro r _ ⟨rfl, hr⟩
      cases r with
      | error rc =>
        refine .pure ⟨fun hgo => ?_, 1, rfl⟩
        cases hr.mpr (hgo.2 hty).2
      | ok _ =>
        have := hun fun _ => ⟨not_not.mp hx, hr.mp rfl⟩
        rwa [listing, if_pos hty] at this
  · rename_i hty
    have := hun fun h => absurd h hty
    rwa [listing, if_neg hty] at this

theorem moveEnds {w : Vfs} (hp : p.Partial) (hq : q.Full) (hne : p.nodes ≠ []) (hne' : q.nodes ≠ [])
    (hi : i ∈ q.inodes) (hw : w.Inv (p.inodes ++ q.inodes) []) :
    Yields (do
      let rc ← moveEntry p q i
      done p q rc) w (MoveEnds w p q i) := by
  obtain ⟨d', name', ha'⟩ := exists_pathAt hp hne
  obtain ⟨d, name, ha⟩ := exists_pathAt hq.partial_ hne'
  refine .bind (moveEntry_yields hp hq.partial_ hw ha' ha (mem_append_right _ hi)
    (fun j => mem_append_left _) fun j => mem_append_right _) fun r v ⟨hmo, hv, _⟩ => ?_
  obtain ⟨_, v', hrun, hv', -⟩ := pathDestroyRecursive_yields hv
  rw [← append_nil q.inodes] at hv'
  obtain ⟨_, t, hrun', -⟩ := pathDestroyRecursive_yields hv'
  exact .run_bind hrun (.run_bind hrun' (.pure ⟨d', name', d, name, v, v', ha', ha, hmo, hrun, hrun'⟩))

theorem MoveEnds.elim {w : Vfs} {r : Except Errno Unit} (hp : p.Partial) (hq : q.Full) (hi : i ∈ q.inodes)
    (hw : w.Inv (p.inodes ++ q.inodes) []) (hend : MoveEnds w p q i r t) :
    ∃ d' name' d name v, PathAt p d' name' ∧ PathAt q d name ∧ Moved w d' name' i d name r v ∧
      v.Inv (p.inodes ++ q.inodes) [] ∧ done p q r v = .ok (r, t) ∧ t.Inv [] [] ∧ Released (fun _ => True) v t ∧
      t.outside = w.outside := by
  obtain ⟨d', name', d, name, v, v', ha', ha, hmo, hrun, hrun'⟩ := hend
  have hv : v.Inv (p.inodes ++ q.inodes) [] ∧ v.outside = w.outside := by
    rcases hmo with ⟨-, -, f, rfl⟩ | ⟨hl, f, hmo⟩
    · exact ⟨hw.withMem f, rfl⟩
    · have hli : Linked w d' name' i (.ok ()) ({ w with mem := f }.linked d' name' i) := ⟨hl, f, rfl⟩
      have hu := hli.inv hw (mem_append_left _ (ha'.mem hp)) (mem_append_right _ hi)
      have := hmo.inv hu.1 (mem_append_right _ (ha.mem hq.partial_))
      exact ⟨this.1, this.2.trans hu.2⟩
  have hv' := destroy_released hv.1 hrun
  rw [← append_nil q.inodes] at hv'
  have ht := destroy_released hv'.1 hrun'
  have hrel := hv'.2.trans ht.2
  have hdo : done p q r v = .ok (r, t) := by
    unfold done
    rw [bind_run hrun, bind_run hrun', pure_run]
  exact ⟨d', name', d, name, v, ha', ha, hmo, hv.1, hdo, ht.1, hrel, hrel.outside_eq.trans hv.2⟩

theorem renamePaths_ends (ht : Held s .none [] t (p.inodes ++ q.inodes)) (hp : p.Partial) (hq : q.Full)
    (hne' : q.nodes ≠ []) (hi : q.inode = some i) :
    Ends Uaf (renamePaths p q i) t (Renamed s t p q i) := by
  have him : i ∈ q.inodes := by
    obtain ⟨_, hi', hm⟩ := hq.inode
    rw [hi] at hi'
    exact Option.some.inj hi' ▸ hm
  refine useInode_ends (ht.live (mem_append_right _ him)).2 ?_
  split
  · rename_i hro
    exact (done_ends ht).mono fun r v ⟨hr, hv, _⟩ => .root hro (hr ▸ nofun) hv
  · rename_i hne
    split
    · rename_i hsa
      exact (done_ends ht).mono fun r v ⟨hr, hv, _⟩ => .same hne hsa hr hv
    · rename_i hsa
      split
      · rename_i hso
        obtain ⟨j, hj⟩ := Option.isSome_iff_exists.mp hso
        have hji : j ≠ i := fun h => hsa (h ▸ hj)
        obtain ⟨d', name', ha'⟩ := exists_pathAt hp hne
        have hdm := mem_append_left q.inodes (ha'.mem hp)
        have hjm : j ∈ p.inodes ++ q.inodes := by
          obtain ⟨_, hj', hm⟩ := (hp.full hj).inode
          rw [hj] at hj'
          exact Option.some.inj hj' ▸ mem_append_left _ hm
        refine .bind (replaceTarget_yields ht.inv_nil hj hjm ha' hdm).ends fun r w hw => ?_
        cases r with
        | error rc =>
          obtain ⟨hgo, n, rfl⟩ := hw
          exact (done_ends (ht.mem _)).mono fun r v ⟨_, hv, _⟩ => .blocked j d' name' hne hj hji ha' hgo hv
        | ok _ =>
          obtain ⟨hgo, hw⟩ := hw
          have hwi := (hw.inv (ht.inv_nil.withMem _) hdm).1
          exact (moveEnds hp hq hne hne' him hwi).ends.mono fun r v hend =>
            .replaced j d' name' w hne hj hji ha' hgo hw hend
      · rename_i hnn
        have hnn : p.inode = none := by simpa using hnn
        exact (moveEnds hp hq hne hne' him ht.inv_nil).ends.mono fun r v hend => .moved hne hnn hend

inductive RenameEnds (s : Vfs) (base : Path) (old new : Str) (r : Except Errno Unit) (t : Vfs) : Prop
  | quiet (hr : r ≠ .ok ()) (ht : Held s .none [] t [])
    (hno : ∀ q u p v, vfsResolvePathAt base old 0 s = .ok (.ok q, u) → q.nodes ≠ [] →
      vfsResolvePathAt base new O_ALLOW_NOENT u ≠ .ok (.ok p, v))
  | found (q p : Path) (u v : Vfs) (i : Nat) (hq : vfsResolvePathAt base old 0 s = .ok (.ok q, u))
    (hp : vfsResolvePathAt base new O_ALLOW_NOENT u = .ok (.ok p, v)) (hfull : q.Full) (hpart : p.Partial)
    (hne : q.nodes ≠ []) (hi : q.inode = some i) (hv : Held s .none [] v (p.inodes ++ q.inodes))
    (hend : Renamed s v p q i r t)

theorem sysRename_ends {base : Path} {old new : Str} (hs : s.Sound) (hb : base ∈ s.cwds) :
    Ends Uaf (sysRename base (.ok old) (.ok new)) s (RenameEnds s base old new) := by
  refine .bind_of_run (resolve_ends hs hb) fun r u hrun hu => ?_
  cases r with
  | error rc =>
    refine .pure (.quiet nofun hu fun q v _ _ h => ?_)
    rw [hrun] at h
    cases h
  | ok q =>
    obtain ⟨hu, hq⟩ := hu
    obtain ⟨i, hi, him⟩ := hq.inode
    refine .run_bind (pathInode_run hi) ?_
    split
    · rename_i hro
      refine failUnit_nil hu fun _ hv => .quiet nofun hv fun q' _ _ _ h hne => ?_
      rw [hrun] at h
      cases h
      exact absurd hro hne
    · rename_i hne
      refine .bind_of_run (resolve_again_ends hs hb hu) fun r v hrun' hv => ?_
      cases r with
      | error rc =>
        refine failUnit_nil hv fun _ hw => .quiet nofun hw fun q' _ _ _ h _ h' => ?_
        rw [hrun] at h
        cases h
        rw [hrun'] at h'
        cases h'
      | ok p =>
        exact (renamePaths_ends hv.1 hv.2 hq hne hi).mono fun r w hw =>
          .found q p u v i hrun hrun' hq hv.2 hne hi hv.1 hw

end

end Vfs

end Yagura
