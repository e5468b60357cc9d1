import Yagura.VfsRuns

/-!
# Entries, links and the lifetime of inodes

In every state that is reached the names of a directory are distinct, links are
entries, and every entry owns a reference. A call keeps the entries that survive
in order and puts a new one last. A call that fails leaves entries and links
alone, unless it was opening an inode that it had just made.
-/

namespace Yagura

namespace Vfs

open List Nat Prog

open Getdents (FileType)

/-! ## The order of entries -/

def Ordered (n : Nat) (old new : List (Str × Nat)) : Prop :=
  ∃ kept added, kept.Sublist old ∧ new = kept ++ added ∧ added.length ≤ n

section
variable {n : Nat} {old new new' : List (Str × Nat)}

theorem Ordered.refl (l : List (Str × Nat)) : Ordered n l l := ⟨l, [], List.Sublist.refl l, by simp, zero_le n⟩

theorem Ordered.sublist (h : Ordered n old new) (hs : new'.Sublist new) : Ordered n old new' := by
  obtain ⟨kept, added, hk, rfl, hn⟩ := h
  obtain ⟨kept', added', rfl, hk', ha'⟩ := sublist_append_iff.mp hs
  exact ⟨kept', added', hk'.trans hk, rfl, le_trans ha'.length_le hn⟩

theorem Ordered.append (h : Ordered n old new) (e : Str × Nat) : Ordered (n + 1) old (new ++ [e]) := by
  obtain ⟨kept, added, hk, rfl, hn⟩ := h
  refine ⟨kept, added ++ [e], hk, by simp, ?_⟩
  rw [length_append]
  exact Nat.add_le_add_right hn 1

theorem Ordered.mono {m : Nat} (h : Ordered n old new) (hnm : n ≤ m) : Ordered m old new := by
  obtain ⟨kept, added, hk, hnew, hn⟩ := h
  exact ⟨kept, added, hk, hnew, le_trans hn hnm⟩

end

def Lists (n : Nat) (s t : Vfs) : Prop :=
  ∀ j < s.numInodes, (t.inode j).freed = false →
    (s.inode j).freed = false ∧ Ordered n (s.inode j).children (t.inode j).children

section
variable {s t u : Vfs} {e : Edit} {h l : List Nat} {n d c : Nat} {name : Str} {A : Nat → Prop}

theorem Edit.apply_ordered (e : Edit) (s : Vfs) (j : Nat) :
    (e.apply s j).freed = (s.inode j).freed ∧ Ordered 1 (s.inode j).children (e.apply s j).children := by
  cases e with
  | none => exact ⟨rfl, .refl _⟩
  | making i => exact ⟨rfl, .refl _⟩
  | made d name i =>
    simp only [Edit.apply]
    split
    · exact ⟨rfl, (Ordered.refl _).append (n := 0) _⟩
    · exact ⟨rfl, .refl _⟩
  | piped | emptied =>
    simp only [Edit.apply]
    split
    · exact ⟨rfl, .refl _⟩
    · exact ⟨rfl, .refl _⟩

theorem Held.lists (ht : Held s e h t l) : Lists 1 s t := by
  intro j hj hf
  rw [ht.grown.old j hj] at hf ⊢
  have := e.apply_ordered s j
  exact ⟨this.1 ▸ hf, this.2⟩

theorem Held.lists_none (ht : Held s .none h t l) : Lists 0 s t := by
  intro j hj hf
  rw [show t.inode j = s.inode j from ht.grown.old j hj] at hf ⊢
  exact ⟨hf, .refl _⟩

theorem Lists.released (ht : Lists n s t) (hr : Released A t u) : Lists n s u := by
  intro j hj hf
  obtain ⟨hc, -, hg⟩ | ⟨-, -, hg⟩ := (hr.fades j).held
  · rw [hc]
    exact ht j hj (hg ▸ hf)
  · rw [hg] at hf
    cases hf

theorem Lists.detach (ht : Lists n s t) (d : Nat) (name : Str) (c : Nat) : Lists n s (t.detach d name c) := by
  intro j hj hf
  obtain ⟨hs, ho⟩ := ht j hj (detach_freed ▸ hf)
  refine ⟨hs, ?_⟩
  rw [detach_children]
  split
  · exact ho.sublist eraseP_sublist
  · exact ho

theorem Lists.linked (ht : Lists n s t) (f : Nat → Bool) (d : Nat) (name : Str) (i : Nat) :
    Lists (n + 1) s ({ t with mem := f }.linked d name i) := by
  intro j hj hf
  have hg : (({ t with mem := f }.linked d name i).inode j).freed = (t.inode j).freed := attach_freed
  obtain ⟨hs, ho⟩ := ht j hj (hg ▸ hf)
  refine ⟨hs, ?_⟩
  unfold Vfs.linked
  rw [attach_children]
  split
  · exact ho.append _
  · exact ho.mono (le_succ n)

theorem Lists.unlinked {r : Except Errno Unit} (ht : Lists n s t) (hinv : t.Inv l []) (hd : d ∈ l)
    (hu : Unlinked t d name r u) : Lists n s u := by
  cases r with
  | error rc => exact hu.1 ▸ ht
  | ok _ =>
    obtain ⟨-, c, hc, hrun⟩ := hu
    exact (ht.detach d name c).released (drop_released hinv hd hc hrun).2

end
/-! ## What each call does to the entries -/

section
variable {s t : Vfs} {base : Path} {r : Except Errno Unit} {pathname : Str} {n : Nat}

theorem Lists.setInode {u : Vfs} {i : Nat} {x : Inode} (ht : Lists n s u) (hc : x.children = (u.inode i).children)
    (hf : x.freed = (u.inode i).freed) : Lists n s (u.setInode i x) := by
  intro j hj hfr
  rw [setInode_proj Inode.freed hf] at hfr
  rw [setInode_proj Inode.children hc]
  exact ht j hj hfr

theorem Lists.refl (s : Vfs) : Lists n s s := fun _ _ hf => ⟨hf, .refl _⟩

theorem Lists.mono {m : Nat} (ht : Lists m s t) (hmn : m ≤ n) : Lists n s t := fun j hj hf =>
  ⟨(ht j hj hf).1, (ht j hj hf).2.mono hmn⟩

theorem Makes.lists (ht : Makes s r t) : Lists 1 s t := by
  cases r with
  | error rc =>
    obtain ⟨e, -, ht⟩ := ht
    exact ht.lists
  | ok _ =>
    obtain ⟨d, name, i, ht⟩ := ht
    exact ht.lists

theorem Filed.lists {e : Edit} (ht : Filed s e r t) : Lists 1 s t := by
  cases r with
  | error rc => exact ht.lists
  | ok _ =>
    obtain ⟨i, u, hu, rfl⟩ := ht
    exact hu.lists

theorem Opens.lists {flags : Nat} {slot : Bool} (ht : Opens s base pathname flags slot r t) : Lists 1 s t := by
  obtain ⟨-, e, -, ht⟩ | ⟨v, d, name, i, -, -, -, ht⟩ := ht
  · exact ht.lists
  · exact ht.lists

theorem Symlinks.lists {target : Str} (ht : Symlinks s base target pathname r t) : Lists 1 s t := by
  obtain ⟨-, -, e, -, ht⟩ | ⟨v, d, name, i, -, -, -, ⟨ht, -⟩ | ⟨u, content, hu, rfl⟩⟩ := ht
  · exact ht.lists
  · exact ht.lists
  · exact Lists.setInode (u := u.addFile i) hu.lists rfl rfl

theorem Links.lists (ht : Links s r t) : Lists 1 s t := by
  cases r with
  | error rc => exact ht.lists
  | ok _ =>
    obtain ⟨d, name, i, ht | ht⟩ := ht
    · intro j hj hf
      rw [show t.inode j = (s.linked d name i).inode j from ht.grown.old j hj] at hf ⊢
      exact ((Lists.refl s).linked (n := 0) s.mem d name i) j hj hf
    · exact ht.lists

theorem Removal.lists (rm : Removal s t) : Lists 0 s t := by
  have hv := drop_released rm.held.inv_nil (rm.parent.mem rm.full.partial_) rm.entry rm.drop
  rw [← append_nil rm.path.inodes] at hv
  exact ((rm.held.lists_none.detach _ _ _).released hv.2).released (destroy_released hv.1 rm.destroy).2

theorem Unlinks.lists (ht : Unlinks s r t) : Lists 1 s t := by
  cases r with
  | error rc => exact ht.lists
  | ok _ =>
    obtain ⟨rm⟩ := ht
    exact rm.lists.mono (zero_le 1)

theorem MoveEnds.lists {w : Vfs} {p q : Path} {i : Nat} (hp : p.Partial) (hq : q.Full) (hi : i ∈ q.inodes)
    (hw : w.Inv (p.inodes ++ q.inodes) []) (hli : Lists 0 s w) (hend : MoveEnds w p q i r t) : Lists 1 s t := by
  obtain ⟨d', name', d, name, v, ha', ha, hmo, -, -, -, hrel, -⟩ := hend.elim hp hq hi hw
  refine Lists.released (t := v) ?_ hrel
  rcases hmo with ⟨-, -, f, rfl⟩ | ⟨hl, f, hmo⟩
  · exact hli.mono (zero_le 1)
  · have hln : Linked w d' name' i (.ok ()) ({ w with mem := f }.linked d' name' i) := ⟨hl, f, rfl⟩
    have hu := hln.inv hw (mem_append_left _ (ha'.mem hp)) (mem_append_right _ hi)
    exact (hli.linked f d' name' i).unlinked hu.1 (mem_append_right _ (ha.mem hq.partial_)) hmo

theorem RenameEnds.lists {old new : Str} (ht : RenameEnds s base old new r t) : Lists 1 s t := by
  cases ht with
  | quiet _ ht => exact ht.lists
  | found q p u v i _ _ hfull hpart _ hi hv hend =>
    have him : i ∈ q.inodes := by
      obtain ⟨_, hi', hm⟩ := hfull.inode
      rw [hi] at hi'
      exact Option.some.inj hi' ▸ hm
    cases hend with
    | root _ _ ht => exact ht.lists
    | same _ _ _ ht => exact ht.lists
    | blocked _ _ _ _ _ _ _ _ ht => exact ht.lists
    | replaced j d' name' w _ _ _ ha _ hw hend =>
      have hu := hv.mem fun k => v.mem (k + listing (v.inode j))
      have hdm := mem_append_left q.inodes (ha.mem hpart)
      exact hend.lists hpart hfull him (hw.inv hu.inv_nil hdm).1 (hu.lists_none.unlinked hu.inv_nil hdm hw)
    | moved _ _ hend => exact hend.lists hpart hfull him hv.inv_nil hv.lists_none

theorem Mounts.lists (ht : Mounts s r t) : Lists 1 s t := by
  cases r with
  | error rc =>
    obtain ⟨e, -, ht⟩ := ht
    exact ht.lists
  | ok _ =>
    obtain ⟨e, u, host, guest, -, hu, -, rfl⟩ := ht
    exact hu.lists

theorem Chdirs.lists {k : Nat} (ht : Chdirs s k base r t) : Lists 1 s t := by
  cases r with
  | error rc => exact ht.lists
  | ok _ =>
    obtain ⟨p, u, -, hu, hinv, hrun⟩ := ht
    rw [← append_nil base.inodes] at hinv
    exact Lists.released (t := u.setCwd k p) hu.lists (destroy_released hinv hrun).2

theorem Outcome.lists {k : Nat} {c : Call} (hs : s.Sound) (ho : Outcome s k base c r t) : Lists 1 s t := by
  unfold Outcome at ho
  split at ho
  · exact Makes.lists ho
  · exact Makes.lists ho
  · exact Opens.lists ho
  · obtain rfl | ⟨-, i, hi, hrun⟩ := ho
    · exact .refl _
    · have hrel := (inodeUnref_yields (A := fun _ => True) (hs.dropFile_inv hi) trivial
        fun _ _ _ _ _ => trivial).ok hrun
      exact Lists.released (t := s.dropFile _) (Lists.refl s) hrel.2
  · obtain rfl | ⟨-, i, -, -, rfl⟩ := ho
    · exact .refl _
    · exact (Lists.refl s).setInode rfl rfl
  · exact Links.lists ho
  · exact Symlinks.lists ho
  · exact Unlinks.lists ho
  · exact Unlinks.lists ho
  · exact RenameEnds.lists ho
  · exact Mounts.lists ho
  · exact Chdirs.lists ho
  · rw [ho.2]
    exact .refl s

end

/-! ## Calls that fail -/

def Unchanged (s t : Vfs) : Prop :=
  ∀ j < s.numInodes, (t.inode j).children = (s.inode j).children ∧ (t.inode j).numLinks = (s.inode j).numLinks

section
variable {s t : Vfs} {e : Edit} {h l : List Nat} {base : Path} {r : Except Errno Unit} {pathname : Str}

theorem Unchanged.refl (s : Vfs) : Unchanged s s := fun _ _ => ⟨rfl, rfl⟩

theorem Held.unchanged (ht : Held s e h t l) (he : e.Quiet) : Unchanged s t := by
  intro j hj
  rw [ht.grown.old j hj]
  cases e with
  | none => exact ⟨rfl, rfl⟩
  | making i => exact ⟨rfl, rfl⟩
  | made d name i => exact he.elim
  | piped | emptied =>
    simp only [Edit.apply]
    split
    · exact ⟨rfl, rfl⟩
    · exact ⟨rfl, rfl⟩

theorem Held.changed {d i : Nat} {name : Str} (ht : Held s (.made d name i) h t l) (hd : d < s.numInodes) :
    ¬ Unchanged s t := by
  intro hsa
  have := (hsa d hd).1
  rw [ht.grown.old d hd] at this
  simp [Edit.apply] at this

theorem CreatableAt.unique {v w : Vfs} (hv : CreatableAt s base pathname v) (hw : CreatableAt s base pathname w) :
    w = v := by
  obtain ⟨_, _, _, _, hv, -⟩ := hv
  obtain ⟨_, _, _, _, hw, -⟩ := hw
  cases hv.symm.trans hw
  rfl

theorem Filed.held (ht : Filed s e r t) (hr : r ≠ .ok ()) : Held s e [] t [] := by
  cases r with
  | error rc => exact ht
  | ok _ => exact absurd rfl hr

end

/-! ## In every state that is reached -/

def others (s : Vfs) (i : Nat) : Nat :=
  tally s.numInodes s.inode (fun x => x.fifo.toList.count i) + s.outer.count i + s.lost i

theorem holders_eq (s : Vfs) (i : Nat) : s.holders i + s.lost i = s.entries i + s.others i := by
  have hsp : (fun x : Inode => x.held.count i) =
      fun x => x.fifo.toList.count i + (x.children.map Prod.snd).count i := by
    funext x
    exact count_append
  unfold holders entries others
  rw [hsp, tally_add]
  omega

end Vfs

end Yagura
