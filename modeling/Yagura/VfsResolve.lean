import Yagura.VfsSound

/-!
# References in path resolution

Resolution changes no inode that was there before: it takes and gives back
references, and it makes inodes for the directories of procfs, which own only
each other. `Held` says so of a state in the middle of a call, with the
references that the call has taken since it started; each function is described
by the references it adds to them or takes off.
-/

namespace Yagura

open List Nat

/-! ## Components -/

variable {t : Token} {p : Path}

theorem strtokR_component {str : Str} (ht : strtokR str = some t) :
    t.component ≠ [] ∧ PATH_SEPARATOR ∉ t.component := by
  unfold strtokR at ht
  generalize hd : str.dropWhile (· == PATH_SEPARATOR) = r at ht
  dsimp only at ht
  split at ht
  · cases ht
  · rename_i hr
    cases ht
    refine ⟨?_, fun hm => ?_⟩
    · obtain ⟨c, cs, rfl⟩ := exists_cons_of_ne_nil hr
      have hc : ¬ (c == PATH_SEPARATOR) = true := by
        have := head_dropWhile_not (· == PATH_SEPARATOR) (l := str) (by rw [hd]; simp)
        simpa [hd] using this
      rw [takeWhile_cons_of_pos (by simpa using hc)]
      exact cons_ne_nil _ _
    · have := mem_takeWhile_imp hm
      simp at this

theorem tokensIn_component {k : Nat} {o : Option Str} (ht : t ∈ tokensIn k o) :
    t.component ≠ [] ∧ PATH_SEPARATOR ∉ t.component := by
  induction k generalizing o with
  | zero => cases o <;> cases ht
  | succ k ih =>
    cases o with
    | none => cases ht
    | some str =>
      rw [tokensIn] at ht
      split at ht
      · cases ht
      · rename_i t' hstr
        rcases mem_cons.mp ht with rfl | ht
        · exact strtokR_component hstr
        · exact ih ht

theorem tokens_plain {pathname : Str} (ht : t ∈ tokens pathname) (hdot : t.component ≠ dot)
    (hdo : t.component ≠ dotdot) : Plain t.component := by
  obtain ⟨hne, hsep⟩ := tokensIn_component ht
  exact ⟨hne, hsep, hdot, hdo⟩

/-! ## Paths -/

def Path.Full (p : Path) : Prop := ∀ n ∈ p.nodes, Plain n.1 ∧ n.2.isSome = true

def Path.Partial (p : Path) : Prop :=
  match p.nodes with
  | [] => True
  | n :: ns => Plain n.1 ∧ Path.Full ⟨p.top, ns⟩

theorem Path.Full.inode (hp : p.Full) : ∃ i, p.inode = some i ∧ i ∈ p.inodes := by
  obtain ⟨top, ns⟩ := p
  cases ns with
  | nil => exact ⟨top, rfl, mem_singleton_self _⟩
  | cons n ns =>
    obtain ⟨i, hi⟩ := Option.isSome_iff_exists.mp (hp n (.head _)).2
    exact ⟨i, hi, by rw [Vfs.Path.inodes_cons, hi]; exact mem_cons_self ..⟩

theorem Path.Full.partial_ (hp : p.Full) : p.Partial := by
  obtain ⟨top, ns⟩ := p
  cases ns with
  | nil => trivial
  | cons n ns => exact ⟨(hp n (.head _)).1, fun m hm => hp m (.tail _ hm)⟩

theorem Path.Partial.full (hp : p.Partial) {i : Nat} (hi : p.inode = some i) : p.Full := by
  obtain ⟨top, ns⟩ := p
  cases ns with
  | nil => exact nofun
  | cons n ns =>
    intro m hm
    rcases mem_cons.mp hm with rfl | hm
    · exact ⟨hp.1, Option.isSome_iff_exists.mpr ⟨i, hi⟩⟩
    · exact hp.2 m hm

namespace Vfs

open Prog

open Getdents (FileType)

/-! ## Old and new inodes -/

/-- What a state has besides inodes, numbers of devices and memory. -/
structure Outside where
  root : Nat
  mounts : List (Nat × Nat)
  devices : List Nat
  files : List Nat
  cwds : List Path
  tasks : Nat → Bool
  populate : Nat → Except Errno Str
  fifoOpen : Option Errno

def outside (s : Vfs) : Outside :=
  ⟨s.root, s.mounts, s.devices, s.files, s.cwds, s.tasks, s.populate, s.fifoOpen⟩

/-- What a call may have done to the inodes it found, besides taking references: an entry for an inode that
it made, a FIFO in its node, no content. The new inode may be there before its entry. -/
inductive Edit
  | none
  | making (i : Nat)
  | made (d : Nat) (name : Str) (i : Nat)
  | piped (i f : Nat)
  | emptied (i : Nat)

def Edit.apply (e : Edit) (s : Vfs) (j : Nat) : Inode :=
  match e with
  | .none | .making _ => s.inode j
  | .made d name i => if j = d then { s.inode j with children := (s.inode j).children ++ [(name, i)] } else s.inode j
  | .piped i f => if j = i then { s.inode j with fifo := some f } else s.inode j
  | .emptied i => if j = i then { s.inode j with content := [] } else s.inode j

def Edit.Fresh (e : Edit) (s : Vfs) : Prop :=
  match e with
  | .none | .emptied _ => True
  | .making i | .made _ _ i => s.numInodes ≤ i
  | .piped i f => s.numInodes ≤ f ∧ (i < s.numInodes → (s.inode i).fifo = Option.none)

/-- Since `s` the call has made the edit and changed references; new inodes own only new ones. -/
structure Grown (s : Vfs) (e : Edit) (t : Vfs) : Prop where
  outside : t.outside = s.outside
  size : s.numInodes ≤ t.numInodes
  fresh : e.Fresh s
  old : ∀ i < s.numInodes, t.inode i = e.apply s i
  closed : t.Closed (s.numInodes ≤ ·)
  kinds : e = .none → ∀ i, s.numInodes ≤ i → i < t.numInodes → (t.inode i).fops ≠ .tmpfsDir

section
variable {s t u : Vfs} {e : Edit} {i j : Nat}

theorem Edit.Fresh.count_held (he : e.Fresh s) (hi : i < s.numInodes) (hj : j < s.numInodes) :
    (e.apply s i).held.count j = (s.inode i).held.count j := by
  cases e with
  | none => rfl
  | making c => rfl
  | made d name c =>
    have hc : s.numInodes ≤ c := he
    simp only [Edit.apply]
    split
    · simp only [Inode.held, map_append, count_append, map_cons, map_nil]
      rw [count_eq_zero (l := [c]) |>.mpr (by simp; omega), add_zero]
    · rfl
  | piped d f =>
    obtain ⟨hf, hnn⟩ := he
    simp only [Edit.apply]
    split
    · rename_i hid
      subst hid
      simp only [Inode.held, count_append, hnn hi, Option.toList_some, Option.toList_none]
      rw [count_eq_zero (l := [f]) |>.mpr (by simp; omega), count_nil]
    · rfl
  | emptied d =>
    simp only [Edit.apply]
    split
    · rfl
    · rfl

theorem Grown.refl (s : Vfs) : Grown s .none s :=
  ⟨rfl, le_rfl, trivial, fun _ _ => rfl, fun _ hi hn => absurd hn (not_le.mpr hi),
    fun _ _ hn hi => absurd hn (not_le.mpr hi)⟩

theorem Released.outside_eq {A : Nat → Prop} (h : Released A s t) : t.outside = s.outside := by
  rw [h.same]
  rfl

theorem Grown.released (h : Grown s e t) (h' : Released (s.numInodes ≤ ·) t u) : Grown s e u where
  outside := h'.outside_eq.trans h.outside
  size := h'.numInodes ▸ h.size
  fresh := h.fresh
  old i hi := (h'.other i (not_le.mpr hi)).trans (h.old i hi)
  closed := h'.closed h.closed
  kinds he i hn hi := (h'.fades i).fops.trans_ne (h.kinds he i hn (h'.numInodes ▸ hi))

theorem outer_congr (h : t.outside = s.outside) : t.outer = s.outer :=
  congrArg (fun o : Outside => o.root :: o.mounts.flatMap (fun m => [m.1, m.2]) ++ o.devices ++ o.files ++
    o.cwds.flatMap Path.inodes) h

theorem Grown.cwds (h : Grown s e t) : t.cwds = s.cwds := congrArg Outside.cwds h.outside

theorem Grown.mounts (h : Grown s e t) : t.mounts = s.mounts := congrArg Outside.mounts h.outside

theorem Grown.holders (h : Grown s e t) (hi : i < s.numInodes) : t.holders i = s.holders i := by
  unfold Vfs.holders
  rw [outer_congr h.outside, tally_extend h.size]
  · congr 1
    refine Finset.sum_congr rfl fun j hj => ?_
    rw [h.old j (Finset.mem_range.mp hj)]
    exact h.fresh.count_held (Finset.mem_range.mp hj) hi
  · intro j hj hlt
    refine count_eq_zero.mpr fun hm => ?_
    have : s.numInodes ≤ i := h.closed j hlt hj i hm
    omega

end

/-! ## A call in progress -/

/-- The call started in `s` and its caller owns `h`; it has come to `t` and owns `l`. -/
structure Held (s : Vfs) (e : Edit) (h : List Nat) (t : Vfs) (l : List Nat) : Prop where
  start : s.Inv h []
  grown : Grown s e t
  inv : t.Inv (l ++ h) []
  safe : ∀ i ∈ l, s.Safe (s.numInodes ≤ ·) h i

def Owned (s : Vfs) (h l : List Nat) (i : Nat) : Prop := i ∈ l ∨ 0 < s.holders i + h.count i

def Known (s : Vfs) (h : List Nat) (t : Vfs) (i : Nat) : Prop :=
  (i < t.numInodes ∧ (t.inode i).freed = false) ∧ s.Safe (s.numInodes ≤ ·) h i

section
variable {s t : Vfs} {e : Edit} {h l l' : List Nat} {i : Nat} {d c : Nat} {name : Str}

theorem Held.refl (hs : s.Inv h []) : Held s .none h s [] := ⟨hs, .refl s, hs, nofun⟩

section
variable (ht : Held s e h t l)
include ht

theorem Held.live (hi : i ∈ l) : i < t.numInodes ∧ (t.inode i).freed = false :=
  ht.inv.live_of_mem (mem_append_left _ hi)

theorem Held.known (hi : Owned s h l i) : Known s h t i := by
  rcases hi with hm | hpos
  · exact ⟨ht.live hm, ht.safe i hm⟩
  · refine ⟨ht.inv.live i ?_, .inr hpos⟩
    rw [ht.grown.holders (ht.start.live i hpos).1, count_append]
    omega

theorem Held.known_of_held (hd : d < t.numInodes) (hi : i ∈ (t.inode d).held) : Known s h t i := by
  refine ⟨ht.inv.live i ?_, ?_⟩
  · have := holders_pos_of_held hd hi
    omega
  · by_cases hnew : s.numInodes ≤ i
    · exact .inl hnew
    · have hold : d < s.numInodes := by
        by_contra hlt
        exact hnew (ht.grown.closed d hd (by omega) i hi)
      have hco := count_pos_iff.mpr hi
      rw [ht.grown.old d hold, ht.grown.fresh.count_held hold (by omega)] at hco
      have := holders_pos_of_held hold (count_pos_iff.mp hco)
      exact .inr (by omega)

theorem Held.perm (hp : l'.Perm l) : Held s e h t l' where
  start := ht.start
  grown := ht.grown
  inv := ht.inv.perm fun i => by rw [count_append, count_append, hp.count_eq]
  safe i hi := ht.safe i (hp.mem_iff.mp hi)

theorem Held.mem (f : Nat → Bool) : Held s e h { t with mem := f } l where
  start := ht.start
  grown := ⟨ht.grown.outside, ht.grown.size, ht.grown.fresh, ht.grown.old, ht.grown.closed, ht.grown.kinds⟩
  inv := ht.inv.pass rfl rfl rfl rfl rfl ht.inv.mounts fun _ => rfl
  safe := ht.safe

theorem Held.ref (hi : Known s h t i) : Held s e h (t.setRef i (t.refCount i + 1)) (i :: l) where
  start := ht.start
  grown := ⟨ht.grown.outside, ht.grown.size, ht.grown.fresh, ht.grown.old, ht.grown.closed, ht.grown.kinds⟩
  inv := ht.inv.ref hi.1.1 hi.1.2
  safe j hj := by
    rcases mem_cons.mp hj with rfl | hj
    · exact hi.2
    · exact ht.safe j hj

end

theorem Held.lose (ht : Held s e h t (i :: l)) : Held s e h (t.lose i) l where
  start := ht.start
  grown := ⟨ht.grown.outside, ht.grown.size, ht.grown.fresh, ht.grown.old, ht.grown.closed, ht.grown.kinds⟩
  inv := ht.inv.lose
  safe j hj := ht.safe j (.tail _ hj)

theorem Held.safe_now (ht : Held s e h t (i :: l)) : t.Safe (s.numInodes ≤ ·) (l ++ h) i := by
  rcases ht.safe i (.head _) with hnew | hpos
  · exact .inl hnew
  · refine .inr ?_
    rw [ht.grown.holders (ht.start.live i hpos).1, count_append]
    omega

theorem Held.grow {x : Inode} {e' : Edit} (ht : Held s e h t l) (hok : x.Ok) (hfr : x.freed = false)
    (hdev : x.fops ≠ .device) (hhe : x.held = []) (hli : x.numLinks = 0) (hfe : e'.Fresh s)
    (hap : ∀ j, e'.apply s j = e.apply s j) (hno : e' = .none → e = .none ∧ x.fops ≠ .tmpfsDir) :
    Held s e' h (t.grow x) (t.numInodes :: l) where
  start := ht.start
  grown := by
    have hsi := ht.grown.size
    refine ⟨ht.grown.outside, le_succ_of_le hsi, hfe, fun i hi => ?_, fun i hi hnew j hj => ?_,
      fun he i hin hi => ?_⟩
    · rw [grow_other (by omega), hap]
      exact ht.grown.old i hi
    · by_cases hin : i = t.numInodes
      · subst hin
        rw [grow_self, hhe] at hj
        cases hj
      · rw [grow_other hin] at hj
        have hi : i < t.numInodes + 1 := hi
        exact ht.grown.closed i (by omega) hnew j hj
    · by_cases hit : i = t.numInodes
      · rw [hit, grow_self]
        exact (hno he).2
      · rw [grow_other hit]
        have hi : i < t.numInodes + 1 := hi
        exact ht.grown.kinds (hno he).1 i hin (by omega)
  inv := ht.inv.grow hok hfr hdev hhe hli
  safe j hj := by
    rcases mem_cons.mp hj with rfl | hj
    · exact .inl ht.grown.size
    · exact ht.safe j hj

theorem Held.new {x : Inode} (ht : Held s e h t l) (hok : x.Ok) (hfr : x.freed = false) (hdev : x.fops ≠ .device)
    (htmp : x.fops ≠ .tmpfsDir) (hhe : x.held = []) (hli : x.numLinks = 0) :
    Held s e h (t.grow x) (t.numInodes :: l) :=
  ht.grow hok hfr hdev hhe hli ht.grown.fresh (fun _ => rfl) fun he => ⟨he, htmp⟩

theorem attach_other (hd : i ≠ d) (hc : i ≠ c) : (s.attach d name c).inode i = s.inode i := by
  unfold attach
  rw [setInode_other hc, setInode_other hd]

theorem attach_held {j : Nat} (hj : j ∈ ((s.attach d name c).inode i).held) : j ∈ (s.inode i).held ∨ j = c := by
  have key : ∀ x : Inode, j ∈ Inode.held { x with children := x.children ++ [(name, c)] } → j ∈ x.held ∨ j = c := by
    intro x hx
    simpa [Inode.held, or_assoc] using hx
  rw [attach_eq] at hj
  by_cases hd : i = d
  · subst hd
    rw [setInode_self] at hj
    by_cases hc : i = c
    · subst hc
      rw [setInode_self] at hj
      exact key _ hj
    · rw [setInode_other hc] at hj
      exact key _ hj
  · rw [setInode_other hd] at hj
    by_cases hc : i = c
    · subst hc
      rw [setInode_self] at hj
      exact .inl hj
    · rw [setInode_other hc] at hj
      exact .inl hj

theorem Held.attach (ht : Held s e h t (c :: l)) (hnew : s.numInodes ≤ d) (hcn : s.numInodes ≤ c)
    (hd : d < t.numInodes) (hn : (t.inode d).children.lookup name = none) : Held s e h (t.attach d name c) l where
  start := ht.start
  grown := by
    refine ⟨ht.grown.outside, ht.grown.size, ht.grown.fresh, fun i hi => ?_, fun i hi hin j hj => ?_,
      fun he i hin hi => attach_fops.trans_ne (ht.grown.kinds he i hin hi)⟩
    · rw [attach_other (by omega) (by omega)]
      exact ht.grown.old i hi
    · rcases attach_held hj with hj | rfl
      · exact ht.grown.closed i hi hin j hj
      · exact hcn
  inv := ht.inv.attach hd hn
  safe j hj := ht.safe j (.tail _ hj)

end

/-! ## What the functions take and give back -/

/-- The only trap that resolution can end in: freed memory is read. -/
def Uaf (e : VfsTrap) : Prop := e = .freed

section
variable {bad : VfsTrap → Prop} {s t : Vfs} {e : Edit} {h l : List Nat} {i : Nat} {p : Path}

theorem useInode_ends {α : Type} {f : Inode → Op α} {Q : α → Vfs → Prop} (hf : (t.inode i).freed = false)
    (hQ : Ends bad (f (t.inode i)) t Q) : Ends bad (useInode i >>= f) t Q :=
  .run_bind (useInode_run hf) hQ

theorem kmalloc_ends (ht : Held s e h t l) : Ends bad kmalloc t fun _ u => Held s e h u l := .of_ok rfl (ht.mem _)

theorem allocBoth_eq (t : Vfs) :
    allocBoth t = .ok (t.mem 0 && t.mem 1, { t with mem := fun n => t.mem (n + if t.mem 0 then 2 else 1) }) := by
  have hfi : kmalloc t = .ok (t.mem 0, { t with mem := fun n => t.mem (n + 1) }) := rfl
  unfold allocBoth
  rw [bind_run hfi]
  cases hm : t.mem 0 with
  | false => exact pure_run _
  | true => rfl

theorem inodeRef_run (hf : (t.inode i).freed = false) : inodeRef i t = .ok ((), t.setRef i (t.refCount i + 1)) := by
  unfold inodeRef
  rw [useInode_bind hf, modify_run]

theorem inodeRef_ends (ht : Held s e h t l) (hi : Known s h t i) :
    Ends bad (inodeRef i) t fun _ u => Held s e h u (i :: l) ∧ u.inode = t.inode :=
  .of_ok (inodeRef_run hi.1.2) ⟨ht.ref hi, rfl⟩

theorem forget_ends (ht : Held s e h t (i :: l)) : Ends bad (forget i) t fun _ u => Held s e h u l := .modify ht.lose

theorem inodeUnref_ends (ht : Held s e h t (i :: l)) :
    Ends bad (inodeUnref i) t fun _ u => Held s e h u l ∧ Released (s.numInodes ≤ ·) t u := by
  obtain ⟨_, u, hrun, hinv, hrel⟩ := inodeUnref_frame (h := l ++ h) ht.inv ht.safe_now ht.grown.closed
  exact .of_ok hrun ⟨⟨ht.start, ht.grown.released hrel, hinv, fun j hj => ht.safe j (.tail _ hj)⟩, hrel⟩

theorem inodeUnrefOpt_ends {o : Option Nat} (ht : Held s e h t (o.toList ++ l)) :
    Ends bad (inodeUnrefOpt o) t fun _ u => Held s e h u l ∧ Released (s.numInodes ≤ ·) t u := by
  cases o with
  | none => exact .pure ⟨ht, .refl t⟩
  | some i => exact inodeUnref_ends ht

/-! ### Paths -/

theorem pathDestroyNodes_ends {top : Nat} {ns : List (Str × Option Nat)}
    (ht : Held s e h t (Path.inodes ⟨top, ns⟩ ++ l)) :
    Ends bad (pathDestroyNodes top ns) t fun _ u => Held s e h u l ∧ Released (s.numInodes ≤ ·) t u := by
  induction ns generalizing t with
  | nil => exact inodeUnref_ends ht
  | cons n ns ih =>
    rw [Path.inodes_cons, append_assoc] at ht
    exact .bind (inodeUnrefOpt_ends ht) fun _ u hu => (ih hu.1).mono fun _ v hv => ⟨hv.1, hu.2.trans hv.2⟩

theorem pathDestroyRecursive_ends (ht : Held s e h t (p.inodes ++ l)) :
    Ends bad (pathDestroyRecursive p) t fun _ u => Held s e h u l ∧ Released (s.numInodes ≤ ·) t u :=
  pathDestroyNodes_ends ht

theorem pathInode_run (hd : p.inode = some i) : pathInode p t = .ok (i, t) := by
  unfold pathInode
  rw [hd]
  exact pure_run i

theorem failPath_ends {rc : Errno} (ht : Held s e h t (p.inodes ++ l)) :
    Ends bad (failPath p rc) t fun r u => r = .error rc ∧ Held s e h u l := by
  exact .bind (pathDestroyRecursive_ends ht) fun _ u hu => .pure ⟨rfl, hu.1⟩

theorem pathIntoInode_ends (ht : Held s e h t (p.inodes ++ l)) : Ends bad (pathIntoInode p) t fun o u =>
      o = p.inode ∧ Held s e h u (o.toList ++ l) ∧ Released (s.numInodes ≤ ·) t u := by
  obtain ⟨top, ns⟩ := p
  cases ns with
  | nil => exact .pure ⟨rfl, ht, .refl t⟩
  | cons n ns =>
    rw [Path.inodes_cons, append_assoc] at ht
    have ht' : Held s e h t (Path.inodes ⟨top, ns⟩ ++ (n.2.toList ++ l)) := by
      refine ht.perm ?_
      rw [← append_assoc, ← append_assoc]
      exact perm_append_comm.append_right l
    exact .bind (pathDestroyNodes_ends ht') fun _ u hu => .pure ⟨rfl, hu⟩

end

/-! ### procfs -/

section
variable {bad : VfsTrap → Prop} {s t : Vfs} {e : Edit} {h l : List Nat} {i d : Nat}

/-- What is left after `n` allocations. -/
def used (t : Vfs) (n : Nat) : Vfs := { t with mem := fun k => t.mem (k + n) }

def Appendable (t : Vfs) (d : Nat) (name : Str) : Prop :=
  (t.inode d).children.lookup name = none ∧ t.mem 0 = true ∧ t.mem 1 = true

theorem dentryAppend_eq {c : Nat} (name : Str) (hf : (t.inode d).freed = false) (hc : (t.inode c).freed = false) :
    ∃ f, (t.mem 0 = true → { t with mem := f } = t.used 2) ∧ dentryAppend d name c t =
      if (t.inode d).children.lookup name ≠ none then (inodeUnref c >>= fun _ => pure (.error .EEXIST)) t
      else if t.mem 0 = true ∧ t.mem 1 = true then .ok (.ok (), { t with mem := f }.attach d name c)
      else (inodeUnref c >>= fun _ => pure (.error .ENOMEM)) { t with mem := f } := by
  have hal := allocBoth_eq t
  have hus : t.mem 0 = true → { t with mem := fun n => t.mem (n + if t.mem 0 then 2 else 1) } = t.used 2 := fun hm => by
    simp only [hm, if_pos, used]
  generalize (fun n => t.mem (n + if t.mem 0 then 2 else 1)) = f at hal hus
  have hc' : (({ t with mem := f }.setInode d
      { t.inode d with children := (t.inode d).children ++ [(name, c)] }).inode c).freed = false := by
    by_cases hcd : c = d
    · subst hcd
      rw [setInode_self]
      exact hc
    · rw [setInode_other hcd]
      exact hc
  refine ⟨f, hus, ?_⟩
  unfold dentryAppend
  rw [useInode_bind hf]
  by_cases hs : (t.inode d).children.lookup name = none
  · rw [if_neg (not_not.mpr hs), if_neg (by rw [hs]; nofun), bind_run hal]
    by_cases hm : t.mem 0 = true ∧ t.mem 1 = true
    · rw [if_pos hm, if_pos (by simpa using hm), modify_bind, useInode_bind hc', modify_bind, pure_run]
      rfl
    · rw [if_neg hm, if_neg (by simpa using hm)]
  · rw [if_pos hs, if_pos (Option.isSome_iff_ne_none.mpr hs)]

theorem dentryAppend_cases {c : Nat} {name : Str} {P : Vfs → Prop} {Q : Except Errno Unit → Vfs → Prop}
    (hf : (t.inode d).freed = false) (hc : (t.inode c).freed = false) (hP : P t)
    (hmem : ∀ u f, P u → P { u with mem := f })
    (hso : Appendable t d name → Q (.ok ()) ((t.used 2).attach d name c))
    (hnn : ¬ Appendable t d name → ∀ u e, P u → Ends bad (inodeUnref c) u fun _ v => Q (.error e) v) :
    Ends bad (dentryAppend d name c) t Q := by
  obtain ⟨f, hus, hrun⟩ := dentryAppend_eq name hf hc
  by_cases hl : (t.inode d).children.lookup name = none
  · rw [if_neg (not_not.mpr hl)] at hrun
    split at hrun
    · rename_i hm
      rw [hus hm.1] at hrun
      exact .of_ok hrun (hso ⟨hl, hm⟩)
    · rename_i hm
      exact .of_eq hrun (.bind (hnn (fun ha => hm ha.2) _ .ENOMEM (hmem t f hP)) fun _ v hv => .pure hv)
  · rw [if_pos hl] at hrun
    exact .of_eq hrun (.bind (hnn (fun ha => hl ha.1) t .EEXIST hP) fun _ v hv => .pure hv)

end

section
variable {bad : VfsTrap → Prop} {s t : Vfs} {e : Edit} {h l : List Nat} {i d : Nat}
  {name : Str} {dev : Nat} {items : List (Str × FileType)}

theorem dentryAppend_ends {c : Nat} (ht : Held s e h t (c :: l)) (hnew : s.numInodes ≤ d) (hcn : s.numInodes ≤ c)
    (hd : d ∈ l) : Ends bad (dentryAppend d name c) t fun _ u => Held s e h u l := by
  obtain ⟨hlt, hfr⟩ := ht.live (.tail _ hd)
  exact dentryAppend_cases (P := fun u => Held s e h u (c :: l)) hfr (ht.live (.head _)).2 ht (fun u f hu => hu.mem f)
    (fun hl => (ht.mem _).attach hnew hcn hlt hl.1) fun _ u e hu => (inodeUnref_ends hu).mono fun _ v hv => hv.1

theorem addItem_ends {item : Str × FileType} (ht : Held s e h t (d :: l)) (hnew : s.numInodes ≤ d)
    (hty : item.2 ≠ .dir) : Ends bad (addItem d dev item) t fun _ u => Held s e h u l := by
  refine .bind (kmalloc_ends ht) fun b u hu => ?_
  cases b with
  | false => exact .bind (inodeUnref_ends hu) fun _ v hv => .pure hv.1
  | true =>
    have hok : Inode.Ok ⟨.procItem, item.2, dev, 0, none, 0, [], [], false⟩ :=
      ⟨nodup_nil, by simpa [Fops.isDir] using hty, fun _ => .inr rfl⟩
    have hnx := hu.new hok rfl nofun nofun rfl rfl
    refine .run_bind (newInode_run u _) (.bind (dentryAppend_ends hnx hnew hu.grown.size (.head _)) fun rc v hv => ?_)
    exact .bind (inodeUnref_ends hv) fun _ w hw => .pure hw.1

theorem addItems_ends (ht : Held s e h t l) (hnew : s.numInodes ≤ d) (hd : d ∈ l)
    (hit : ∀ m ∈ items, m.2 ≠ .dir) :
    Ends bad (addItems d dev items) t fun _ u => Held s e h u l := by
  induction items generalizing t with
  | nil => exact .pure ht
  | cons m items ih =>
    refine .bind (inodeRef_ends ht (ht.known (.inl hd))) fun _ u ⟨hu, _⟩ => ?_
    refine .bind (addItem_ends hu hnew (hit m (.head _))) fun r v hv => ?_
    cases r with
    | error rc => exact .pure hv
    | ok _ => exact ih hv fun m hm => hit m (.tail _ hm)

theorem newProcDir_ends {fops : Fops} (ht : Held s e h t l) (hdir : fops.isDir = true) (htmp : fops ≠ .tmpfsDir)
    (hit : ∀ m ∈ items, m.2 ≠ .dir) :
    Ends bad (newProcDir fops dev items) t fun r u =>
      match r with
      | .ok i => i = t.numInodes ∧ Held s e h u (i :: l)
      | .error _ => Held s e h u l := by
  have hok : Inode.Ok ⟨fops, .dir, dev, 0, none, 0, [], [], false⟩ :=
    ⟨nodup_nil, by simp [hdir], nofun⟩
  have hnx := ht.new hok rfl (by rintro rfl; cases hdir) htmp rfl rfl
  refine .run_bind (newInode_run t _) ?_
  refine .bind (addItems_ends hnx ht.grown.size (.head _) hit) fun r v hv => ?_
  cases r with
  | error rc => exact .bind (forget_ends hv) fun _ w hw => .pure hw
  | ok _ => exact .pure ⟨rfl, hv⟩

theorem failLost_ends {rc : Errno} (ht : Held s e h t (i :: l)) :
    Ends bad (failLost i rc) t fun r u => r = .error rc ∧ Held s e h u l := by
  exact .bind (forget_ends ht) fun _ u hu => .pure ⟨rfl, hu⟩

theorem pidItems_files : ∀ m ∈ pidItems, m.2 ≠ .dir := by decide

theorem rootItems_files : ∀ m ∈ rootItems, m.2 ≠ .dir := by decide

def Instead (s : Vfs) (e : Edit) (h l : List Nat) (r : Except Errno Nat) (u : Vfs) : Prop :=
  match r with
  | .ok i => Held s e h u (i :: l)
  | .error _ => Held s e h u l

theorem procPidDirInodeCreate_ends {parent pid : Nat} (ht : Held s e h t (parent :: l)) :
    Ends bad (procPidDirInodeCreate parent pid) t (Instead s e h l) := by
  have hlo : ∀ u rc, Held s e h u (parent :: l) → Ends bad (failLost parent rc) u (Instead s e h l) := fun u rc hu =>
    (failLost_ends hu).mono fun r v ⟨hr, hv⟩ => by rw [hr]; exact hv
  refine useInode_ends (ht.live (.head _)).2 (.get ?_)
  split
  · refine .bind (kmalloc_ends ht) fun b u hu => ?_
    cases b with
    | false => exact hlo u _ hu
    | true =>
      refine .bind (newProcDir_ends hu rfl nofun pidItems_files) fun r v hv => ?_
      cases r with
      | error rc => exact hlo v rc hv
      | ok i =>
        exact .bind (inodeUnref_ends (hv.2.perm (List.Perm.swap _ _ _))) fun _ w hw => .pure hw.1
  · exact hlo t _ ht

/-! ### Lookup -/

theorem lookupDentry_ends (ht : Held s e h t (d :: l)) : Ends bad (lookupDentry d name) t (Instead s e h l) := by
  obtain ⟨hlt, hfr⟩ := ht.live (.head _)
  refine useInode_ends hfr ?_
  unfold dentryFind
  cases hl : (t.inode d).children.lookup name with
  | none =>
    refine .bind (P := fun r u => r = .error Errno.ENOENT ∧ u = t) (.pure ⟨rfl, rfl⟩) ?_
    rintro _ _ ⟨rfl, rfl⟩
    exact .bind (inodeUnref_ends ht) fun _ v hv => .pure hv.1
  | some c =>
    refine .bind (P := fun r u => r = .ok c ∧ Held s e h u (c :: d :: l)) ?_ ?_
    · refine .bind (inodeRef_ends ht (ht.known_of_held hlt (mem_held_of_lookup hl))) fun _ u hu => ?_
      exact .pure ⟨rfl, hu.1⟩
    · rintro _ u ⟨rfl, hu⟩
      exact .bind (inodeUnref_ends (hu.perm (List.Perm.swap _ _ _))) fun _ v hv => .pure hv.1

theorem inodeLookupChild_ends (ht : Held s e h t (d :: l)) :
    Ends bad (inodeLookupChild d name) t (Instead s e h l) := by
  have hle : Ends bad (do inodeUnref d; pure (.error .ENOTDIR)) t (Instead s e h l) :=
    .bind (inodeUnref_ends ht) fun _ u hu => .pure hu.1
  refine useInode_ends (ht.live (.head _)).2 ?_
  cases (t.inode d).fops with
  | tmpfsDir => exact lookupDentry_ends ht
  | procDir => exact lookupDentry_ends ht
  | procRoot =>
    dsimp only
    split
    · exact procPidDirInodeCreate_ends ht
    · exact lookupDentry_ends ht
  | tmpfsNode | procItem | fifo | device => exact hle

theorem mountGuest_mem {g : Nat} (hg : s.mountGuest i = some g) : (i, g) ∈ s.mounts := by
  exact mem_of_lookup hg

theorem mountTop_some {k n : Nat} (hm : ∀ m ∈ s.mounts, m.1 < m.2 ∧ m.2 < n) (hi : i < n) (hk : n ≤ i + k) :
    ∃ j, s.mountTop k i = some j := by
  induction k generalizing i with
  | zero => omega
  | succ k ih =>
    rw [mountTop]
    cases hg : s.mountGuest i with
    | none => exact ⟨i, rfl⟩
    | some g =>
      have := hm _ (mountGuest_mem hg)
      exact ih this.2 (by omega)

theorem mountTop_mem {j k : Nat} (hj : s.mountTop k i = some j) : j = i ∨ ∃ m ∈ s.mounts, m.2 = j := by
  induction k generalizing i with
  | zero => cases hj
  | succ k ih =>
    rw [mountTop] at hj
    cases hg : s.mountGuest i with
    | none =>
      rw [hg] at hj
      exact .inl (Option.some.inj hj).symm
    | some g =>
      rw [hg] at hj
      rcases ih hj with rfl | h
      · exact .inr ⟨_, mountGuest_mem hg, rfl⟩
      · exact .inr h

theorem mount_owned {m : Nat × Nat} (hm : m ∈ s.mounts) : 0 < s.holders m.1 ∧ 0 < s.holders m.2 := by
  have : m.1 ∈ s.outer ∧ m.2 ∈ s.outer := by
    unfold outer
    constructor <;>
    · simp only [cons_append, mem_cons, mem_append, mem_flatMap]
      exact .inr (.inl (.inl (.inl ⟨m, hm, by simp⟩)))
  exact ⟨holders_pos_of_outer this.1, holders_pos_of_outer this.2⟩

theorem resolveMounts_ends (ht : Held s e h t (i :: l)) :
    Ends bad (resolveMounts i) t fun j u => Held s e h u (j :: l) := by
  have hlt := (ht.live (.head _)).1
  obtain ⟨j, hj⟩ := mountTop_some (s := t) (k := t.numInodes + 1) (n := t.numInodes)
    (fun m hm => ⟨ht.inv.mounts m hm, (ht.inv.live _ (by have := (mount_owned hm).2; omega)).1⟩) hlt (by omega)
  refine .get ?_
  rw [hj]
  dsimp only
  by_cases hji : j = i
  · rw [if_neg (not_not_intro hji)]
    exact .pure ht
  · rw [if_pos hji]
    obtain ⟨m, hm, rfl⟩ := (mountTop_mem hj).resolve_left hji
    rw [ht.grown.mounts] at hm
    have hkn : Known s h t m.2 := ht.known (.inr (by have := (mount_owned hm).2; omega))
    refine .bind (inodeRef_ends ht hkn) fun _ u hu => ?_
    exact .bind (forget_ends (hu.1.perm (List.Perm.swap _ _ _))) fun _ v hv => .pure hv

end

/-! ### Opening -/

section
variable {bad : VfsTrap → Prop} {s t : Vfs} {e : Edit} {h l : List Nat} {i d : Nat}

theorem root_owned : 0 < s.holders s.root := holders_pos_of_outer (.head _)

theorem failInode_ends {rc : Errno} (ht : Held s e h t (i :: l)) :
    Ends bad (failInode i rc) t fun r u => r = .error rc ∧ Held s e h u l := by
  exact .bind (inodeUnref_ends ht) fun _ u hu => .pure ⟨rfl, hu.1⟩

theorem procItemOpen_ends (ht : Held s e h t l) :
    Ends bad (procItemOpen i) t fun _ u => Held s e h u l ∧ u.inode = t.inode := by
  refine .bind (P := fun _ u => Held s e h u l ∧ u.inode = t.inode) (.of_ok rfl ⟨ht.mem _, rfl⟩) fun b u hu => ?_
  cases b with
  | false => exact .pure hu
  | true =>
    refine .get ?_
    cases u.populate i with
    | error rc => exact .pure hu
    | ok _ => exact .pure hu

theorem fopsOpen_ends {fops : Fops} (ht : Held s e h t l) :
    Ends bad (fopsOpen i fops) t fun _ u => Held s e h u l ∧ u.inode = t.inode := by
  cases fops with
  | procItem => exact procItemOpen_ends ht
  | fifo => exact .get (.pure ⟨ht, rfl⟩)
  | tmpfsDir | tmpfsNode | procRoot | procDir | device => exact .pure ⟨ht, rfl⟩

theorem inodeOpen_cases {flags : Nat} {Q : Except Errno Nat → Vfs → Prop} (ht : Held s e h t (i :: l))
    (hfa : ∀ u rc, Held s e h u l → Q (.error rc) u)
    (hop : ∀ u, Held s e h u (i :: l) → u.inode = t.inode → Ends bad (openTrunc i flags (t.inode i)) u Q) :
    Ends bad (inodeOpen i flags) t Q := by
  have hba : ∀ u rc, Held s e h u (i :: l) → Ends bad (failInode i rc) u Q := fun u rc hu =>
    (failInode_ends hu).mono fun r v ⟨hr, hv⟩ => hr ▸ hfa v rc hv
  refine useInode_ends (ht.live (.head _)).2 ?_
  split
  · exact hba t _ ht
  · split
    · exact hba t _ ht
    · refine .bind (P := fun _ u => Held s e h u (i :: l) ∧ u.inode = t.inode) (.of_ok rfl ⟨ht.mem _, rfl⟩)
        fun b u ⟨hu, hui⟩ => ?_
      cases b with
      | false => exact hba u _ hu
      | true =>
        refine .bind (fopsOpen_ends hu) fun r v ⟨hv, hvi⟩ => ?_
        cases r with
        | some rc => exact hba v rc hv
        | none => exact hop v hv (hvi.trans hui)

theorem inodeOpen_same {flags : Nat} (ht : Held s e h t (i :: l)) (htr : truncates flags = false) :
    Ends bad (inodeOpen i flags) t fun r u =>
      (match r with
      | .ok j => j = i ∧ Held s e h u (i :: l)
      | .error _ => Held s e h u l) ∧ ∀ j, r = .ok j → u.inode = t.inode := by
  refine inodeOpen_cases ht (fun u rc hu => ⟨hu, nofun⟩) fun u hu hui => ?_
  unfold openTrunc
  rw [if_neg (by rw [htr]; nofun)]
  exact .pure ⟨⟨rfl, hu⟩, fun _ _ => hui⟩

theorem fileContent_ends (hf : (t.inode i).freed = false) : Ends bad (fileContent i) t fun _ u => u = t := by
  refine useInode_ends hf ?_
  cases (t.inode i).fops with
  | procItem => exact .get (.pure rfl)
  | tmpfsNode | fifo | tmpfsDir | procRoot | procDir | device => exact .pure rfl

end

end Vfs

end Yagura
