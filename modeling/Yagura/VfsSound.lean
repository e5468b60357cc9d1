import Yagura.Vfs

/-!
# References and links of inodes

Every reference of an inode is owned by a dentry, a FIFO's inode, an open
file, a node of a working directory, a mount point, the root or the device
table, by the running call, or it is lost. Every link is a dentry. The
invariant says so with the references that the running call owns as an
argument, so that each function is described by the references it takes and
gives back.
-/

namespace Yagura

open Function Inode List Nat Prod

def Path.inodes (p : Path) : List Nat := p.nodes.filterMap Prod.snd ++ [p.top]

def Plain (name : Str) : Prop := name ≠ [] ∧ PATH_SEPARATOR ∉ name ∧ name ≠ dot ∧ name ≠ dotdot

instance (name : Str) : Decidable (Plain name) := by
  unfold Plain
  infer_instance

def Fops.isDir : Fops → Bool
  | .tmpfsDir | .procRoot | .procDir => true
  | .tmpfsNode | .procItem | .fifo | .device => false

structure Inode.Ok (x : Inode) : Prop where
  names : (x.children.map Prod.fst).Nodup
  dir : x.fops.isDir = true ↔ x.type = .dir
  link : x.type = .lnk → x.fops = .tmpfsNode ∨ x.fops = .procItem

variable {x : Inode} {c : Nat} {name : Str}

theorem lookup_perm_eraseP {α : Type} [BEq α] [LawfulBEq α] {l : List (α × Nat)} {name : α}
    (hl : l.lookup name = some c) : l.Perm ((name, c) :: l.eraseP (·.1 == name)) := by
  induction l with
  | nil => cases hl
  | cons e l ih =>
    obtain ⟨m, b⟩ := e
    by_cases hm : (m == name) = true
    · obtain rfl := eq_of_beq hm
      rw [lookup_cons_self] at hl
      cases hl
      rw [eraseP_cons_of_pos (by simp)]
    · rw [lookup_cons, show (name == m) = false by rw [BEq.comm]; simpa using hm] at hl
      rw [eraseP_cons_of_neg (by simpa using hm)]
      exact ((ih hl).cons _).trans (List.Perm.swap _ _ _)

theorem lookup_none_iff {l : List (Str × Nat)} : l.lookup name = none ↔ name ∉ l.map fst := by
  rw [lookup_eq_none_iff]
  simp only [mem_map, not_exists, not_and, bne_iff_ne, ne_eq]
  exact ⟨fun h e he hn => h e he hn.symm, fun h e he hn => h e he hn.symm⟩

theorem lookup_eraseP_ne {l : List (Str × Nat)} {name other : Str} (h : name ≠ other) :
    (l.eraseP (·.1 == other)).lookup name = l.lookup name := by
  induction l with
  | nil => rfl
  | cons c l ih =>
    by_cases hc : c.1 = other
    · have hne : (name == c.1) = false := beq_eq_false_iff_ne.mpr (hc ▸ h)
      rw [eraseP_cons_of_pos (by simpa using hc), lookup_cons, hne]
    · rw [eraseP_cons_of_neg (by simpa using hc), lookup_cons, lookup_cons, ih]

theorem mem_of_lookup {α : Type} [BEq α] [LawfulBEq α] {l : List (α × Nat)} {name : α} (hl : l.lookup name = some c) :
    (name, c) ∈ l :=
  (lookup_perm_eraseP hl).mem_iff.mpr (.head _)

theorem mem_held_of_lookup (hl : x.children.lookup name = some c) : c ∈ x.held :=
  mem_append_right _ (mem_map.mpr ⟨_, mem_of_lookup hl, rfl⟩)

theorem Inode.Ok.append (hx : x.Ok) (hn : x.children.lookup name = none) :
    Inode.Ok { x with children := x.children ++ [(name, c)] } where
  names := by
    rw [lookup_none_iff] at hn
    rw [map_append, nodup_append]
    refine ⟨hx.names, nodup_singleton _, ?_⟩
    rintro a ha b hb rfl
    rw [map_singleton, mem_singleton] at hb
    subst hb
    exact hn ha
  dir := hx.dir
  link := hx.link

theorem Inode.Ok.erase (hx : x.Ok) (p : Str × Nat → Bool) :
    Inode.Ok { x with children := x.children.eraseP p } where
  names := (eraseP_sublist.map _).nodup hx.names
  dir := hx.dir
  link := hx.link

theorem Inode.Ok.withLinks (hx : x.Ok) (n : Nat) : Inode.Ok { x with numLinks := n } :=
  ⟨hx.names, hx.dir, hx.link⟩

theorem Inode.Ok.withData (hx : x.Ok) (rdev : Nat) (content : Str) :
    Inode.Ok { x with rdev := rdev, content := content } :=
  ⟨hx.names, hx.dir, hx.link⟩

namespace Vfs

open Prog

def outer (s : Vfs) : List Nat :=
  s.root :: s.mounts.flatMap (fun m => [m.1, m.2]) ++ s.devices ++ s.files ++ s.cwds.flatMap Path.inodes

def entries (s : Vfs) (i : Nat) : Nat := tally s.numInodes s.inode fun x => (x.children.map Prod.snd).count i

def holders (s : Vfs) (i : Nat) : Nat := tally s.numInodes s.inode (fun x => x.held.count i) + s.outer.count i

/-- `h` are the references that the running call owns, `k` the links of dentries it is about to drop. -/
structure Inv (s : Vfs) (h k : List Nat) : Prop where
  refs : ∀ i < s.numInodes, (s.inode i).freed = false → s.refCount i = s.holders i + h.count i + s.lost i
  live : ∀ i, 0 < s.holders i + h.count i → i < s.numInodes ∧ (s.inode i).freed = false
  links : ∀ i < s.numInodes, (s.inode i).freed = false → (s.inode i).numLinks = s.entries i + k.count i
  ok : ∀ i < s.numInodes, (s.inode i).Ok
  device : ∀ i < s.numInodes, (s.inode i).fops = .device → i ∈ s.devices
  mounts : ∀ m ∈ s.mounts, m.1 < m.2
  fresh : ∀ i, s.numInodes ≤ i → s.lost i = 0

section
variable {s : Vfs} {h h' k : List Nat} {i j : Nat} {x : Inode}

/-! ## Owners -/

theorem Inv.perm (hs : s.Inv h k) (hc : ∀ i, h'.count i = h.count i) : s.Inv h' k where
  refs i hi hf := by rw [hc i]; exact hs.refs i hi hf
  live i hi := hs.live i (by rw [← hc i]; exact hi)
  links := hs.links
  ok := hs.ok
  device := hs.device
  mounts := hs.mounts
  fresh := hs.fresh

theorem entries_le_holders (s : Vfs) (i : Nat) : s.entries i ≤ s.holders i := by
  unfold entries holders
  have : tally s.numInodes s.inode (fun x => (x.children.map snd).count i) ≤
      tally s.numInodes s.inode fun x => x.held.count i :=
    tally_mono fun x => by
      unfold held
      rw [count_append]
      omega
  omega

theorem Inv.live_of_mem (hs : s.Inv h k) (hi : i ∈ h) : i < s.numInodes ∧ (s.inode i).freed = false :=
  hs.live i (by have := count_pos_iff.mpr hi; omega)

theorem holders_pos_of_outer (hi : i ∈ s.outer) : 0 < s.holders i := by
  unfold holders
  have := count_pos_iff.mpr hi
  omega

theorem holders_pos_of_held (hj : j < s.numInodes) (hi : i ∈ (s.inode j).held) : 0 < s.holders i := by
  have hle := le_tally (g := s.inode) (fun x => x.held.count i) hj
  have := count_pos_iff.mpr hi
  unfold holders
  omega

theorem Inv.refCount_pos (hs : s.Inv (i :: h) k) : 0 < s.refCount i := by
  obtain ⟨hi, hf⟩ := hs.live_of_mem (.head _)
  have := hs.refs i hi hf
  rw [count_cons_self] at this
  omega

/-! ## One reference more or less -/

@[simp] theorem setRef_inode (n : Nat) : (s.setRef i n).inode = s.inode := rfl

@[simp] theorem setRef_holders (n : Nat) : (s.setRef i n).holders = s.holders := rfl

theorem setRef_self (n : Nat) : (s.setRef i n).refCount i = n := update_self _ _ _

theorem setRef_other (n : Nat) (hj : j ≠ i) : (s.setRef i n).refCount j = s.refCount j := update_of_ne hj _ _

theorem Inv.setRef {n : Nat} (hs : s.Inv h k) (hl : ∀ j ∈ h', j ∈ h ∨ j < s.numInodes ∧ (s.inode j).freed = false)
    (hn : i < s.numInodes → (s.inode i).freed = false → n = s.holders i + h'.count i + s.lost i)
    (hc : ∀ j, j ≠ i → h'.count j = h.count j) : (s.setRef i n).Inv h' k where
  refs j hj hf := by
    by_cases hji : j = i
    · subst hji
      rw [setRef_self]
      exact hn hj hf
    · rw [setRef_other n hji, hc j hji]
      exact hs.refs j hj hf
  live j hj := by
    rw [setRef_holders] at hj
    by_cases hm : j ∈ h'
    · rcases hl j hm with hm | hm
      · exact hs.live_of_mem hm
      · exact hm
    · rw [count_eq_zero.mpr hm] at hj
      exact hs.live j (by omega)
  links := hs.links
  ok := hs.ok
  device := hs.device
  mounts := hs.mounts
  fresh := hs.fresh

theorem Inv.ref (hs : s.Inv h k) (hi : i < s.numInodes) (hf : (s.inode i).freed = false) :
    (s.setRef i (s.refCount i + 1)).Inv (i :: h) k := by
  refine hs.setRef (fun j hj => ?_) (fun _ _ => ?_) fun j hj => count_cons_of_ne (Ne.symm hj)
  · rcases mem_cons.mp hj with rfl | hj
    · exact .inr ⟨hi, hf⟩
    · exact .inl hj
  · rw [hs.refs i hi hf, count_cons_self]
    omega

theorem Inv.unref (hs : s.Inv (i :: h) k) : (s.setRef i (s.refCount i - 1)).Inv h k := by
  refine hs.setRef (fun j hj => .inl (.tail _ hj)) (fun hi hf => ?_)
    fun j hj => (count_cons_of_ne (Ne.symm hj)).symm
  rw [hs.refs i hi hf, count_cons_self]
  omega

theorem Inv.lose (hs : s.Inv (i :: h) k) : (s.lose i).Inv h k where
  refs j hj hf := by
    have := hs.refs j hj hf
    change s.refCount j = s.holders j + h.count j + update s.lost i (s.lost i + 1) j
    by_cases hji : j = i
    · subst hji
      rw [count_cons_self] at this
      rw [update_self]
      omega
    · rw [count_cons_of_ne (Ne.symm hji)] at this
      rw [update_of_ne hji]
      exact this
  live j hj := by
    have hj : 0 < s.holders j + h.count j := hj
    exact hs.live j (by rw [count_cons]; omega)
  links := hs.links
  ok := hs.ok
  device := hs.device
  mounts := hs.mounts
  fresh j hj := by
    have := (hs.live_of_mem (.head _)).1
    have hj : s.numInodes ≤ j := hj
    exact (update_of_ne (by omega) _ _).trans (hs.fresh j hj)

/-! ## One inode changes -/

@[simp] theorem setInode_self : (s.setInode i x).inode i = x := update_self _ _ _

theorem setInode_other (hj : j ≠ i) : (s.setInode i x).inode j = s.inode j := update_of_ne hj _ _

theorem setInode_proj {α : Type} (f : Inode → α) (hx : f x = f (s.inode i)) :
    f ((s.setInode i x).inode j) = f (s.inode j) := by
  by_cases hji : j = i
  · subst hji
    rw [setInode_self, hx]
  · rw [setInode_other hji]

theorem holders_setInode (hi : i < s.numInodes) (j : Nat) :
    (s.setInode i x).holders j + (s.inode i).held.count j = s.holders j + x.held.count j := by
  have := tally_update (g := s.inode) (fun x => x.held.count j) hi x
  change tally s.numInodes (update s.inode i x) (fun x => x.held.count j) + s.outer.count j + _ =
    tally s.numInodes s.inode (fun x => x.held.count j) + s.outer.count j + _
  omega

theorem entries_setInode (hi : i < s.numInodes) (j : Nat) :
    (s.setInode i x).entries j + ((s.inode i).children.map snd).count j =
      s.entries j + (x.children.map snd).count j :=
  tally_update (g := s.inode) (fun x => (x.children.map snd).count j) hi x

theorem Inv.setInode {k' : List Nat} (hs : s.Inv h k) (hi : i < s.numInodes) (hf : x.freed = (s.inode i).freed)
    (hok : x.Ok) (hfo : x.fops = (s.inode i).fops)
    (hhe : ∀ j, x.held.count j + h'.count j = (s.inode i).held.count j + h.count j)
    (hli : ∀ j, (x.children.map snd).count j + k'.count j + (if j = i then (s.inode i).numLinks else 0) =
      ((s.inode i).children.map snd).count j + k.count j + if j = i then x.numLinks else 0) :
    (s.setInode i x).Inv h' k' where
  refs j hj hfr := by
    have hold := holders_setInode (x := x) hi j
    have hmo := hhe j
    have hfr' : (s.inode j).freed = false := by
      by_cases hji : j = i
      · subst hji
        rwa [setInode_self, hf] at hfr
      · rwa [setInode_other hji] at hfr
    have hre := hs.refs j hj hfr'
    change s.refCount j = _ + _ + s.lost j
    omega
  live j hj := by
    have hold := holders_setInode (x := x) hi j
    have hmo := hhe j
    obtain ⟨hlt, hfr⟩ := hs.live j (by omega)
    refine ⟨hlt, ?_⟩
    by_cases hji : j = i
    · subst hji
      rwa [setInode_self, hf]
    · rwa [setInode_other hji]
  links j hj hfr := by
    have hent := entries_setInode (x := x) hi j
    have hmo := hli j
    by_cases hji : j = i
    · subst hji
      rw [setInode_self] at hfr ⊢
      have := hs.links j hj (hf ▸ hfr)
      rw [if_pos rfl, if_pos rfl] at hmo
      omega
    · rw [setInode_other hji] at hfr ⊢
      have := hs.links j hj hfr
      rw [if_neg hji, if_neg hji] at hmo
      omega
  ok j hj := by
    by_cases hji : j = i
    · subst hji
      rwa [setInode_self]
    · rw [setInode_other hji]
      exact hs.ok j hj
  device j hj hd := by
    by_cases hji : j = i
    · subst hji
      rw [setInode_self, hfo] at hd
      exact hs.device j hj hd
    · rw [setInode_other hji] at hd
      exact hs.device j hj hd
  mounts := hs.mounts
  fresh := hs.fresh

theorem Inv.setData (hs : s.Inv h k) (hi : i < s.numInodes) (hf : x.freed = (s.inode i).freed) (hok : x.Ok)
    (hfo : x.fops = (s.inode i).fops) (hfi : x.fifo = (s.inode i).fifo)
    (hch : x.children = (s.inode i).children) (hli : x.numLinks = (s.inode i).numLinks) :
    (s.setInode i x).Inv h k := by
  have hhe : x.held = (s.inode i).held := by unfold held; rw [hfi, hch]
  exact hs.setInode hi hf hok hfo (fun j => by rw [hhe]) fun j => by rw [hch, hli]

theorem Inv.dropLink (hs : s.Inv h (i :: k)) (hi : i < s.numInodes) (hf : (s.inode i).freed = false) :
    0 < (s.inode i).numLinks ∧ (s.setInode i { s.inode i with numLinks := (s.inode i).numLinks - 1 }).Inv h k := by
  have hli := hs.links i hi hf
  rw [count_cons_self] at hli
  have hok := hs.ok i hi
  refine ⟨by omega, hs.setInode hi rfl ⟨hok.names, hok.dir, hok.link⟩ rfl (fun j => rfl) fun j => ?_⟩
  by_cases hji : j = i
  · subst hji
    rw [if_pos rfl, if_pos rfl, count_cons_self]
    dsimp only
    omega
  · rw [if_neg hji, if_neg hji, count_cons_of_ne (Ne.symm hji)]

theorem Inv.destroy (hs : s.Inv h k) (hi : i < s.numInodes) (hf : (s.inode i).freed = false)
    (hr : s.refCount i = 0) :
    (s.setInode i { s.inode i with fifo := none, children := [], freed := true }).Inv
      ((s.inode i).held ++ h) ((s.inode i).children.map snd ++ k) := by
  have hre := hs.refs i hi hf
  have hok := hs.ok i hi
  generalize hx : ({ s.inode i with fifo := none, children := [], freed := true } : Inode) = x
  have hhe : x.held = [] := by subst hx; rfl
  have hfr : x.freed = true := by subst hx; rfl
  have hch : x.children = [] := by subst hx; rfl
  have hmo : ∀ j, (s.setInode i x).holders j + ((s.inode i).held ++ h).count j = s.holders j + h.count j := by
    intro j
    have := holders_setInode (x := x) hi j
    rw [hhe, count_nil] at this
    rw [count_append]
    omega
  have hne : ∀ j, ((s.setInode i x).inode j).freed = false → j ≠ i := by
    intro j hj hji
    subst hji
    rw [setInode_self, hfr] at hj
    cases hj
  have hfo : ∀ g, ((s.setInode i x).inode g).fops = (s.inode g).fops := by
    intro g
    by_cases hgi : g = i
    · subst hgi
      rw [setInode_self]
      subst hx
      rfl
    · rw [setInode_other hgi]
  refine ⟨fun j hj hfe => ?_, fun j hj => ?_, fun j hj hfe => ?_, fun j hj => ?_, fun j hj hd => ?_,
    hs.mounts, hs.fresh⟩
  · have hji := hne j hfe
    rw [setInode_other hji] at hfe
    have := hs.refs j hj hfe
    have := hmo j
    change s.refCount j = _ + _ + s.lost j
    omega
  · have := hmo j
    obtain ⟨hlt, hfe⟩ := hs.live j (by omega)
    refine ⟨hlt, ?_⟩
    rw [setInode_other (by rintro rfl; omega)]
    exact hfe
  · have hji := hne j hfe
    have hent := entries_setInode (x := x) hi j
    rw [hch] at hent
    rw [setInode_other hji] at hfe ⊢
    have := hs.links j hj hfe
    rw [count_append]
    simp only [map_nil, count_nil] at hent
    omega
  · by_cases hji : j = i
    · subst hji
      rw [setInode_self]
      subst hx
      exact ⟨nodup_nil, hok.dir, hok.link⟩
    · rw [setInode_other hji]
      exact hs.ok j hj
  · rw [hfo] at hd
    exact hs.device j hj hd

end

/-! ## Giving references up -/

structure Fades (x y : Inode) : Prop where
  fops : y.fops = x.fops
  type : y.type = x.type
  dev : y.dev = x.dev
  held : y.children = x.children ∧ y.fifo = x.fifo ∧ y.freed = x.freed ∨
    y.children = [] ∧ y.fifo = none ∧ y.freed = true

theorem Fades.refl (x : Inode) : Fades x x := ⟨rfl, rfl, rfl, .inl ⟨rfl, rfl, rfl⟩⟩

theorem Fades.trans {x y z : Inode} (h : Fades x y) (h' : Fades y z) : Fades x z where
  fops := h'.fops.trans h.fops
  type := h'.type.trans h.type
  dev := h'.dev.trans h.dev
  held := by
    obtain ⟨hc', hf', hg'⟩ | hgo := h'.held
    · obtain ⟨hc, hf, hg⟩ | ⟨hc, hf, hg⟩ := h.held
      · exact .inl ⟨hc'.trans hc, hf'.trans hf, hg'.trans hg⟩
      · exact .inr ⟨hc'.trans hc, hf'.trans hf, hg'.trans hg⟩
    · exact .inr hgo

theorem Fades.mem_held {x y : Inode} (h : Fades x y) {j : Nat} (hj : j ∈ y.held) : j ∈ x.held := by
  unfold Inode.held at hj ⊢
  obtain ⟨hc, hf, -⟩ | ⟨hc, hf, -⟩ := h.held
  · rwa [hc, hf] at hj
  · rw [hc, hf] at hj
    cases hj

def Closed (s : Vfs) (A : Nat → Prop) : Prop := ∀ i < s.numInodes, A i → ∀ j ∈ (s.inode i).held, A j

structure Released (A : Nat → Prop) (s t : Vfs) : Prop where
  same : t = { s with inode := t.inode, refCount := t.refCount }
  other : ∀ j, ¬ A j → t.inode j = s.inode j
  fades : ∀ j, Fades (s.inode j) (t.inode j)

section
variable {A : Nat → Prop} {s t u : Vfs}

theorem Released.refl (s : Vfs) : Released A s s := ⟨rfl, fun _ _ => rfl, fun _ => .refl _⟩

theorem Released.trans (h : Released A s t) (h' : Released A t u) : Released A s u where
  same := by rw [h'.same, h.same]
  other j hj := (h'.other j hj).trans (h.other j hj)
  fades j := (h.fades j).trans (h'.fades j)

theorem Released.numInodes (h : Released A s t) : t.numInodes = s.numInodes := by rw [h.same]

theorem Released.mem (h : Released A s t) : t.mem = s.mem := by rw [h.same]

theorem Released.closed (h : Released A s t) (hc : s.Closed A) : t.Closed A := fun i hi hA j hj =>
  hc i (h.numInodes ▸ hi) hA j ((h.fades i).mem_held hj)

theorem released_setRef (i n : Nat) : Released A s (s.setRef i n) := ⟨rfl, fun _ _ => rfl, fun _ => .refl _⟩

theorem released_setInode {i : Nat} {x : Inode} (hi : A i) (hx : Fades (s.inode i) x) : Released A s (s.setInode i x) where
  same := rfl
  other j hj := setInode_other (by rintro rfl; exact hj hi)
  fades j := by
    by_cases hji : j = i
    · subst hji
      rwa [setInode_self]
    · rw [setInode_other hji]
      exact .refl _

end

section
variable {A : Nat → Prop} {s : Vfs} {h k : List Nat} {i : Nat}

theorem useInode_run (hf : (s.inode i).freed = false) : useInode i s = .ok (s.inode i, s) := by
  simp [useInode, look, hf]

theorem useInode_bind {β : Type} {f : Inode → Op β} (hf : (s.inode i).freed = false) :
    (useInode i >>= f) s = f (s.inode i) s := bind_run (useInode_run hf)

def owed (l : List (Nat × Bool)) : List Nat := l.map Prod.fst

def owedLinks (l : List (Nat × Bool)) : List Nat := (l.filter Prod.snd).map Prod.fst

theorem owed_dues (x : Inode) : owed x.dues = x.held := by
  simp [owed, dues, held, Function.comp_def]

theorem owedLinks_dues (x : Inode) : owedLinks x.dues = x.children.map snd := by
  simp [owedLinks, dues, filter_map, Function.comp_def]

theorem dropLink_yields (entry : Bool) (hs : s.Inv (i :: h) (owedLinks [(i, entry)] ++ k)) (hA : A i) :
    Yields (dropLink i entry) s fun _ t => t.Inv (i :: h) k ∧ Released A s t ∧ t.refCount = s.refCount ∧
      t.size = s.size := by
  cases entry with
  | false => exact .pure ⟨hs, .refl s, rfl, rfl⟩
  | true =>
    obtain ⟨hi, hf⟩ := hs.live_of_mem (.head _)
    obtain ⟨hpos, hinv⟩ := hs.dropLink hi hf
    simp only [dropLink]
    refine ⟨(), _, ?_, hinv, released_setInode hA ⟨rfl, rfl, rfl, .inl ⟨rfl, rfl, rfl⟩⟩, rfl, ?_⟩
    · rw [useInode_bind hf, ensure_bind, if_pos hpos, modify_run]
    · have := tally_update (g := s.inode) (fun x => x.held.length) hi
        { s.inode i with numLinks := (s.inode i).numLinks - 1 }
      exact add_right_cancel this

theorem inodeDestroy_yields (hs : s.Inv h k) (hi : i < s.numInodes) (hf : (s.inode i).freed = false)
    (hr : s.refCount i = 0) (hA : A i) (hc : s.Closed A) :
    Yields (inodeDestroy i (s.inode i)) s fun more t => t.Inv (owed more ++ h) (owedLinks more ++ k) ∧
      Released A s t ∧ t.size + more.length = s.size ∧ ∀ j ∈ owed more, A j := by
  have hre := hs.refs i hi hf
  have hdev : (s.inode i).fops ≠ .device := fun hd => by
    have hmem : i ∈ s.outer := by simp [outer, hs.device i hi hd]
    have := holders_pos_of_outer hmem
    omega
  have hrun : inodeDestroy i (s.inode i) s =
      .ok ((s.inode i).dues, s.setInode i { s.inode i with fifo := none, children := [], freed := true }) := by
    unfold inodeDestroy
    rw [ensure_bind, if_pos hdev, modify_bind, pure_run]
  refine ⟨_, _, hrun, ?_, released_setInode hA ⟨rfl, rfl, rfl, .inr ⟨rfl, rfl, rfl⟩⟩, ?_, ?_⟩
  · rw [owed_dues, owedLinks_dues]
    exact hs.destroy hi hf hr
  · have hsi := tally_update (g := s.inode) (fun x => x.held.length) hi
      { s.inode i with fifo := none, children := [], freed := true }
    have hlen : (s.inode i).dues.length = (s.inode i).held.length := by rw [← owed_dues, owed, length_map]
    rw [hlen]
    exact hsi
  · rw [owed_dues]
    exact hc i hi hA

theorem dropOne_yields (entry : Bool) (hs : s.Inv (i :: h) (owedLinks [(i, entry)] ++ k)) (hA : A i)
    (hc : s.Closed A) :
    Yields (dropOne i entry) s fun more t => t.Inv (owed more ++ h) (owedLinks more ++ k) ∧ Released A s t ∧
      t.size + more.length = s.size ∧ ∀ j ∈ owed more, A j := by
  refine .bind (dropLink_yields entry hs hA) fun _ t ⟨ht, hrel, _, hsi⟩ => ?_
  obtain ⟨hi, hf⟩ := ht.live_of_mem (.head _)
  rw [Yields, useInode_bind hf, get_bind, ensure_bind, if_pos ht.refCount_pos, modify_bind]
  have hrel' : Released A s (t.setRef i (t.refCount i - 1)) := hrel.trans (released_setRef i _)
  by_cases hz : t.refCount i - 1 = 0 ∧ (t.inode i).numLinks = 0
  · rw [if_pos hz]
    refine (inodeDestroy_yields (i := i) ht.unref hi hf ((setRef_self _).trans hz.1) hA (hrel'.closed hc)).mono
      fun more u ⟨hu, hr, hsz, hm⟩ => ⟨hu, hrel'.trans hr, hsz.trans hsi, hm⟩
  · rw [if_neg hz, pure_run]
    exact ⟨[], _, rfl, ht.unref, hrel', hsi, nofun⟩

theorem release_yields {n : Nat} {l : List (Nat × Bool)} (hs : s.Inv (owed l ++ h) (owedLinks l ++ k))
    (hn : s.size + l.length ≤ n) (hA : ∀ j ∈ owed l, A j) (hc : s.Closed A) :
    Yields (release n l) s fun _ t => t.Inv h k ∧ Released A s t := by
  induction n generalizing s l with
  | zero =>
    obtain rfl : l = [] := length_eq_zero_iff.mp (by omega)
    exact .pure ⟨hs, .refl s⟩
  | succ n ih =>
    cases l with
    | nil => exact .pure ⟨hs, .refl s⟩
    | cons p rest =>
      obtain ⟨i, entry⟩ := p
      have hsp : owedLinks ((i, entry) :: rest) ++ k = owedLinks [(i, entry)] ++ (owedLinks rest ++ k) := by
        cases entry <;> rfl
      rw [hsp] at hs
      refine .bind (dropOne_yields (h := owed rest ++ h) entry hs (hA i (.head _)) hc)
        fun more t ⟨ht, hrel, hsz, hm⟩ => ?_
      refine (ih (l := more ++ rest) ?_ ?_ ?_ (hrel.closed hc)).mono fun _ u ⟨hu, hr⟩ => ⟨hu, hrel.trans hr⟩
      · simpa [owed, owedLinks] using ht
      · simp only [length_cons, length_append] at hn ⊢
        omega
      · intro j hj
        rw [owed, map_append, mem_append] at hj
        rcases hj with hj | hj
        · exact hm j hj
        · exact hA j (.tail _ hj)

theorem inodeUnref_yields (hs : s.Inv (i :: h) k) (hA : A i) (hc : s.Closed A) :
    Yields (inodeUnref i) s fun _ t => t.Inv h k ∧ Released A s t := by
  have := release_yields (l := [(i, false)]) (n := s.size + 1) (h := h) (k := k) hs le_rfl
    (by intro j hj; rw [mem_singleton.mp hj]; exact hA) hc
  exact this

theorem inodeUnref_run (hs : s.Inv (i :: h) k) (hhe : 0 < s.holders i + h.count i + s.lost i) :
    inodeUnref i s = .ok ((), s.setRef i (s.refCount i - 1)) := by
  obtain ⟨hi, hf⟩ := hs.live_of_mem (.head _)
  have hre := hs.refs i hi hf
  rw [count_cons_self] at hre
  have hone : dropOne i false s = .ok ([], s.setRef i (s.refCount i - 1)) := by
    unfold dropOne
    simp only [dropLink]
    rw [bind_run (pure_run ()), useInode_bind hf, get_bind, ensure_bind, if_pos hs.refCount_pos, modify_bind,
      if_neg (by omega), pure_run]
  unfold inodeUnref
  rw [release, bind_run hone]
  cases s.size <;> exact pure_run ()

end

/-! ## References with other owners -/

section
variable {A : Nat → Prop} {s t : Vfs} {h k : List Nat} {i : Nat}

theorem Released.outer_eq (h : Released A s t) : t.outer = s.outer := by rw [h.same]; rfl

theorem Released.holders_eq (h : Released A s t) (hc : s.Closed A) (hi : ¬ A i) : t.holders i = s.holders i := by
  unfold holders
  rw [h.outer_eq, h.numInodes]
  congr 1
  refine Finset.sum_congr rfl fun j hj => ?_
  by_cases hA : A j
  · have hnn : i ∉ (s.inode j).held := fun hm => hi (hc j (Finset.mem_range.mp hj) hA i hm)
    have hnn' : i ∉ (t.inode j).held := fun hm => hnn ((h.fades j).mem_held hm)
    exact (count_eq_zero.mpr hnn').trans (count_eq_zero.mpr hnn).symm
  · rw [h.other j hA]

def Safe (s : Vfs) (A : Nat → Prop) (h : List Nat) (i : Nat) : Prop := A i ∨ 0 < s.holders i + h.count i

theorem inodeUnref_frame (hs : s.Inv (i :: h) k) (hi : s.Safe A h i) (hc : s.Closed A) :
    Yields (inodeUnref i) s fun _ t => t.Inv h k ∧ Released A s t := by
  rcases hi with hA | hpos
  · exact inodeUnref_yields hs hA hc
  · exact ⟨(), _, inodeUnref_run hs (by omega), hs.unref, released_setRef i _⟩

theorem inodeUnrefOpt_frame {o : Option Nat} (hs : s.Inv (o.toList ++ h) k) (hi : ∀ i ∈ o, s.Safe A h i)
    (hc : s.Closed A) : Yields (inodeUnrefOpt o) s fun _ t => t.Inv h k ∧ Released A s t := by
  cases o with
  | none => exact .pure ⟨hs, .refl s⟩
  | some i => exact inodeUnref_frame hs (hi i rfl) hc

theorem Safe.append {g : List Nat} (hi : s.Safe A h i) : s.Safe A (g ++ h) i :=
  hi.imp id fun hpos => by
    rw [count_append]
    omega

theorem Released.safe (hr : Released A s t) (hc : s.Closed A) (hi : s.Safe A h i) : t.Safe A h i := by
  by_cases hA : A i
  · exact .inl hA
  · refine hi.imp id fun hpos => ?_
    rwa [hr.holders_eq hc hA]

theorem Path.inodes_cons (top : Nat) (n : Str × Option Nat) (ns : List (Str × Option Nat)) :
    Path.inodes ⟨top, n :: ns⟩ = n.2.toList ++ Path.inodes ⟨top, ns⟩ := by
  obtain ⟨name, o⟩ := n
  cases o <;> rfl

theorem pathDestroyNodes_frame {top : Nat} {ns : List (Str × Option Nat)}
    (hs : s.Inv (Path.inodes ⟨top, ns⟩ ++ h) k) (hsa : ∀ i ∈ Path.inodes ⟨top, ns⟩, s.Safe A h i) (hc : s.Closed A) :
    Yields (pathDestroyNodes top ns) s fun _ t => t.Inv h k ∧ Released A s t := by
  induction ns generalizing s with
  | nil => exact inodeUnref_frame hs (hsa top (mem_singleton_self _)) hc
  | cons n ns ih =>
    rw [Path.inodes_cons] at hs hsa
    rw [append_assoc] at hs
    refine .bind (inodeUnrefOpt_frame hs (fun i hi => ?_) hc) fun _ t ⟨ht, hrel⟩ => ?_
    · exact (hsa i (mem_append_left _ (Option.mem_toList.mpr hi))).append
    · refine (ih ht (fun j hj => ?_) (hrel.closed hc)).mono fun _ u ⟨hu, hr⟩ => ⟨hu, hrel.trans hr⟩
      exact hrel.safe hc (hsa j (mem_append_right _ hj))

end

/-! ## Dentries come and go -/

def attach (s : Vfs) (d : Nat) (name : Str) (c : Nat) : Vfs :=
  let t := s.setInode d { s.inode d with children := (s.inode d).children ++ [(name, c)] }
  t.setInode c { t.inode c with numLinks := (t.inode c).numLinks + 1 }

def detach (s : Vfs) (d : Nat) (name : Str) (c : Nat) : Vfs :=
  let t := s.setInode d { s.inode d with children := (s.inode d).children.eraseP (·.1 == name) }
  t.setInode c { t.inode c with numLinks := (t.inode c).numLinks - 1 }

section
variable {s : Vfs} {h k : List Nat} {d c j : Nat} {name : Str}

theorem attach_proj {α : Type} (f : Inode → α) (hl : ∀ x n, f { x with numLinks := n } = f x)
    (hc : ∀ x l, f { x with children := l } = f x) : f ((s.attach d name c).inode j) = f (s.inode j) := by
  unfold attach
  rw [setInode_proj f (hl _ _), setInode_proj f (hc _ _)]

theorem attach_fops : ((s.attach d name c).inode j).fops = (s.inode j).fops :=
  attach_proj fops (fun _ _ => rfl) fun _ _ => rfl

theorem attach_type : ((s.attach d name c).inode j).type = (s.inode j).type :=
  attach_proj type (fun _ _ => rfl) fun _ _ => rfl

theorem attach_freed : ((s.attach d name c).inode j).freed = (s.inode j).freed :=
  attach_proj freed (fun _ _ => rfl) fun _ _ => rfl

theorem attach_children : ((s.attach d name c).inode j).children =
    if j = d then (s.inode j).children ++ [(name, c)] else (s.inode j).children := by
  unfold attach
  rw [setInode_proj children (by rfl)]
  split
  · rename_i hjd
    subst hjd
    rw [setInode_self]
  · rename_i hjd
    rw [setInode_other hjd]

theorem detach_proj {α : Type} (f : Inode → α) (hl : ∀ x n, f { x with numLinks := n } = f x)
    (hc : ∀ x l, f { x with children := l } = f x) : f ((s.detach d name c).inode j) = f (s.inode j) := by
  unfold detach
  rw [setInode_proj f (hl _ _), setInode_proj f (hc _ _)]

theorem detach_fops : ((s.detach d name c).inode j).fops = (s.inode j).fops :=
  detach_proj fops (fun _ _ => rfl) fun _ _ => rfl

theorem detach_dev : ((s.detach d name c).inode j).dev = (s.inode j).dev :=
  detach_proj dev (fun _ _ => rfl) fun _ _ => rfl

theorem detach_freed : ((s.detach d name c).inode j).freed = (s.inode j).freed :=
  detach_proj freed (fun _ _ => rfl) fun _ _ => rfl

theorem detach_children : ((s.detach d name c).inode j).children =
    if j = d then (s.inode j).children.eraseP (·.1 == name) else (s.inode j).children := by
  unfold detach
  rw [setInode_proj children (by rfl)]
  split
  · rename_i hjd
    subst hjd
    rw [setInode_self]
  · rename_i hjd
    rw [setInode_other hjd]

theorem attach_eq : s.attach d name c =
    (s.setInode c { s.inode c with numLinks := (s.inode c).numLinks + 1 }).setInode d
      { (s.setInode c { s.inode c with numLinks := (s.inode c).numLinks + 1 }).inode d with
        children := (s.inode d).children ++ [(name, c)] } := by
  by_cases hcd : c = d
  · subst hcd
    simp [attach, setInode]
  · simp [attach, setInode, update_of_ne hcd, update_of_ne (Ne.symm hcd), update_comm (Ne.symm hcd)]

theorem Inv.addLink (hs : s.Inv h k) (hc : c < s.numInodes) :
    (s.setInode c { s.inode c with numLinks := (s.inode c).numLinks + 1 }).Inv h (c :: k) := by
  refine hs.setInode hc rfl ((hs.ok c hc).withLinks _) rfl (fun j => rfl) fun j => ?_
  by_cases hj : j = c
  · subst hj
    rw [if_pos rfl, if_pos rfl, count_cons_self]
    dsimp only
    omega
  · rw [if_neg hj, if_neg hj, count_cons_of_ne (Ne.symm hj)]

theorem Inv.attach (hs : s.Inv (c :: h) k) (hd : d < s.numInodes) (hn : (s.inode d).children.lookup name = none) :
    (s.attach d name c).Inv h k := by
  have hc := (hs.live_of_mem (.head _)).1
  have hs' := hs.addLink hc
  have hsa : ∀ g : Inode → List (Str × Nat), (∀ x n, g { x with numLinks := n } = g x) →
      g ((s.setInode c { s.inode c with numLinks := (s.inode c).numLinks + 1 }).inode d) = g (s.inode d) := by
    intro g hg
    by_cases hdc : d = c
    · subst hdc
      rw [setInode_self, hg]
    · rw [setInode_other hdc]
  rw [attach_eq]
  generalize hu : s.setInode c { s.inode c with numLinks := (s.inode c).numLinks + 1 } = u at hs' hsa
  have hch : (u.inode d).children = (s.inode d).children := hsa children fun _ _ => rfl
  have hok : (u.inode d).Ok := hs'.ok d (by subst hu; exact hd)
  rw [← hch]
  refine hs'.setInode (by subst hu; exact hd) rfl ?_ rfl (fun j => ?_) fun j => ?_
  · exact hok.append (hch ▸ hn)
  · simp only [held, map_append, count_append, count_cons, map_cons, map_nil,
      count_nil]
    omega
  · simp only [map_append, count_append, count_cons, map_cons, map_nil, count_nil]
    omega

theorem Inv.detach (hs : s.Inv h k) (hd : d < s.numInodes) (hc : (s.inode d).children.lookup name = some c) :
    0 < ((s.setInode d { s.inode d with children := (s.inode d).children.eraseP (·.1 == name) }).inode c).numLinks ∧
      (s.detach d name c).Inv (c :: h) k := by
  have hpe := lookup_perm_eraseP hc
  have hco : ∀ j, ((s.inode d).children.map snd).count j =
      (((s.inode d).children.eraseP (·.1 == name)).map snd).count j + [c].count j := by
    intro j
    rw [(hpe.map snd).count_eq j, map_cons, count_cons, count_cons, count_nil, zero_add]
  have hs' : (s.setInode d { s.inode d with children := (s.inode d).children.eraseP (·.1 == name) }).Inv
      (c :: h) (c :: k) := by
    refine hs.setInode hd rfl ((hs.ok d hd).erase _) rfl (fun j => ?_) fun j => ?_
    · have := hco j
      rw [count_cons, count_nil] at this
      simp only [held, count_append, count_cons]
      omega
    · have := hco j
      rw [count_cons, count_nil] at this
      simp only [count_cons]
      omega
  obtain ⟨hlt, hfr⟩ := hs'.live_of_mem (.head _)
  exact hs'.dropLink hlt hfr

end

/-! ## New inodes and owners outside -/

def grow (s : Vfs) (x : Inode) : Vfs :=
  { (s.setInode s.numInodes x).setRef s.numInodes 1 with numInodes := s.numInodes + 1 }

theorem newInode_run (s : Vfs) (x : Inode) : newInode x s = .ok (s.numInodes, s.grow x) := rfl

section
variable {s t : Vfs} {h h' k : List Nat} {x : Inode}

@[simp] theorem grow_self : (s.grow x).inode s.numInodes = x := update_self _ _ _

theorem grow_other {i : Nat} (hi : i ≠ s.numInodes) : (s.grow x).inode i = s.inode i := update_of_ne hi _ _

theorem tally_grow (f : Inode → Nat) : tally (s.grow x).numInodes (s.grow x).inode f = tally s.numInodes s.inode f + f x := by
  change tally (s.numInodes + 1) (update s.inode s.numInodes x) f = _
  rw [tally_succ, tally_update_ge f le_rfl, update_self]

theorem Inv.grow (hs : s.Inv h []) (hok : x.Ok) (hfr : x.freed = false) (hdev : x.fops ≠ .device)
    (hhe : x.held = []) (hli : x.numLinks = 0) : (s.grow x).Inv (s.numInodes :: h) [] := by
  have hho : (s.grow x).holders = s.holders := by
    funext j
    unfold holders
    rw [tally_grow, hhe, count_nil, add_zero]
    rfl
  have hen : (s.grow x).entries = s.entries := by
    funext j
    unfold entries
    have hnil : x.children = [] := by
      have := (append_eq_nil_iff.mp hhe).2
      exact map_eq_nil_iff.mp this
    rw [tally_grow, hnil, map_nil, count_nil, add_zero]
  have hnn : s.holders s.numInodes + h.count s.numInodes = 0 := by
    by_contra hpos
    have := (hs.live s.numInodes (by omega)).1
    omega
  have hold : ∀ {j}, j < (s.grow x).numInodes → j ≠ s.numInodes → j < s.numInodes := by
    intro j hj hne
    have hj : j < s.numInodes + 1 := hj
    omega
  refine ⟨fun j hj hf => ?_, fun j hj => ?_, fun j hj hf => ?_, fun j hj => ?_, fun j hj hd => ?_,
    hs.mounts, fun j hj => ?_⟩
  · rw [hho]
    by_cases hjn : j = s.numInodes
    · subst hjn
      rw [count_cons_self]
      have := hs.fresh s.numInodes le_rfl
      have href : (s.grow x).refCount s.numInodes = 1 := update_self _ _ _
      have hlo : (s.grow x).lost s.numInodes = s.lost s.numInodes := rfl
      omega
    · rw [count_cons_of_ne (Ne.symm hjn)]
      rw [grow_other hjn] at hf
      have := hs.refs j (hold hj hjn) hf
      have href : (s.grow x).refCount j = s.refCount j := update_of_ne hjn _ _
      have hlo : (s.grow x).lost j = s.lost j := rfl
      omega
  · rw [hho] at hj
    by_cases hjn : j = s.numInodes
    · subst hjn
      rw [grow_self]
      exact ⟨lt_succ_self _, hfr⟩
    · rw [count_cons_of_ne (Ne.symm hjn)] at hj
      rw [grow_other hjn]
      have := hs.live j hj
      exact ⟨lt_succ_of_lt this.1, this.2⟩
  · rw [hen]
    by_cases hjn : j = s.numInodes
    · subst hjn
      have := entries_le_holders s s.numInodes
      rw [grow_self, hli, count_nil]
      omega
    · rw [grow_other hjn] at hf ⊢
      exact hs.links j (hold hj hjn) hf
  · by_cases hjn : j = s.numInodes
    · subst hjn
      rwa [grow_self]
    · rw [grow_other hjn]
      exact hs.ok j (hold hj hjn)
  · by_cases hjn : j = s.numInodes
    · subst hjn
      rw [grow_self] at hd
      exact absurd hd hdev
    · rw [grow_other hjn] at hd
      exact hs.device j (hold hj hjn) hd
  · exact hs.fresh j (by have : s.numInodes + 1 ≤ j := hj; omega)

theorem Inv.pass (hs : s.Inv h k) (hin : t.inode = s.inode) (hnum : t.numInodes = s.numInodes)
    (href : t.refCount = s.refCount) (hlo : t.lost = s.lost) (hdev : t.devices = s.devices)
    (hmo : ∀ m ∈ t.mounts, m.1 < m.2)
    (hc : ∀ j, t.outer.count j + h'.count j = s.outer.count j + h.count j) : t.Inv h' k := by
  have hho : ∀ j, t.holders j + h'.count j = s.holders j + h.count j := by
    intro j
    have := hc j
    unfold holders
    rw [hin, hnum]
    omega
  have hen : t.entries = s.entries := by
    funext j
    unfold entries
    rw [hin, hnum]
  refine ⟨fun j hj hf => ?_, fun j hj => ?_, fun j hj hf => ?_, fun j hj => ?_, fun j hj hd => ?_,
    hmo, fun j hj => ?_⟩
  · rw [hin] at hf
    rw [hnum] at hj
    rw [href, hlo, hho, hs.refs j hj hf]
  · rw [hin, hnum]
    exact hs.live j (hho j ▸ hj)
  · rw [hin] at hf ⊢
    rw [hnum] at hj
    rw [hen]
    exact hs.links j hj hf
  · rw [hin]
    exact hs.ok j (hnum ▸ hj)
  · rw [hin] at hd
    rw [hdev]
    exact hs.device j (hnum ▸ hj) hd
  · rw [hlo]
    exact hs.fresh j (hnum ▸ hj)

end

end Vfs

end Yagura
