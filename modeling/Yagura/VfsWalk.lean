import Yagura.VfsResolve

/-!
# Resolution as a walk

In a name space without procfs, resolution is a walk through directories,
mounts and symlinks, with references and memory on the side. `walk` is the walk
alone. Resolution ends where the walk does, unless an allocation fails.
-/

namespace Yagura

open List

def Path.last (p : Path) : Nat := p.inode.getD p.top

namespace Vfs

open Prog

open Getdents (FileType)

/-! ## The walk -/

def Tmpfs (s : Vfs) : Prop :=
  ∀ i < s.numInodes, (s.inode i).fops ≠ .procRoot ∧ (s.inode i).fops ≠ .procDir ∧ (s.inode i).fops ≠ .procItem

/-- What is seen where an inode is: the last file system mounted there. -/
def landing (s : Vfs) (c : Nat) : Nat := (s.mountTop (s.numInodes + 1) c).getD c

def child (s : Vfs) (d : Nat) (name : Str) : Except Errno Nat :=
  if (s.inode d).fops.isDir then
    match (s.inode d).children.lookup name with
    | none => .error .ENOENT
    | some c => .ok (s.landing c)
  else .error .ENOTDIR

def linkText (s : Vfs) (i : Nat) (rest : Str) : Str :=
  cstr ((s.inode i).content.take SYMLINK_MAX ++ PATH_SEPARATOR :: rest)

def walkMissing (flags : Nat) (p : Path) (t : Token) (e : Errno) : Except Errno Path :=
  if allowNoent flags ∧ e = .ENOENT ∧ t.hasMoreComponents = false then .ok ⟨p.top, (t.component, none) :: p.nodes⟩
  else .error e

abbrev Walker := Path → Str → Except Errno Path

def walkFound (s : Vfs) (follow : Option Walker) (flags : Nat) (p : Path) (t : Token) (i : Nat)
    (next : Path → Except Errno Path) : Except Errno Path :=
  if (s.inode i).type = .lnk then
    match follow with
    | none => .error .ELOOP
    | some walk =>
      if t.hasMoreComponents || !noFollow flags then walk p (s.linkText i t.restPathname)
      else if !noFollowNoError flags then .error .ELOOP
      else next ⟨p.top, (t.component, some i) :: p.nodes⟩
  else next ⟨p.top, (t.component, some i) :: p.nodes⟩

def walkTokens (s : Vfs) (follow : Option Walker) (flags : Nat) : List Token → Path → Except Errno Path
  | [], p => .ok p
  | t :: ts, p =>
    if t.component = dot then walkTokens s follow flags ts p
    else if t.component = dotdot then walkTokens s follow flags ts ⟨p.top, p.nodes.tail⟩
    else
      match s.child p.last t.component with
      | .error e => walkMissing flags p t e
      | .ok i => s.walkFound follow flags p t i (walkTokens s follow flags ts)

def walkFrom (s : Vfs) (follow : Option Walker) (flags : Nat) : Walker := fun base pathname =>
  s.walkTokens follow flags (tokens pathname) (if isAbsolutePath pathname then ⟨s.root, []⟩ else base)

def walk (s : Vfs) (flags : Nat) : (fuel : Nat) → Walker
  | 0 => s.walkFrom none flags
  | k + 1 => s.walkFrom (some (s.walk flags k)) flags

/-! ## References and memory -/

def Lack (s : Vfs) : Prop := ∃ n, s.mem n = false

/-- A resolution that started in `s` has come to `t`. If `T`, there is no procfs and, references apart, nothing has
changed. -/
structure Walking (T : Prop) (s : Vfs) (e : Edit) (h : List Nat) (t : Vfs) (l : List Nat) : Prop where
  held : Held s e h t l
  bare : T → s.Tmpfs ∧ e = .none
  size : T → t.numInodes = s.numInodes
  lack : T → Lack t → Lack s

/-- A resolution reads freed memory only when memory was short. -/
def Short (T : Prop) (s : Vfs) (trap : VfsTrap) : Prop := Uaf trap ∧ (T → Lack s)

section
variable {bad : VfsTrap → Prop} {T : Prop} {s t u : Vfs} {e : Edit} {h l l' : List Nat} {i : Nat} {p : Path}

theorem Walking.of_not (hT : ¬ T) (ht : Held s e h t l) : Walking T s e h t l :=
  ⟨ht, fun h => absurd h hT, fun h => absurd h hT, fun h => absurd h hT⟩

section
variable (ht : Walking T s e h t l)
include ht

theorem Walking.old (hT : T) (hi : i ∈ l) : i < s.numInodes :=
  ht.size hT ▸ (ht.held.live hi).1

theorem Walking.inode (hT : T) (hi : i ∈ l) : t.inode i = s.inode i := by
  rw [ht.held.grown.old i (ht.old hT hi), (ht.bare hT).2]
  rfl

theorem Walking.perm (hp : l'.Perm l) : Walking T s e h t l' :=
  ⟨ht.held.perm hp, ht.bare, ht.size, ht.lack⟩

theorem Walking.released {A : Nat → Prop} (hr : Released A t u) (hu : Held s e h u l') : Walking T s e h u l' := by
  refine ⟨hu, ht.bare, fun hT => hr.numInodes.trans (ht.size hT), fun hT hl => ht.lack hT ?_⟩
  rw [hr.same] at hl
  exact hl

theorem kmalloc_walks : Ends bad kmalloc t fun b u => Walking T s e h u l ∧ (b = false → T → Lack s) :=
  .of_ok rfl ⟨⟨ht.held.mem _, ht.bare, ht.size, fun hT ⟨n, hn⟩ => ht.lack hT ⟨n + 1, hn⟩⟩,
    fun hb hT => ht.lack hT ⟨0, hb⟩⟩

theorem allocBoth_walks : Ends bad allocBoth t fun b u => Walking T s e h u l ∧ (b = false → T → Lack s) := by
  refine .bind (kmalloc_walks ht) fun b u hu => ?_
  cases b with
  | false => exact .pure hu
  | true => exact kmalloc_walks hu.1

theorem inodeRef_walks (hi : Known s h t i) : Ends bad (inodeRef i) t fun _ u => Walking T s e h u (i :: l) :=
  .of_ok (inodeRef_run hi.1.2) ⟨ht.held.ref hi, ht.bare, ht.size, ht.lack⟩

end

theorem inodeUnref_walks (ht : Walking T s e h t (i :: l)) :
    Ends bad (inodeUnref i) t fun _ u => Walking T s e h u l :=
  (inodeUnref_ends ht.held).mono fun _ _ hu => ht.released hu.2 hu.1

theorem inodeUnrefOpt_walks {o : Option Nat} (ht : Walking T s e h t (o.toList ++ l)) :
    Ends bad (inodeUnrefOpt o) t fun _ u => Walking T s e h u l :=
  (inodeUnrefOpt_ends ht.held).mono fun _ _ hu => ht.released hu.2 hu.1

theorem pathDestroyRecursive_walks (ht : Walking T s e h t (p.inodes ++ l)) :
    Ends bad (pathDestroyRecursive p) t fun _ u => Walking T s e h u l :=
  (pathDestroyRecursive_ends ht.held).mono fun _ _ hu => ht.released hu.2 hu.1

def Fetched (T : Prop) (s : Vfs) (e : Edit) (h l l' : List Nat) (p : Path) (r : Except Errno Path) (u : Vfs) : Prop :=
  match r with
  | .ok q => q = p ∧ Walking T s e h u l'
  | .error rc => Walking T s e h u l ∧ (T → rc = .ENOMEM ∧ Lack s)

theorem pathDupNodes_walks {top : Nat} {ns : List (Str × Option Nat)} (ht : Walking T s e h t l)
    (hfull : Path.Full ⟨top, ns⟩) (hown : ∀ i ∈ Path.inodes ⟨top, ns⟩, Owned s h l i) :
    Ends (Short T s) (pathDupNodes top ns) t (Fetched T s e h l (Path.inodes ⟨top, ns⟩ ++ l) ⟨top, ns⟩) := by
  induction ns generalizing t with
  | nil =>
    refine .bind (kmalloc_walks ht) fun b u ⟨hu, hb⟩ => ?_
    cases b with
    | false => exact .pure ⟨hu, fun hT => ⟨rfl, hb rfl hT⟩⟩
    | true =>
      have hkn := hu.held.known (hown top (mem_singleton_self _))
      exact .bind (inodeRef_walks hu hkn) fun _ v hv => .pure ⟨rfl, hv⟩
  | cons n ns ih =>
    obtain ⟨name, o⟩ := n
    obtain ⟨i, rfl⟩ := Option.isSome_iff_exists.mp (hfull _ (.head _)).2
    rw [Path.inodes_cons] at hown
    refine .bind (allocBoth_walks ht) fun b u ⟨hu, hb⟩ => ?_
    cases b with
    | false => exact .pure ⟨hu, fun hT => ⟨rfl, hb rfl hT⟩⟩
    | true =>
      refine .bind (ih hu (fun m hm => hfull m (.tail _ hm))
        fun j hj => hown j (mem_append_right _ hj)) fun r v hv => ?_
      cases r with
      | error rc => exact .trap ⟨rfl, fun hT => (hv.2 hT).2⟩
      | ok p =>
        obtain ⟨rfl, hv⟩ := hv
        have hi : Owned s h l i := hown i (.head _)
        refine .bind (inodeRef_walks hv (hv.held.known (hi.imp (mem_append_right _) id))) fun _ x hx => ?_
        exact .pure ⟨rfl, hx⟩

theorem pathJoin_walks {o : Option Nat} {name : Str} (ht : Walking T s e h t (o.toList ++ l)) :
    Ends bad (pathJoin p o name) t (Fetched T s e h l (o.toList ++ l) ⟨p.top, (name, o) :: p.nodes⟩) := by
  refine .bind (allocBoth_walks ht) fun b u ⟨hu, hb⟩ => ?_
  cases b with
  | false => exact .bind (inodeUnrefOpt_walks hu) fun _ v hv => .pure ⟨hv, fun hT => ⟨rfl, hb rfl hT⟩⟩
  | true => exact .pure ⟨rfl, hu⟩

theorem vfsGetRoot_walks (ht : Walking T s e h t l) :
    Ends bad vfsGetRoot t (Fetched T s e h l (s.root :: l) ⟨s.root, []⟩) := by
  refine .bind (kmalloc_walks ht) fun b u ⟨hu, hb⟩ => ?_
  cases b with
  | false => exact .pure ⟨hu, fun hT => ⟨rfl, hb rfl hT⟩⟩
  | true =>
    refine .get ?_
    have hro : u.root = s.root := congrArg Outside.root hu.held.grown.outside
    rw [hro]
    have hkn : Known s h u s.root := hu.held.known (.inr (by have := root_owned (s := s); omega))
    exact .bind (inodeRef_walks hu hkn) fun _ v hv => .pure ⟨rfl, hv⟩

def startOf (s : Vfs) (base : Path) (pathname : Str) : Path := if isAbsolutePath pathname then ⟨s.root, []⟩ else base

theorem startPath_walks {base : Path} {pathname : Str} (ht : Walking T s e h t l) (hba : base.Full)
    (hown : ∀ i ∈ base.inodes, Owned s h l i) :
    Ends (Short T s) (startPath base pathname) t
      (Fetched T s e h l ((s.startOf base pathname).inodes ++ l) (s.startOf base pathname)) := by
  unfold startPath startOf
  split
  · exact vfsGetRoot_walks ht
  · exact pathDupNodes_walks ht hba hown

end

/-! ## Resolution follows the walk -/

def Resolved (s : Vfs) (e : Edit) (h : List Nat) (flags : Nat) (l : List Nat) (r : Except Errno Path) (u : Vfs) : Prop :=
  match r with
  | .ok p => Held s e h u (p.inodes ++ l) ∧ p.Partial ∧ (allowNoent flags = false → p.Full)
  | .error _ => Held s e h u l

/-- The result of a resolution. If `T`, it is what the walk comes to, unless memory is short. -/
structure Walked (T : Prop) (s : Vfs) (e : Edit) (h : List Nat) (flags : Nat) (l : List Nat)
    (w r : Except Errno Path) (u : Vfs) : Prop where
  resolved : Resolved s e h flags l r u
  size : T → u.numInodes = s.numInodes
  lack : T → Lack u → Lack s
  result : T → r = w ∨ r = .error .ENOMEM ∧ Lack s

def Follows (T : Prop) (s : Vfs) (e : Edit) (h : List Nat) (flags : Nat) (resolve : Resolver) (w : Walker) : Prop :=
  ∀ t l base pathname, Walking T s e h t l → base.Full → (∀ i ∈ base.inodes, Owned s h l i) →
    Ends (Short T s) (resolve base pathname) t (Walked T s e h flags l (w base pathname))

section
variable {bad : VfsTrap → Prop} {T : Prop} {s t u : Vfs} {e : Edit} {h l : List Nat} {i d : Nat} {p : Path} {flags : Nat}
  {tok : Token} {w w' r : Except Errno Path}
  {rc : Errno} {follow : Option Resolver} {next : Path → Op (Except Errno Path)}

theorem mountTop_congr {k : Nat} (hm : t.mounts = s.mounts) : t.mountTop k i = s.mountTop k i := by
  induction k generalizing i with
  | zero => rfl
  | succ k ih =>
    rw [mountTop, mountTop]
    unfold mountGuest
    rw [hm]
    cases s.mounts.lookup i with
    | none => rfl
    | some g => exact ih

theorem Inv.mountTop_some (hs : s.Inv h []) (hi : i < s.numInodes) : s.mountTop (s.numInodes + 1) i = some (s.landing i) := by
  have hm : ∀ m ∈ s.mounts, m.1 < m.2 ∧ m.2 < s.numInodes := fun m hm =>
    ⟨hs.mounts m hm, (hs.live _ (by have := (mount_owned hm).2; omega)).1⟩
  obtain ⟨j, hj⟩ := Vfs.mountTop_some hm hi (k := s.numInodes + 1) (by omega)
  unfold landing
  rw [hj]
  rfl

def Looked (T : Prop) (s : Vfs) (e : Edit) (h l : List Nat) (w r : Except Errno Nat) (u : Vfs) : Prop :=
  match r with
  | .ok c => Walking T s e h u (c :: l) ∧ (T → w = .ok (s.landing c))
  | .error rc => Walking T s e h u l ∧ (T → w = .error rc)

theorem inodeLookupChild_walks {name : Str} (ht : Walking T s e h t (d :: l)) :
    Ends bad (inodeLookupChild d name) t (Looked T s e h l (s.child d name)) := by
  by_cases hT : T
  · have hli := ht.held.live (.head _)
    have hsa : t.inode d = s.inode d := ht.inode hT (.head _)
    obtain ⟨hro, hpr, hit⟩ := (ht.bare hT).1 d (ht.old hT (.head _))
    unfold inodeLookupChild child
    refine useInode_ends hli.2 ?_
    rw [hsa]
    cases hf : (s.inode d).fops with
    | tmpfsDir =>
      refine useInode_ends hli.2 ?_
      unfold dentryFind
      rw [hsa]
      cases hl : (s.inode d).children.lookup name with
      | none =>
        refine .bind (P := fun r u => r = .error Errno.ENOENT ∧ u = t) (.pure ⟨rfl, rfl⟩) ?_
        rintro _ _ ⟨rfl, rfl⟩
        exact .bind (inodeUnref_walks ht) fun _ v hv => .pure ⟨hv, fun _ => rfl⟩
      | some c =>
        have hkn : Known s h t c := ht.held.known_of_held hli.1 (mem_held_of_lookup (hsa ▸ hl))
        refine .bind (P := fun r u => r = .ok c ∧ Walking T s e h u (c :: d :: l)) ?_ ?_
        · exact .bind (inodeRef_walks ht hkn) fun _ u hu => .pure ⟨rfl, hu⟩
        · rintro _ u ⟨rfl, hu⟩
          exact .bind (inodeUnref_walks (hu.perm (List.Perm.swap _ _ _))) fun _ v hv => .pure ⟨hv, fun _ => rfl⟩
    | procRoot => exact absurd hf hro
    | procDir => exact absurd hf hpr
    | procItem => exact absurd hf hit
    | tmpfsNode | fifo | device => exact .bind (inodeUnref_walks ht) fun _ u hu => .pure ⟨hu, fun _ => rfl⟩
  · refine (inodeLookupChild_ends ht.held).mono fun r u hu => ?_
    cases r with
    | error rc | ok c => exact ⟨.of_not hT hu, fun h => absurd h hT⟩

theorem resolveMounts_walks (ht : Walking T s e h t (i :: l)) :
    Ends bad (resolveMounts i) t fun j u => Walking T s e h u (j :: l) ∧ (T → j = s.landing i) := by
  by_cases hT : T
  · have htop : t.mountTop (t.numInodes + 1) i = some (s.landing i) := by
      rw [mountTop_congr ht.held.grown.mounts, ht.size hT]
      exact ht.held.start.mountTop_some (ht.old hT (.head _))
    refine .get ?_
    rw [htop]
    dsimp only
    by_cases hji : s.landing i = i
    · rw [if_neg (not_not_intro hji)]
      exact .pure ⟨ht, fun _ => hji.symm⟩
    · rw [if_pos hji]
      obtain ⟨m, hm, hm2⟩ := (mountTop_mem htop).resolve_left hji
      rw [ht.held.grown.mounts] at hm
      have hkn : Known s h t (s.landing i) :=
        ht.held.known (.inr (by have := (mount_owned hm).2; rw [hm2] at this; omega))
      refine .bind (inodeRef_walks ht hkn) fun _ u hu => ?_
      have hu := hu.perm (List.Perm.swap _ _ _)
      exact .bind (.modify ⟨hu.held.lose, hu.bare, hu.size, hu.lack⟩) fun _ v hv => .pure ⟨hv, fun _ => rfl⟩
  · exact (resolveMounts_ends ht.held).mono fun j u hu => ⟨.of_not hT hu, fun h => absurd h hT⟩

theorem Walked.congr (hr : Walked T s e h flags l w r u) (hw : T → w = w') : Walked T s e h flags l w' r u :=
  ⟨hr.resolved, hr.size, hr.lack, fun hT => hw hT ▸ hr.result hT⟩

theorem Walking.error (hu : Walking T s e h u l) (hw : T → .error rc = w ∨ rc = .ENOMEM ∧ Lack s) :
    Walked T s e h flags l w (.error rc) u :=
  ⟨hu.held, hu.size, hu.lack, fun hT => (hw hT).imp id fun hno => ⟨by rw [hno.1], hno.2⟩⟩

theorem failPath_walks (ht : Walking T s e h t (p.inodes ++ l)) (hw : T → .error rc = w ∨ rc = .ENOMEM ∧ Lack s) :
    Ends bad (failPath p rc) t (Walked T s e h flags l w) :=
  .bind (pathDestroyRecursive_walks ht) fun _ _ hu => .pure (hu.error hw)

theorem failBoth_walks (ht : Walking T s e h t (i :: (p.inodes ++ l))) (hw : .error rc = w) :
    Ends bad (failBoth i p rc) t (Walked T s e h flags l w) :=
  .bind (inodeUnref_walks ht) fun _ _ hu => failPath_walks hu fun _ => .inl hw

theorem link_fops (ht : Walking T s e h t (i :: l)) (hT : T) (hlnk : (t.inode i).type = .lnk) :
    (t.inode i).fops = .tmpfsNode := by
  have hi : i < s.numInodes := ht.old hT (.head _)
  rw [ht.inode hT (.head _)] at hlnk ⊢
  exact ((ht.held.start.ok i hi).link hlnk).resolve_right ((ht.bare hT).1 i hi).2.2

theorem inodeOpen_walks (ht : Walking T s e h t (i :: l)) (hlnk : (t.inode i).type = .lnk) :
    Ends bad (inodeOpen i O_RDONLY) t fun r u =>
      match r with
      | .ok j => j = i ∧ Walking T s e h u (i :: l)
      | .error rc => Walking T s e h u l ∧ (T → rc = .ENOMEM ∧ Lack s) := by
  by_cases hT : T
  · refine useInode_ends (ht.held.live (.head _)).2 ?_
    rw [hlnk, link_fops ht hT hlnk, if_neg (by decide), if_neg (by decide)]
    refine .bind (kmalloc_walks ht) fun b u ⟨hu, hb⟩ => ?_
    cases b with
    | false => exact .bind (inodeUnref_walks hu) fun _ v hv => .pure ⟨hv, fun hT => ⟨rfl, hb rfl hT⟩⟩
    | true => exact .bind (P := fun r v => r = none ∧ v = u) (.pure ⟨rfl, rfl⟩) (by rintro _ _ ⟨rfl, rfl⟩; exact .pure ⟨rfl, hu⟩)
  · refine (inodeOpen_same ht.held (by decide)).mono fun r u hu => ?_
    cases r with
    | error rc => exact ⟨.of_not hT hu.1, fun h => absurd h hT⟩
    | ok j => exact ⟨hu.1.1, .of_not hT hu.1.2⟩

theorem followSymlink_walks {resolve : Resolver} {w : Walker} {rest : Str} (hres : Follows T s e h flags resolve w)
    (ht : Walking T s e h t (i :: l)) (hlnk : (t.inode i).type = .lnk) (hp : p.Full)
    (hown : ∀ j ∈ p.inodes, Owned s h l j) :
    Ends (Short T s) (followSymlink resolve p i rest) t (Walked T s e h flags l (w p (s.linkText i rest))) := by
  refine useInode_ends (ht.held.live (.head _)).2 (.ensure_bind hlnk ?_)
  refine .bind (inodeOpen_walks ht hlnk) fun r u hu => ?_
  cases r with
  | error rc => exact .pure (hu.1.error fun hT => .inr (hu.2 hT))
  | ok file =>
    obtain ⟨rfl, hu⟩ := hu
    refine .bind (P := fun c v => v = u ∧ (T → c = .ok (s.inode file).content)) ?_ ?_
    · by_cases hT : T
      · have hsa := (hu.inode hT (.head _)).trans (ht.inode hT (.head _)).symm
        refine useInode_ends (hu.held.live (.head _)).2 ?_
        rw [hsa, link_fops ht hT hlnk]
        exact .pure ⟨rfl, fun hT => by rw [ht.inode hT (.head _)]⟩
      · exact (fileContent_ends (hu.held.live (.head _)).2).mono fun _ _ hv =>
          ⟨hv, fun h => absurd h hT⟩
    · rintro content _ ⟨rfl, hc⟩
      refine .bind (inodeUnref_walks hu) fun _ v hv => ?_
      cases content with
      | error rc => exact .pure (hv.error fun hT => nomatch hc hT)
      | ok text =>
        refine .bind (kmalloc_walks hv) fun b x ⟨hx, hb⟩ => ?_
        cases b with
        | false => exact .pure (hx.error fun hT => .inr ⟨rfl, hb rfl hT⟩)
        | true =>
          refine (hres _ _ _ _ hx hp hown).mono fun _ _ hr => hr.congr fun hT => ?_
          rw [Except.ok.inj (hc hT)]
          rfl

theorem stepMissing_walks (ht : Walking T s e h t (p.inodes ++ l)) (hp : p.Full) (hna : Plain tok.component) :
    Ends bad (stepMissing flags p tok rc) t (Walked T s e h flags l (walkMissing flags p tok rc)) := by
  unfold stepMissing walkMissing
  by_cases hal : allowNoent flags ∧ rc = .ENOENT
  · rw [if_pos hal]
    by_cases hmo : tok.hasMoreComponents = true
    · rw [if_pos hmo, if_neg (by rw [hmo]; nofun)]
      exact failPath_walks ht fun _ => .inl (by rw [hal.2])
    · have hmo : tok.hasMoreComponents = false := by simpa using hmo
      rw [if_neg (by rw [hmo]; nofun), if_pos ⟨hal.1, hal.2, hmo⟩]
      refine .bind (pathJoin_walks (o := none) ht) fun r u hu => ?_
      cases r with
      | error rc => exact failPath_walks hu.1 fun hT => .inr (hu.2 hT)
      | ok q =>
        obtain ⟨rfl, hu⟩ := hu
        refine .pure ⟨⟨hu.held, ⟨hna, hp⟩, fun hno => ?_⟩, hu.size, hu.lack, fun _ => .inl rfl⟩
        rw [hal.1] at hno
        cases hno
  · rw [if_neg hal, if_neg fun hall => hal ⟨hall.1, hall.2.1⟩]
    exact failPath_walks ht fun _ => .inl rfl

theorem stepJoin_walks {w : Path → Except Errno Path} (ht : Walking T s e h t (i :: (p.inodes ++ l))) (hp : p.Full)
    (hna : Plain tok.component)
    (hnx : ∀ q u, q.Full → Walking T s e h u (q.inodes ++ l) → Ends bad (next q) u (Walked T s e h flags l (w q))) :
    Ends bad (stepJoin p tok i next) t (Walked T s e h flags l (w ⟨p.top, (tok.component, some i) :: p.nodes⟩)) := by
  refine .bind (pathJoin_walks (o := some i) ht) fun r u hu => ?_
  cases r with
  | error rc => exact failPath_walks hu.1 fun hT => .inr (hu.2 hT)
  | ok q =>
    obtain ⟨rfl, hu⟩ := hu
    refine hnx _ u (fun n hn => ?_) hu
    rcases mem_cons.mp hn with rfl | hn
    · exact ⟨hna, rfl⟩
    · exact hp n hn

def FollowsOpt (T : Prop) (s : Vfs) (e : Edit) (h : List Nat) (flags : Nat) (follow : Option Resolver)
    (w : Option Walker) : Prop :=
  match follow, w with
  | none, none => True
  | some resolve, some w => Follows T s e h flags resolve w
  | _, _ => False

theorem stepFound_walks {w : Option Walker} {after : Path → Except Errno Path}
    (hres : FollowsOpt T s e h flags follow w) (ht : Walking T s e h t (i :: (p.inodes ++ l))) (hp : p.Full)
    (hna : Plain tok.component)
    (hnx : ∀ q u, q.Full → Walking T s e h u (q.inodes ++ l) →
      Ends (Short T s) (next q) u (Walked T s e h flags l (after q))) :
    Ends (Short T s) (stepFound follow flags p tok i next) t
      (Walked T s e h flags l (s.walkFound w flags p tok i after)) := by
  refine useInode_ends (ht.held.live (.head _)).2 ?_
  have hsa : T → s.inode i = t.inode i := fun hT => (ht.inode hT (.head _)).symm
  split
  · rename_i hlnk
    refine .mono (P := Walked T s e h flags l ?found) ?_ fun _ _ hr => hr.congr fun hT => ?same
    case same =>
      unfold walkFound
      rw [hsa hT, if_pos hlnk]
    match follow, w, hres with
    | none, none, _ => exact failBoth_walks ht rfl
    | some resolve, some w, hres =>
      dsimp only
      split
      · refine .bind (followSymlink_walks hres ht hlnk hp fun j hj => .inl (mem_append_left _ hj)) fun r u hu => ?_
        have walking : ∀ l, Held s e h u l → Walking T s e h u l := fun l hl => ⟨hl, ht.bare, hu.size, hu.lack⟩
        cases r with
        | error rc =>
          refine .bind (pathDestroyRecursive_walks (walking _ hu.resolved)) fun _ v hv => .pure ?_
          exact ⟨hv.held, hv.size, hv.lack, hu.result⟩
        | ok q =>
          obtain ⟨hq, hpart⟩ := hu.resolved
          have hq' : Held s e h u (p.inodes ++ (q.inodes ++ l)) := by
            refine hq.perm ?_
            rw [← append_assoc, ← append_assoc]
            exact perm_append_comm.append_right l
          refine .bind (pathDestroyRecursive_walks (walking _ hq')) fun _ v hv => .pure ?_
          exact ⟨⟨hv.held, hpart⟩, hv.size, hv.lack, hu.result⟩
      · split
        · exact failBoth_walks ht rfl
        · exact stepJoin_walks ht hp hna hnx
  · rename_i hlnk
    refine (stepJoin_walks ht hp hna hnx).mono fun _ _ hr => hr.congr fun hT => ?_
    unfold walkFound
    rw [hsa hT, if_neg hlnk]

theorem resolveTokens_walks {w : Option Walker} {ts : List Token} (hres : FollowsOpt T s e h flags follow w)
    (hts : ∀ tok ∈ ts, tok.component ≠ dot → tok.component ≠ dotdot → Plain tok.component)
    (ht : Walking T s e h t (p.inodes ++ l)) (hp : p.Full) :
    Ends (Short T s) (resolveTokens follow flags ts p) t (Walked T s e h flags l (s.walkTokens w flags ts p)) := by
  induction ts generalizing p t with
  | nil =>
    exact .pure ⟨⟨ht.held, hp.partial_, fun _ => hp⟩, ht.size, ht.lack, fun _ => .inl rfl⟩
  | cons tok ts ih =>
    have hts' := fun tok htok => hts tok (.tail _ htok)
    rw [resolveTokens, walkTokens]
    split
    · exact ih hts' ht hp
    · rename_i hdot
      split
      · obtain ⟨top, ns⟩ := p
        cases ns with
        | nil => exact ih hts' ht hp
        | cons n ns =>
          rw [Path.inodes_cons, append_assoc] at ht
          exact .bind (inodeUnrefOpt_walks ht) fun _ u hu => ih hts' hu fun m hm => hp m (.tail _ hm)
      · rename_i hdo
        have hna : Plain tok.component := hts tok (.head _) hdot hdo
        obtain ⟨d, hd, hmem⟩ := hp.inode
        have hla : p.last = d := by
          unfold Path.last
          rw [hd]
          rfl
        rw [hla]
        refine .run_bind (pathInode_run hd) ?_
        have hkn := ht.held.known (.inl (mem_append_left _ hmem))
        refine .bind (inodeRef_walks ht hkn) fun _ u hu => ?_
        refine .bind (inodeLookupChild_walks hu) fun r v hv => ?_
        cases r with
        | error rc =>
          exact (stepMissing_walks hv.1 hp hna).mono fun _ _ hr => hr.congr fun hT => by rw [hv.2 hT]
        | ok c =>
          refine .bind (resolveMounts_walks hv.1) fun j x hx => ?_
          refine (stepFound_walks hres hx.1 hp hna fun q u hq hu => ih hts' hu hq).mono fun _ _ hr =>
            hr.congr fun hT => ?_
          rw [hv.2 hT, hx.2 hT]

theorem resolveFrom_walks {w : Option Walker} (hres : FollowsOpt T s e h flags follow w) :
    Follows T s e h flags (resolveFrom follow flags) (s.walkFrom w flags) := by
  intro t l base pathname ht hba hown
  refine .bind (startPath_walks ht hba hown) fun r u hu => ?_
  cases r with
  | error rc => exact .pure (hu.1.error fun hT => .inr (hu.2 hT))
  | ok p =>
    obtain ⟨rfl, hu⟩ := hu
    refine .bind (kmalloc_walks hu) fun b v ⟨hv, hb⟩ => ?_
    cases b with
    | false => exact failPath_walks hv fun hT => .inr ⟨rfl, hb rfl hT⟩
    | true =>
      refine resolveTokens_walks hres (fun tok htok => tokens_plain htok) hv ?_
      unfold startOf
      split
      · exact nofun
      · exact hba

theorem resolvePathAt_walks (fuel : Nat) : Follows T s e h flags (resolvePathAt flags fuel) (s.walk flags fuel) := by
  induction fuel with
  | zero => exact resolveFrom_walks trivial
  | succ k ih => exact resolveFrom_walks ih

theorem vfsResolvePathAt_ends {base : Path} {pathname : Str} (ht : Held s e h t l) (hba : base.Full)
    (hown : ∀ i ∈ base.inodes, Owned s h l i) :
    Ends Uaf (vfsResolvePathAt base pathname flags) t (Resolved s e h flags l) :=
  ((resolvePathAt_walks (T := False) _ t l base pathname (.of_not id ht) hba hown).weaken fun _ hr => hr.1).mono
    fun _ _ hr => hr.resolved

end

end Vfs

end Yagura
