import Yagura.VfsWalk
import Yagura.VfsRuns

/-!
# The text of a resolved path

`path_to_string` and what it is good for: a path that resolution produced goes
down from the root through names that are plain and inodes that are no
symlinks, so its text leads to the same path again, from wherever it is
resolved.
-/

namespace Yagura

open List Nat Prog

/-! ## The text of a path -/

def fillNames : List (Str × Option Nat) → Str → Str
  | [], buf => buf
  | n :: ns, buf => fillNames ns (PATH_SEPARATOR :: (n.1 ++ buf))

def pathToString (p : Path) : Vfs.Op (Option Str) := do
  if p.nodes = [] then
    if ← Vfs.kmalloc then pure (some [PATH_SEPARATOR]) else pure none
  else
    let len := p.nodes.foldl (fun len n => len + (n.1.length + 1)) 1
    if ← Vfs.kmalloc then
      let str := fillNames p.nodes []
      -- `p == s`: the buffer is filled to its start
      ensure (str.length + 1 = len) .assert
      pure (some str)
    else pure none

def Path.names (p : Path) : List Str := (p.nodes.map Prod.fst).reverse

def slashed (names : List Str) : Str := names.flatMap (PATH_SEPARATOR :: ·)

def Path.text (p : Path) : Str := if p.nodes = [] then [PATH_SEPARATOR] else slashed p.names

variable {names : List Str} {k : Nat} {ns : List (Str × Option Nat)}

theorem slashed_cons {name : Str} : slashed (name :: names) = PATH_SEPARATOR :: (name ++ slashed names) := rfl

theorem fillNames_eq {buf : Str} : fillNames ns buf = slashed (ns.map Prod.fst).reverse ++ buf := by
  induction ns generalizing buf with
  | nil => rfl
  | cons n ns ih =>
    rw [fillNames, ih]
    simp [slashed]

theorem foldl_length :
    ns.foldl (fun len n => len + (n.1.length + 1)) k = k + (slashed (ns.map Prod.fst).reverse).length := by
  induction ns generalizing k with
  | nil => rfl
  | cons n ns ih =>
    rw [foldl_cons, ih]
    simp [slashed]
    omega

theorem pathToString_ends {bad : VfsTrap → Prop} {p : Path} {t : Vfs} :
    Ends bad (pathToString p) t fun r _ => r = some p.text ∨ r = none ∧ Vfs.Lack t := by
  have hmem : Ends bad Vfs.kmalloc t fun b _ => b = false → Vfs.Lack t := .of_ok rfl fun hb => ⟨0, hb⟩
  unfold pathToString Path.text
  split
  · refine .bind hmem fun b _ hb => ?_
    cases b with
    | false => exact .pure (.inr ⟨rfl, hb rfl⟩)
    | true => exact .pure (.inl rfl)
  · refine .bind hmem fun b _ hb => ?_
    cases b with
    | false => exact .pure (.inr ⟨rfl, hb rfl⟩)
    | true =>
      refine .ensure_bind ?_ (.pure (.inl ?_))
      · rw [fillNames_eq, foldl_length, append_nil, add_comm]
      · rw [fillNames_eq, append_nil]
        rfl

theorem Path.text_absolute (p : Path) : isAbsolutePath p.text = true := by
  unfold Path.text
  split
  · rfl
  · rename_i hne
    cases hn : p.names with
    | nil => exact absurd (by simpa [Path.names] using hn) hne
    | cons name names => rfl

/-! ## The components of the text -/

theorem slashed_eq_intercalate : slashed names = [PATH_SEPARATOR].intercalate ([] :: names) := by
  induction names with
  | nil => rfl
  | cons name names ih =>
    rw [slashed_cons, ih]
    cases names with
    | nil => simp [intercalate]
    | cons name' names => simp [intercalate]

theorem splitOn_slashed (hna : ∀ name ∈ names, Plain name) :
    (slashed names).splitOn PATH_SEPARATOR = [] :: names := by
  rw [slashed_eq_intercalate]
  refine splitOn_intercalate _ ?_ (cons_ne_nil _ _)
  intro name hname
  rcases mem_cons.mp hname with rfl | hname
  · exact not_mem_nil
  · exact (hna name hname).2.1

theorem strtokR_sep {str : Str} : strtokR (PATH_SEPARATOR :: str) = strtokR str := by
  have hsep : (PATH_SEPARATOR :: str).dropWhile (· == PATH_SEPARATOR) = str.dropWhile (· == PATH_SEPARATOR) :=
    dropWhile_cons_of_pos rfl
  unfold strtokR
  rw [hsep]

theorem tokensIn_sep {str : Str} : tokensIn k (some (PATH_SEPARATOR :: str)) = tokensIn k (some str) := by
  cases k with
  | zero => rfl
  | succ k => rw [tokensIn, tokensIn, strtokR_sep]

theorem strtokR_name {name : Str} {saved : Option Str} (hname : Plain name) :
    strtokR (name ++ saved.elim [] (PATH_SEPARATOR :: ·)) = some ⟨name, saved⟩ := by
  have hne : ∀ c ∈ name, (c != PATH_SEPARATOR) = true := fun c hc => by
    rw [bne_iff_ne]
    rintro rfl
    exact hname.2.1 hc
  obtain ⟨c, cs, rfl⟩ := exists_cons_of_ne_nil hname.1
  have hst (rest : Str) : (c :: cs ++ rest).dropWhile (· == PATH_SEPARATOR) = c :: cs ++ rest :=
    dropWhile_cons_of_neg (by simpa using hne c (.head _))
  unfold strtokR
  rw [hst]
  rw [if_neg (by simp), takeWhile_append_of_pos hne, dropWhile_append_of_pos hne]
  cases saved with
  | none => simp
  | some r => simp

theorem tokensIn_slashed (hna : ∀ name ∈ names, Plain name) (hk : names.length < k) :
    (tokensIn k (some (slashed names))).map Token.component = names := by
  induction names generalizing k with
  | nil =>
    obtain ⟨k, rfl⟩ := exists_eq_add_one_of_ne_zero (by omega : k ≠ 0)
    rfl
  | cons name names ih =>
    obtain ⟨k, rfl⟩ := exists_eq_add_one_of_ne_zero (by omega : k ≠ 0)
    have ih := ih (k := k) (fun n hn => hna n (.tail _ hn)) (by simpa using hk)
    have hname := hna name (.head _)
    rw [slashed_cons, tokensIn_sep, tokensIn]
    cases names with
    | nil =>
      rw [show name ++ slashed [] = name ++ Option.elim none [] (PATH_SEPARATOR :: ·) from rfl, strtokR_name hname]
      cases k <;> rfl
    | cons name' names =>
      have hre : name ++ slashed (name' :: names) =
        name ++ Option.elim (some (name' ++ slashed names)) [] (PATH_SEPARATOR :: ·) := rfl
      rw [slashed_cons, tokensIn_sep] at ih
      rw [hre, strtokR_name hname]
      exact congrArg _ ih

theorem tokens_text {p : Path} (hp : ∀ n ∈ p.nodes, Plain n.1) : (tokens p.text).map Token.component = p.names := by
  have hna : ∀ name ∈ p.names, Plain name := by
    intro name hname
    obtain ⟨n, hn, rfl⟩ := mem_map.mp (mem_reverse.mp hname)
    exact hp n hn
  unfold tokens Path.text
  split
  · rename_i hnil
    unfold Path.names
    rw [hnil]
    rfl
  · refine tokensIn_slashed hna (lt_succ_of_le ?_)
    unfold slashed
    induction p.names with
    | nil => exact zero_le _
    | cons name names ih =>
      simp only [flatMap_cons, length_append, length_cons]
      omega

namespace Vfs

open Getdents (FileType)

/-! ## Paths that resolution produces -/

def Chain (s : Vfs) : List (Str × Option Nat) → Prop
  | [] => True
  | n :: ns =>
    (Plain n.1 ∧ ∃ i, n.2 = some i ∧ s.child (Path.last ⟨s.root, ns⟩) n.1 = .ok i ∧ (s.inode i).type ≠ .lnk) ∧ s.Chain ns

def Chained (s : Vfs) (p : Path) : Prop := p.top = s.root ∧ s.Chain p.nodes

section
variable {s t u : Vfs} {h : List Nat} {p q base : Path} {i d : Nat} {ns : List (Str × Option Nat)}
  {flags fuel : Nat} {pathname : Str} {n : Str × Option Nat} {ms : List (Str × Option Nat)}

theorem Chain.plain (hns : s.Chain ns) (hn : n ∈ ns) : Plain n.1 := by
  induction ns with
  | nil => cases hn
  | cons m ns ih =>
    rcases mem_cons.mp hn with rfl | hn
    · exact hns.1.1
    · exact ih hns.2 hn

theorem Chain.inode (hns : s.Chain ns) (hn : n ∈ ns) : ∃ i, n.2 = some i ∧ (s.inode i).type ≠ .lnk := by
  induction ns with
  | nil => cases hn
  | cons m ns ih =>
    rcases mem_cons.mp hn with rfl | hn
    · obtain ⟨⟨-, i, hi, -, hlnk⟩, -⟩ := hns
      exact ⟨i, hi, hlnk⟩
    · exact ih hns.2 hn

theorem Chain.suffix (hns : s.Chain (ms ++ ns)) : s.Chain ns := by
  induction ms with
  | nil => exact hns
  | cons m ms ih => exact ih hns.2

theorem Chained.full (hp : s.Chained p) : p.Full := fun n hn => by
  obtain ⟨i, hi, -⟩ := hp.2.inode hn
  exact ⟨hp.2.plain hn, by rw [hi]; rfl⟩

def Ended (s : Vfs) (flags : Nat) (p : Path) : Prop :=
  s.Chained p ∨ allowNoent flags = true ∧ ∃ name ns, p = ⟨s.root, (name, none) :: ns⟩ ∧ Plain name ∧ s.Chain ns ∧
    s.child (Path.last ⟨s.root, ns⟩) name = .error .ENOENT

theorem walkFound_ended {w : Option Walker} {tok : Token} {next : Path → Except Errno Path}
    (hfl : noFollow flags = false) (hw : ∀ f ∈ w, ∀ b text q, s.Chained b → f b text = .ok q → s.Ended flags q)
    (hnx : ∀ r q, s.Chained r → next r = .ok q → s.Ended flags q) (hp : s.Chained p) (hname : Plain tok.component)
    (hi : s.child p.last tok.component = .ok i) (hq : s.walkFound w flags p tok i next = .ok q) :
    s.Ended flags q := by
  obtain ⟨top, ns⟩ := p
  obtain ⟨rfl, hns⟩ := hp
  unfold walkFound at hq
  split at hq
  · cases w with
    | none => cases hq
    | some f =>
      have hall : (tok.hasMoreComponents || !noFollow flags) = true := by
        rw [hfl, Bool.not_false, Bool.or_true]
      dsimp only at hq
      rw [if_pos hall] at hq
      exact hw f rfl _ _ _ ⟨rfl, hns⟩ hq
  · rename_i hlnk
    refine hnx _ _ ?_ hq
    exact ⟨rfl, ⟨hname, i, rfl, hi, hlnk⟩, hns⟩

theorem walkTokens_ended {w : Option Walker} {ts : List Token} (hfl : noFollow flags = false)
    (hw : ∀ f ∈ w, ∀ b text q, s.Chained b → f b text = .ok q → s.Ended flags q)
    (hts : ∀ tok ∈ ts, tok.component ≠ dot → tok.component ≠ dotdot → Plain tok.component) (hp : s.Chained p)
    (hq : s.walkTokens w flags ts p = .ok q) : s.Ended flags q := by
  induction ts generalizing p q with
  | nil =>
    cases hq
    exact .inl hp
  | cons tok ts ih =>
    have hts' := fun tok htok => hts tok (.tail _ htok)
    rw [walkTokens] at hq
    split at hq
    · exact ih hts' hp hq
    · rename_i hdot
      split at hq
      · refine ih hts' ?_ hq
        obtain ⟨top, ns⟩ := p
        cases ns with
        | nil => exact hp
        | cons n ns => exact ⟨hp.1, hp.2.2⟩
      · rename_i hdo
        have hname := hts tok (.head _) hdot hdo
        split at hq
        · rename_i rc hrc
          obtain ⟨top, ns⟩ := p
          obtain ⟨rfl, hns⟩ := hp
          unfold walkMissing at hq
          split at hq
          · rename_i hmay
            cases hq
            exact .inr ⟨hmay.1, _, _, rfl, hname, hns, hmay.2.1 ▸ hrc⟩
          · cases hq
        · rename_i hi
          exact walkFound_ended hfl hw (fun r q hr hrq => ih hts' hr hrq) hp hname hi hq

theorem Chained.start (hb : s.Chained base) : s.Chained (if isAbsolutePath pathname then ⟨s.root, []⟩ else base) := by
  split
  · exact ⟨rfl, trivial⟩
  · exact hb

theorem walk_ended (hfl : noFollow flags = false)
    (hst : s.Chained (if isAbsolutePath pathname then ⟨s.root, []⟩ else base))
    (hq : s.walk flags fuel base pathname = .ok q) : s.Ended flags q := by
  induction fuel generalizing base pathname q with
  | zero =>
    exact walkTokens_ended hfl (fun f hf => absurd hf (Option.not_mem_none f)) (fun tok htok => tokens_plain htok)
      hst hq
  | succ k ih =>
    refine walkTokens_ended hfl ?_ (fun tok htok => tokens_plain htok) hst hq
    rintro _ ⟨⟩ b text q hb hq
    exact ih hb.start hq

theorem walk_chained (hst : s.Chained (if isAbsolutePath pathname then ⟨s.root, []⟩ else base))
    (hq : s.walk 0 fuel base pathname = .ok q) : s.Chained q :=
  (walk_ended rfl hst hq).resolve_right fun hmay => absurd hmay.1 (by decide)

theorem walkTokens_chain (w : Option Walker) (flags : Nat) {ts : List Token}
    (hts : ts.map Token.component = (ms.map Prod.fst).reverse) (hms : s.Chain (ms ++ ns)) :
    s.walkTokens w flags ts ⟨s.root, ns⟩ = .ok ⟨s.root, ms ++ ns⟩ := by
  induction ms using reverseRecOn generalizing ts ns with
  | nil =>
    obtain rfl : ts = [] := by simpa using hts
    rfl
  | append_singleton ms n ih =>
    simp only [map_append, map_cons, map_nil, reverse_append, reverse_cons, reverse_nil,
      nil_append, singleton_append, map_eq_cons_iff] at hts
    obtain ⟨tok, ts, rfl, hn, hts⟩ := hts
    rw [append_assoc, singleton_append] at hms ⊢
    obtain ⟨name, o⟩ := n
    obtain ⟨⟨⟨-, -, hdot, hdo⟩, i, rfl, hch, hlnk⟩, -⟩ := hms.suffix
    rw [walkTokens, hn, if_neg hdot, if_neg hdo, hch]
    dsimp only
    unfold walkFound
    rw [if_neg hlnk, hn]
    exact ih hts hms

theorem Chained.walk_text (hp : s.Chained p) : s.walk flags fuel base p.text = .ok p := by
  obtain ⟨top, ns⟩ := p
  obtain ⟨rfl, hns⟩ := hp
  have hto := tokens_text (p := ⟨s.root, ns⟩) fun n hn => hns.plain hn
  have hfr {w : Option Walker} : s.walkFrom w flags base (Path.text ⟨s.root, ns⟩) = .ok ⟨s.root, ns⟩ := by
    have := walkTokens_chain (s := s) w flags hto (by rwa [append_nil])
    rw [append_nil] at this
    unfold walkFrom
    rw [Path.text_absolute]
    exact this
  cases fuel with
  | zero => exact hfr
  | succ k => exact hfr

end

/-! ## Name spaces that do not change -/

/-- References, open files, working directories and memory apart, nothing differs. -/
structure SameNames (s t : Vfs) : Prop where
  root : t.root = s.root
  mounts : t.mounts = s.mounts
  size : t.numInodes = s.numInodes
  inode : ∀ i < s.numInodes, t.inode i = s.inode i

/-- The root, and what a pathname is resolved to from a path that was produced so while the names were these. -/
inductive Produced (s : Vfs) : Path → Prop
  | root : Produced s ⟨s.root, []⟩
  | resolved {t u : Vfs} {h : List Nat} {base p : Path} {pathname : Str} : Produced s base → SameNames s t →
      t.Inv h [] → (∀ i ∈ base.inodes, Owned t h [] i) → vfsResolvePathAt base pathname 0 t = .ok (.ok p, u) →
      Produced s p

section
variable {s t u : Vfs} {h h' : List Nat} {p base : Path} {i d : Nat} {ns : List (Str × Option Nat)} {name pathname : Str}

theorem SameNames.symm (hst : SameNames s t) : SameNames t s :=
  ⟨hst.root.symm, hst.mounts.symm, hst.size.symm, fun i hi => (hst.inode i (hst.size ▸ hi)).symm⟩

theorem SameNames.tmpfs (hst : SameNames s t) (hs : s.Tmpfs) : t.Tmpfs := fun i hi => by
  rw [hst.size] at hi
  rw [hst.inode i hi]
  exact hs i hi

theorem SameNames.child (hst : SameNames s t) (hd : d < s.numInodes) : t.child d name = s.child d name := by
  have hla (c : Nat) : t.landing c = s.landing c := by
    unfold landing
    rw [mountTop_congr hst.mounts, hst.size]
  unfold Vfs.child
  rw [hst.inode d hd]
  simp only [hla]

theorem Inv.root_lt (hs : s.Inv h []) : s.root < s.numInodes :=
  (hs.live s.root (by have := root_owned (s := s); omega)).1

theorem Inv.child_lt (hs : s.Inv h []) (hd : d < s.numInodes) (hi : s.child d name = .ok i) : i < s.numInodes := by
  unfold Vfs.child at hi
  split at hi
  · split at hi
    · cases hi
    · rename_i c hc
      cases hi
      have hlt : c < s.numInodes := (hs.live c (by have := holders_pos_of_held hd (mem_held_of_lookup hc); omega)).1
      rcases mountTop_mem (hs.mountTop_some hlt) with heq | ⟨m, hm, heq⟩
      · rwa [heq]
      · rw [← heq]
        exact (hs.live m.2 (by have := (mount_owned hm).2; omega)).1
  · cases hi

theorem Inv.last_lt (hs : s.Inv h []) (hns : s.Chain ns) : Path.last ⟨s.root, ns⟩ < s.numInodes := by
  induction ns with
  | nil => exact hs.root_lt
  | cons n ns ih =>
    obtain ⟨name, o⟩ := n
    obtain ⟨⟨-, i, rfl, hch, -⟩, hns⟩ := hns
    exact hs.child_lt (ih hns) hch

theorem SameNames.chained (hst : SameNames s t) (hs : s.Inv h []) (hp : s.Chained p) : t.Chained p := by
  obtain ⟨top, ns⟩ := p
  obtain ⟨rfl, hns⟩ := hp
  refine ⟨hst.root.symm, ?_⟩
  induction ns with
  | nil => trivial
  | cons n ns ih =>
    obtain ⟨⟨hname, i, hi, hch, hlnk⟩, hns⟩ := hns
    have hd := hs.last_lt hns
    refine ⟨⟨hname, i, hi, ?_, ?_⟩, ih hns⟩
    · rw [hst.root, hst.child hd]
      exact hch
    · rwa [hst.inode i (hs.child_lt hd hch)]

theorem vfsResolvePathAt_walk (pathname : Str) (hs : s.Inv h []) (htm : s.Tmpfs) (hba : base.Full)
    (hown : ∀ i ∈ base.inodes, Owned s h [] i) :
    Ends (fun _ => Lack s) (vfsResolvePathAt base pathname 0) s fun r _ =>
      r = s.walk 0 (SYMLOOP_MAX + 1) base pathname ∨ r = .error .ENOMEM ∧ Lack s :=
  ((resolvePathAt_walks (T := True) (SYMLOOP_MAX + 1) s [] base pathname
    ⟨.refl hs, fun _ => ⟨htm, rfl⟩, fun _ => rfl, fun _ => id⟩ hba hown).weaken fun _ hr => hr.2 trivial).mono
    fun _ _ hw => hw.result trivial

theorem Chained.resolved (hba : s.Chained base) (hs : s.Inv h []) (htm : s.Tmpfs)
    (hown : ∀ i ∈ base.inodes, Owned s h [] i) (hrun : vfsResolvePathAt base pathname 0 s = .ok (.ok p, u)) :
    s.Chained p := by
  rcases (vfsResolvePathAt_walk _ hs htm hba.full hown).ok hrun with hw | ⟨hw, -⟩
  · exact walk_chained hba.start hw.symm
  · cases hw

theorem Produced.chained (hp : s.Produced p) (hs : s.Inv h []) (htm : s.Tmpfs) : s.Chained p := by
  induction hp with
  | root => exact ⟨rfl, trivial⟩
  | resolved _ hst ht hown hrun ih =>
    exact hst.symm.chained ht ((hst.chained hs ih).resolved ht (hst.tmpfs htm) hown hrun)

theorem vfsResolvePathAt_absolute (base' : Path) (habs : isAbsolutePath pathname = true) :
    vfsResolvePathAt base pathname 0 = vfsResolvePathAt base' pathname 0 := by
  unfold vfsResolvePathAt resolvePathAt resolveFrom startPath
  rw [if_pos habs, if_pos habs]

theorem Chained.resolves_text (hp : s.Chained p) (hs : s.Inv h []) (htm : s.Tmpfs) :
    Ends (fun _ => Lack s) (vfsResolvePathAt base p.text 0) s fun r _ => r = .ok p ∨ r = .error .ENOMEM ∧ Lack s := by
  rw [vfsResolvePathAt_absolute ⟨s.root, []⟩ p.text_absolute]
  have hro : ∀ i ∈ Path.inodes ⟨s.root, []⟩, Owned s h [] i := by
    intro i hi
    rw [mem_singleton.mp hi]
    exact .inr (Nat.add_pos_left root_owned _)
  have hfull : Path.Full ⟨s.root, []⟩ := nofun
  have hwa := vfsResolvePathAt_walk p.text hs htm hfull hro
  rwa [hp.walk_text] at hwa

/-- An absolute pathname without superfluous components, which names no symlink on its way. -/
structure Canonical (s : Vfs) (p : Path) (str : Str) : Prop where
  absolute : isAbsolutePath str = true
  components : p.nodes = [] ∧ str = [PATH_SEPARATOR] ∨ str.splitOn PATH_SEPARATOR = [] :: p.names
  plain : ∀ name ∈ p.names, name ≠ [] ∧ name ≠ dot ∧ name ≠ dotdot
  noLink : ∀ n ∈ p.nodes, ∃ i, n.2 = some i ∧ (s.inode i).type ≠ .lnk

theorem Chained.canonical (hp : s.Chained p) : s.Canonical p p.text := by
  have hna : ∀ name ∈ p.names, Plain name := by
    intro name hname
    obtain ⟨n, hn, rfl⟩ := mem_map.mp (mem_reverse.mp hname)
    exact hp.2.plain hn
  refine ⟨p.text_absolute, ?_, fun name hname => ?_, fun n hn => hp.2.inode hn⟩
  · unfold Path.text
    split
    · rename_i hnil
      exact .inl ⟨hnil, rfl⟩
    · exact .inr (splitOn_slashed hna)
  · obtain ⟨hne, -, hdot, hdo⟩ := hna name hname
    exact ⟨hne, hdot, hdo⟩

theorem resolve_canonical (htm : s.Tmpfs) (hs : s.Inv h []) (hbase : s.Produced base)
    (hown : ∀ i ∈ base.inodes, Owned s h [] i) (hrun : vfsResolvePathAt base pathname 0 s = .ok (.ok p, u)) :
    ∃ str, s.Canonical p str ∧
      (∀ t, Ends (fun _ => False) (pathToString p) t fun r _ => r = some str ∨ r = none ∧ Lack t) ∧
      ∀ t h' base', SameNames s t → t.Inv h' [] → Ends (fun _ => Lack t) (vfsResolvePathAt base' str 0) t fun r _ =>
        r = .ok p ∨ r = .error .ENOMEM ∧ Lack t := by
  have hp := (hbase.chained hs htm).resolved hs htm hown hrun
  refine ⟨p.text, hp.canonical, fun t => pathToString_ends, fun t h' base' hst ht => ?_⟩
  exact (hst.chained hs hp).resolves_text ht (hst.tmpfs htm)

end

/-- In a file system mounted at `/m` there is a directory `d`, which `/l` is a symlink to: `l/../d/.` is `/m/d`. -/
theorem resolve_canonical_mount : ∃ s u p, Run Step (fun _ _ => True) (boot 1 []) s ∧
    vfsResolvePathAt ⟨0, []⟩ [108, 47, 46, 46, 47, 100, 47, 46] 0 s = .ok (.ok p, u) ∧
    p = ⟨0, [([100], some 3), ([109], some 2)]⟩ ∧ ∃ str, s.Canonical p str ∧
      Ends (fun _ => False) (pathToString p) s fun r _ => r = some str ∨ r = none ∧ Lack s := by
  obtain ⟨s, hr, htm, hro, r, u, hrun, rfl⟩ := exists_follow next (fun _ _ => True)
    [⟨0, calm, .mkdir (.ok [109])⟩, ⟨0, calm, .mount (.ok [109]) (some .tmpfs)⟩, ⟨0, calm, .mkdir (.ok [109, 47, 100])⟩,
      ⟨0, calm, .symlink (.ok [109, 47, 100]) (.ok [108])⟩]
    (boot 1 []) (fun s => (∀ i < s.numInodes, (s.inode i).fops ≠ .procRoot ∧ (s.inode i).fops ≠ .procDir ∧
        (s.inode i).fops ≠ .procItem) ∧ s.root = 0 ∧
      Yields (vfsResolvePathAt ⟨0, []⟩ [108, 47, 46, 46, 47, 100, 47, 46] 0) s fun r _ =>
        r = .ok ⟨0, [([100], some 3), ([109], some 2)]⟩) (by decide +kernel)
  have hr := hr.imp fun _ _ _ => next_step
  have hdev : ∀ d ∈ ([] : List (FileType × Nat)), d.1 = .chr ∨ d.1 = .blk := nofun
  have hba : s.Produced ⟨0, []⟩ := hro ▸ .root
  have hown : ∀ i ∈ Path.inodes ⟨0, []⟩, Owned s [] [] i := by
    intro i hi
    rw [mem_singleton.mp hi, ← hro]
    exact .inr (Nat.add_pos_left root_owned _)
  obtain ⟨str, hca, hte, -⟩ := resolve_canonical htm (Run.sound hdev hr).inv hba hown hrun
  exact ⟨s, u, _, hr, hrun, rfl, str, hca, hte s⟩

end Vfs

end Yagura
