import Yagura.VfsRuns

/-!
# Renaming, all or nothing

A rename that fails leaves entries, links and contents as they were unless it
has got past a step that it does not take back: the target's entry is gone when
the new entry cannot be made, or the new entry is there when the old one cannot
be dropped.
-/

namespace Yagura

namespace Vfs

open List Option Prog

open Getdents (FileType)

def Intact (s t : Vfs) : Prop :=
  ∀ j < s.numInodes, (s.inode j).freed = false → (t.inode j).freed = false ∧
    (t.inode j).children = (s.inode j).children ∧ (t.inode j).numLinks = (s.inode j).numLinks ∧
    (t.inode j).content = (s.inode j).content

instance (s t : Vfs) : Decidable (Intact s t) := by
  unfold Intact
  infer_instance

/-- The old entry can be dropped once the new one is there. -/
def Droppable (t : Vfs) (d : Nat) (name : Str) (d' : Nat) (name' : Str) : Prop :=
  (t.inode d).fops = .tmpfsDir ∧ ((t.inode d).children.lookup name ≠ none ∨ d = d' ∧ name = name')

/-- Nothing is left half done in `v`: a new entry is made only if the old one can be dropped, and the target goes only if
the new entry can be made, too. The last alternative is a new entry that is the target's old one again. -/
def MoveSafe (s v : Vfs) (p : Path) (i d' : Nat) (name' : Str) (d : Nat) (name : Str) : Prop :=
  (p.inode = none → Linkable v d' name' i → Droppable v d name d' name') ∧
    ∀ j, p.inode = some j → j ≠ i → Goes v (v.inode i) j d' name' →
      ((v.inode d').dev = (v.inode i).dev ∧ v.mem (listing (v.inode j)) = true ∧
        v.mem (listing (v.inode j) + 1) = true) ∧
      (Droppable v d name d' name' ∨ ∃ front, (s.inode d').children = front ++ [(name', i)])

/-- The two lookups leave `v`. -/
def RenameSafe (s : Vfs) (base : Path) (old new : Arg) : Prop :=
  ∀ old' new' q u p v i d' name' d name, old = .ok old' → new = .ok new' →
    vfsResolvePathAt base old' 0 s = .ok (.ok q, u) → vfsResolvePathAt base new' O_ALLOW_NOENT u = .ok (.ok p, v) →
    q.inode = some i → PathAt q d name → PathAt p d' name' → MoveSafe s v p i d' name' d name

section
variable {s t u v w : Vfs} {l : List Nat} {d c i : Nat} {name : Str} {r : Except Errno Unit} {A : Nat → Prop}

theorem Held.intact {e : Edit} {h : List Nat} (ht : Held s e h t l) (he : e = .none) : Intact s t := by
  subst he
  intro j hj hf
  rw [show t.inode j = s.inode j from ht.grown.old j hj]
  exact ⟨hf, rfl, rfl, rfl⟩

theorem Released.children {j : Nat} (hr : Released A s t) (hf : (t.inode j).freed = false) :
    (t.inode j).children = (s.inode j).children ∧ (s.inode j).freed = false := by
  obtain ⟨hc, -, hg⟩ | ⟨-, -, hg⟩ := (hr.fades j).held
  · exact ⟨hc, hg ▸ hf⟩
  · rw [hg] at hf
    cases hf

theorem PathAt.unique {p : Path} {d' : Nat} {name' : Str} (ha : PathAt p d name) (ha' : PathAt p d' name') :
    d = d' ∧ name = name' := by
  obtain ⟨o, ns, hns, hd⟩ := ha
  obtain ⟨o', ns', hns', hd'⟩ := ha'
  rw [hns] at hns'
  cases hns'
  exact ⟨mem_unique hd hd', rfl⟩

theorem lookup_eraseP_self {children : List (Str × Nat)} (hn : (children.map Prod.fst).Nodup)
    (hc : children.lookup name = some c) : (children.eraseP (·.1 == name)).lookup name = none := by
  have hpe := (lookup_perm_eraseP hc).map Prod.fst
  rw [hpe.nodup_iff] at hn
  exact lookup_none_iff.mpr (nodup_cons.mp hn).1

theorem detach_self_children : ((s.detach d name c).inode d).children = (s.inode d).children.eraseP (·.1 == name) :=
  detach_children.trans (if_pos rfl)

theorem linked_self_children : ((s.linked d name c).inode d).children = (s.inode d).children ++ [(name, c)] :=
  attach_children.trans (if_pos rfl)

theorem eraseP_last {front : List (Str × Nat)} (hfr : front.lookup name = none) :
    (front ++ [(name, i)]).eraseP (·.1 == name) = front := by
  rw [eraseP_append_right]
  · simp
  · intro e he
    have := lookup_none_iff.mp hfr
    simp only [beq_iff_eq]
    rintro rfl
    exact this (mem_map_of_mem he)

theorem attach_detach {front : List (Str × Nat)} (hla : (s.inode d).children = front ++ [(name, i)])
    (hfr : front.lookup name = none)
    (hpos : 0 < ((s.setInode d { s.inode d with children := front }).inode i).numLinks) :
    (s.detach d name i).attach d name i = s := by
  have her : (s.inode d).children.eraseP (·.1 == name) = front := by rw [hla, eraseP_last hfr]
  have hin : ((s.detach d name i).attach d name i).inode = s.inode := by
    funext j
    unfold attach detach
    simp only [her]
    by_cases hid : i = d
    · subst hid
      by_cases hji : j = i
      · subst hji
        rw [setInode_self] at hpos
        simp only [setInode_self]
        rw [← hla, Nat.sub_add_cancel hpos]
      · simp only [setInode_other hji]
    · rw [setInode_other hid] at hpos
      by_cases hji : j = i
      · subst hji
        simp only [setInode_self, setInode_other hid]
        rw [Nat.sub_add_cancel hpos]
      · by_cases hjd : j = d
        · subst hjd
          simp only [setInode_other hji, setInode_self]
          rw [← hla]
        · simp only [setInode_other hji, setInode_other hjd]
  have hsa : (s.detach d name i).attach d name i =
      { s with inode := ((s.detach d name i).attach d name i).inode } := rfl
  rw [hsa, hin]

theorem relink {front : List (Str × Nat)} (hu : u.Inv l []) (hd : d ∈ l) (hi : i ∈ l)
    (hla : (u.inode d).children = front ++ [(name, i)]) (hc : (u.inode d).children.lookup name = some c)
    (hrun : inodeUnref c (u.detach d name c) = .ok ((), w)) : w.linked d name i = u := by
  have hlt := (hu.live_of_mem hd).1
  have hna := (hu.ok d hlt).names
  rw [hla, map_append, nodup_append] at hna
  have hfo : front.lookup name = none :=
    lookup_none_iff.mpr fun hm => hna.2.2 name hm name (by simp) rfl
  obtain rfl : c = i := by
    rw [hla, lookup_append, hfo, none_or, lookup_cons_self] at hc
    exact (some.inj hc).symm
  obtain ⟨hpos, hdet⟩ := hu.detach hlt hc
  rw [inodeUnref_run hdet (by have := count_pos_iff.mpr hi; omega)] at hrun
  cases hrun
  have href := hdet.refCount_pos
  have hba : ((u.detach d name c).setRef c ((u.detach d name c).refCount c - 1)).setRef c
      (((u.detach d name c).setRef c ((u.detach d name c).refCount c - 1)).refCount c + 1) = u.detach d name c := by
    rw [setRef_self, Nat.sub_add_cancel href]
    exact setRef_back
  unfold linked
  rw [hba]
  refine attach_detach hla hfo ?_
  rwa [show (u.inode d).children.eraseP (·.1 == name) = front by rw [hla, eraseP_last hfo]] at hpos

/-! ## Entries that can be made and dropped -/

variable {p q : Path} {d' : Nat} {name' : Str}

theorem removable_linked_iff : Removable (t.linked d' name' i) d name ↔ Droppable t d name d' name' := by
  have hfo : ((t.linked d' name' i).inode d).fops = (t.inode d).fops := attach_fops
  have hch : ((t.linked d' name' i).inode d).children.lookup name ≠ none ↔
      (t.inode d).children.lookup name ≠ none ∨ d = d' ∧ name = name' := by
    unfold linked
    rw [attach_children, setRef_inode]
    by_cases hd : d = d'
    · rw [if_pos hd, lookup_append]
      by_cases hn : name = name'
      · simp [hd, hn]
      · have hne : (name == name') = false := beq_eq_false_iff_ne.mpr hn
        simp [hn, lookup_cons, hne]
    · simp [hd]
  unfold Removable Droppable
  rw [hfo, hch]

/-- Dropping the target's entry leaves its directory, the old entry and the moved inode as they are otherwise. -/
theorem Unlinked.move_iff (i : Nat) (name : Str) (hu : u.Inv l []) (hd' : d' ∈ l) (hd : d ∈ l)
    (hw : Unlinked u d' name' (.ok ()) w) :
    (Linkable w d' name' i ↔ (u.inode d').dev = (u.inode i).dev ∧ u.mem 0 = true ∧ u.mem 1 = true) ∧
      (Droppable w d name d' name' ↔ Droppable u d name d' name') := by
  obtain ⟨htmp, c, hc, hrun⟩ := hw
  obtain ⟨hwi, hwr⟩ := drop_released hu hd' hc hrun
  have hfo (a : Nat) : (w.inode a).fops = (u.inode a).fops := (hwr.fades a).fops.trans detach_fops
  have hdev (a : Nat) : (w.inode a).dev = (u.inode a).dev := (hwr.fades a).dev.trans detach_dev
  have hch {a : Nat} (ha : a ∈ l) : (w.inode a).children =
      if a = d' then (u.inode a).children.eraseP (·.1 == name') else (u.inode a).children :=
    (hwr.children (hwi.live_of_mem ha).2).1.trans detach_children
  have hmem : w.mem = u.mem := hwr.mem
  have hnn : (w.inode d').children.lookup name' = none := by
    rw [hch hd', if_pos rfl]
    exact lookup_eraseP_self (hu.ok d' (hu.live_of_mem hd').1).names hc
  refine ⟨?_, ?_⟩
  · unfold Linkable
    rw [hfo, hdev, hdev, hmem]
    exact ⟨fun h => ⟨h.2.1, h.2.2.2⟩, fun h => ⟨htmp, h.1, hnn, h.2⟩⟩
  · unfold Droppable
    rw [hfo, hch hd]
    by_cases hdd : d = d'
    · by_cases hn : name = name'
      · simp [hdd, hn]
      · rw [if_pos hdd, lookup_eraseP_ne hn]
    · rw [if_neg hdd]

/-! ## A rename that fails -/

theorem not_intact_linked (hd : d' < s.numInodes) (hold : w.inode d' = s.inode d') (hfr : (s.inode d').freed = false)
    {f : Nat → Bool} (hrel : Released A ({ w with mem := f }.linked d' name' i) t) : ¬ Intact s t := by
  intro hsa
  obtain ⟨hf, hc, -⟩ := hsa d' hd hfr
  have := (hrel.children hf).1
  rw [hc, linked_self_children, show ({ w with mem := f } : Vfs).inode d' = s.inode d' from hold] at this
  simp at this

theorem not_intact_dropped (hd : d < s.numInodes) (hold : u.inode d = s.inode d) (hok : (s.inode d).Ok)
    (hfr : (s.inode d).freed = false) (hc : (u.inode d).children.lookup name = some c)
    (hke : (t.inode d).freed = false → (t.inode d).children = ((u.detach d name c).inode d).children) :
    ¬ Intact s t := by
  intro hsa
  obtain ⟨hf, hch, -⟩ := hsa d hd hfr
  have := hke hf
  rw [hch, detach_self_children, hold] at this
  rw [hold] at hc
  have hnn := lookup_eraseP_self hok.names hc
  rw [← this, hc] at hnn
  cases hnn

theorem intact_replaced_iff (hu : Held s .none [] u (p.inodes ++ q.inodes)) (hd : d ∈ p.inodes ++ q.inodes)
    (hi : i ∈ p.inodes ++ q.inodes) (hold : d < s.numInodes) (hc : (u.inode d).children.lookup name = some c)
    (hrun : inodeUnref c (u.detach d name c) = .ok ((), w)) {f : Nat → Bool}
    (hdo : done p q r ({ w with mem := f }.linked d name i) = .ok (r, t))
    (hrel : Released A ({ w with mem := f }.linked d name i) t) :
    Intact s t ↔ ∃ front, (s.inode d).children = front ++ [(name, i)] := by
  have hsa : u.inode d = s.inode d := hu.grown.old d hold
  have hfr : (s.inode d).freed = false := hsa ▸ (hu.live hd).2
  constructor
  · intro hint
    obtain ⟨hf, hch, -⟩ := hint d hold hfr
    have := (hrel.children hf).1
    rw [hch, linked_self_children] at this
    exact ⟨_, this⟩
  · rintro ⟨front, hla⟩
    have hba : ({ w with mem := f } : Vfs).linked d name i = { u with mem := f } := by
      have := relink hu.inv_nil hd hi (hsa ▸ hla) hc hrun
      exact congrArg (fun x : Vfs => { x with mem := f }) this
    rw [hba] at hdo
    exact ((done_ends (hu.mem f)).ok hdo).2.1.intact rfl

theorem Renamed.intact_iff {t₀ : Vfs} (hp : p.Partial) (hq : q.Full) (hi : q.inode = some i)
    (ht0 : Held s .none [] t₀ (p.inodes ++ q.inodes)) (hend : Renamed s t₀ p q i r t) (ha' : PathAt p d' name')
    (ha : PathAt q d name) : (r ≠ .ok () → Intact s t) ↔ MoveSafe s t₀ p i d' name' d name := by
  have him : i ∈ q.inodes := by
    obtain ⟨_, hi', hm⟩ := hq.inode
    rw [hi] at hi'
    exact some.inj hi' ▸ hm
  have hdm : d' ∈ p.inodes ++ q.inodes := mem_append_left _ (ha'.mem hp)
  have hdm' : d ∈ p.inodes ++ q.inodes := mem_append_right _ (ha.mem hq.partial_)
  cases hend with
  | root hro hr ht =>
    obtain ⟨_, _, hns, -⟩ := ha'
    rw [hro] at hns
    cases hns
  | same _ hsa hr ht =>
    refine iff_of_true (fun h => absurd hr h) ⟨fun hnn => ?_, fun j hj hne => ?_⟩
    · rw [hsa] at hnn
      cases hnn
    · exact absurd (mem_unique hj hsa) hne
  | blocked j d₀ name₀ _ hj hne ha0 hno ht =>
    obtain ⟨rfl, rfl⟩ := ha0.unique ha'
    refine iff_of_true (fun _ => ht.intact rfl) ⟨fun hnn => ?_, fun j' hj' _ hgo => ?_⟩
    · rw [hj] at hnn
      cases hnn
    · cases mem_unique hj hj'
      exact absurd hgo hno
  | replaced j d₀ name₀ w _ hj hne ha0 hgo hw hend =>
    obtain ⟨rfl, rfl⟩ := ha0.unique ha'
    have hu := ht0.mem fun k => t₀.mem (k + listing (t₀.inode j))
    obtain ⟨hli, hdp⟩ := hw.move_iff i name hu.inv_nil hdm hdm'
    obtain ⟨htmp, c, hc, hdr⟩ := hw
    obtain ⟨hwi, hwr⟩ := drop_released hu.inv_nil hdm hc hdr
    obtain ⟨d₁, name₁, d₂, name₂, v, ha1, ha2, hmo, hvi, hdo, -, hrel, -⟩ := hend.elim hp hq him hwi
    obtain ⟨rfl, rfl⟩ := ha1.unique ha0
    obtain ⟨rfl, rfl⟩ := ha2.unique ha
    have hold := hu.dir_old (hu.live hdm).1 htmp
    have hsa : t₀.inode d₁ = s.inode d₁ := hu.grown.old d₁ hold
    have hfr : (s.inode d₁).freed = false := hsa ▸ (hu.live hdm).2
    have hmem : t₀.mem (0 + listing (t₀.inode j)) = true ∧ t₀.mem (1 + listing (t₀.inode j)) = true ↔
        t₀.mem (listing (t₀.inode j)) = true ∧ t₀.mem (listing (t₀.inode j) + 1) = true := by
      rw [Nat.zero_add, Nat.add_comm 1]
    -- with a target that goes, `MoveSafe` is about `j` alone
    have hsafe : MoveSafe s t₀ p i d₁ name₁ d₂ name₂ ↔ Linkable w d₁ name₁ i ∧
        (Removable (w.linked d₁ name₁ i) d₂ name₂ ∨ ∃ front, (s.inode d₁).children = front ++ [(name₁, i)]) := by
      rw [hli, removable_linked_iff, hdp]
      constructor
      · intro h
        obtain ⟨⟨hdev, hm⟩, hor⟩ := h.2 j hj hne hgo
        exact ⟨⟨hdev, hmem.mpr hm⟩, hor⟩
      · rintro ⟨⟨hdev, hm⟩, hor⟩
        refine ⟨fun hnn => ?_, fun j' hj' _ _ => ?_⟩
        · rw [hj] at hnn
          cases hnn
        · cases mem_unique hj hj'
          exact ⟨⟨hdev, hmem.mp hm⟩, hor⟩
    rw [hsafe]
    rcases hmo with ⟨hno, hr, f, rfl⟩ | ⟨hl, f, hmo⟩
    · refine iff_of_false (fun h => ?_) fun h => hno h.1
      refine not_intact_dropped hold hsa (hu.start.ok d₁ hold) hfr hc (fun hf => ?_) (h hr)
      obtain ⟨hch, hfw⟩ := hrel.children hf
      exact hch.trans (hwr.children hfw).1
    · cases r with
      | ok _ => exact iff_of_true (fun h => absurd rfl h) ⟨hl, .inl hmo.removable⟩
      | error rc =>
        obtain ⟨rfl, hst⟩ := hmo
        have hkey := intact_replaced_iff hu hdm (mem_append_right _ him) hold hc hdr hdo hrel
        have hnot : ¬ Removable (w.linked d₁ name₁ i) d₂ name₂ := fun h => hst.elim (fun hs => hs h.1) h.2
        exact ⟨fun h => ⟨hl, .inr (hkey.mp (h nofun))⟩, fun h _ => hkey.mpr (h.2.resolve_left hnot)⟩
  | moved _ hnn hend =>
    obtain ⟨d₁, name₁, d₂, name₂, v, ha1, ha2, hmo, -, hdo, -, hrel, -⟩ := hend.elim hp hq him ht0.inv_nil
    obtain ⟨rfl, rfl⟩ := ha1.unique ha'
    obtain ⟨rfl, rfl⟩ := ha2.unique ha
    have hsafe : MoveSafe s t₀ p i d₁ name₁ d₂ name₂ ↔
        (Linkable t₀ d₁ name₁ i → Removable (t₀.linked d₁ name₁ i) d₂ name₂) := by
      rw [removable_linked_iff]
      refine ⟨fun h => h.1 hnn, fun h => ⟨fun _ => h, fun j hj => ?_⟩⟩
      rw [hnn] at hj
      cases hj
    rw [hsafe]
    rcases hmo with ⟨hno, hr, f, rfl⟩ | ⟨hl, f, hmo⟩
    · exact iff_of_true (fun _ => ((done_ends (ht0.mem f)).ok hdo).2.1.intact rfl) fun hl => absurd hl hno
    · cases r with
      | ok _ => exact iff_of_true (fun h => absurd rfl h) fun _ => hmo.removable
      | error rc =>
        obtain ⟨rfl, hst⟩ := hmo
        have hold := ht0.dir_old (ht0.live hdm).1 hl.1
        have hsa : t₀.inode d₁ = s.inode d₁ := ht0.grown.old d₁ hold
        refine iff_of_false (fun h => ?_) fun h => ?_
        · exact not_intact_linked hold hsa (hsa ▸ (ht0.live hdm).2) hrel (h nofun)
        · obtain ⟨htmp', hc'⟩ := h hl
          exact hst.elim (fun hs => hs htmp') hc'

theorem rename_intact_iff {base : Path} {old new : Arg} (hs : s.Sound) (hb : base ∈ s.cwds)
    (hrun : sysRename base old new s = .ok (r, t)) : (r ≠ .ok () → Intact s t) ↔ RenameSafe s base old new := by
  cases old with
  | error rc =>
    obtain ⟨-, rfl⟩ := pure_outcome hrun
    refine iff_of_true (fun _ => hs.start.intact rfl) ?_
    intro old' new' q u p v i d' name' d name hold
    cases hold
  | ok old =>
    cases new with
    | error rc =>
      obtain ⟨-, rfl⟩ := pure_outcome hrun
      refine iff_of_true (fun _ => hs.start.intact rfl) ?_
      intro old' new' q u p v i d' name' d name _ hnew
      cases hnew
    | ok new =>
      cases (sysRename_ends hs hb).ok hrun with
      | quiet hr ht hno =>
        refine iff_of_true (fun _ => ht.intact rfl) ?_
        intro old' new' q u p v i d' name' d name hold hnew hq hp _ ha _
        cases hold
        cases hnew
        refine absurd hp (hno q u p v hq ?_)
        obtain ⟨_, _, hns, -⟩ := ha
        rw [hns]
        nofun
      | found q p u v i hq hp hfull hpart hne hi hv hend =>
        obtain ⟨d, name, ha⟩ := exists_pathAt hfull.partial_ hne
        by_cases hro : p.nodes = []
        · have hsa : RenameSafe s base (.ok old) (.ok new) := by
            intro old' new' q' u' p' v' _ _ _ _ _ hold hnew hq' hp' _ _ ha'
            cases hold
            cases hnew
            rw [hq] at hq'
            cases hq'
            rw [hp] at hp'
            cases hp'
            obtain ⟨_, _, hns, -⟩ := ha'
            rw [hro] at hns
            cases hns
          cases hend with
          | root _ _ ht => exact iff_of_true (fun _ => ht.intact rfl) hsa
          | same hne => exact absurd hro hne
          | blocked _ _ _ hne => exact absurd hro hne
          | replaced _ _ _ _ hne => exact absurd hro hne
          | moved hne => exact absurd hro hne
        · obtain ⟨d', name', ha'⟩ := exists_pathAt hpart hro
          rw [hend.intact_iff hpart hfull hi hv ha' ha]
          constructor
          · intro h old' new' q' u' p' v' i' d₁ name₁ d₂ name₂ hold hnew hq' hp' hi' ha₂ ha₁
            cases hold
            cases hnew
            rw [hq] at hq'
            cases hq'
            rw [hp] at hp'
            cases hp'
            rw [hi] at hi'
            cases hi'
            obtain ⟨rfl, rfl⟩ := ha₁.unique ha'
            obtain ⟨rfl, rfl⟩ := ha₂.unique ha
            exact h
          · intro h
            exact h old new q u p v i d' name' d name rfl rfl hq hp hi ha ha'

end

theorem rename_intact_exdev : ∃ s t, Run Step (fun _ _ => True) (boot 1 []) s ∧
    sysRename ⟨0, []⟩ (.ok [97]) (.ok [109, 47, 98]) (s.enter calm) = .ok (.error .EXDEV, t) ∧ Intact s t ∧
    RenameSafe (s.enter calm) ⟨0, []⟩ (.ok [97]) (.ok [109, 47, 98]) := by
  obtain ⟨s, hr, hb, r, t, hrun, rfl, hsa⟩ := exists_follow next (fun _ _ => True)
    [⟨0, calm, .mknod (.ok [97]) .reg 0⟩, ⟨0, calm, .mkdir (.ok [109])⟩, ⟨0, calm, .mount (.ok [109]) (some .tmpfs)⟩]
    (boot 1 []) (fun s => ⟨0, []⟩ ∈ s.cwds ∧ Yields (sysRename ⟨0, []⟩ (.ok [97]) (.ok [109, 47, 98])) (s.enter calm)
      fun r t => r = .error .EXDEV ∧ Intact s t) (by decide +kernel)
  have hr := hr.imp fun _ _ _ => next_step
  have hdev : ∀ d ∈ ([] : List (FileType × Nat)), d.1 = .chr ∨ d.1 = .blk := nofun
  exact ⟨s, t, hr, hrun, hsa, (rename_intact_iff ((Run.sound hdev hr).enter calm) hb hrun).mp fun _ => hsa⟩

/-- A file is moved over one on another file system: the call fails with `EXDEV` and its target is gone. -/
theorem rename_loses_target : ∃ s t, Run Step (fun _ _ => True) (boot 1 []) s ∧
    sysRename ⟨0, []⟩ (.ok [97]) (.ok [109, 47, 98]) (s.enter calm) = .ok (.error .EXDEV, t) ∧
    (s.inode 3).children = [([98], 4)] ∧ (t.inode 3).children = [] ∧ ¬ Intact s t := by
  obtain ⟨s, hr, hc, r, t, hrun, rfl, hgo, hnot⟩ := exists_follow next (fun _ _ => True)
    [⟨0, calm, .mknod (.ok [97]) .reg 0⟩, ⟨0, calm, .mkdir (.ok [109])⟩, ⟨0, calm, .mount (.ok [109]) (some .tmpfs)⟩,
      ⟨0, calm, .mknod (.ok [109, 47, 98]) .reg 0⟩]
    (boot 1 []) (fun s => (s.inode 3).children = [([98], 4)] ∧
      Yields (sysRename ⟨0, []⟩ (.ok [97]) (.ok [109, 47, 98])) (s.enter calm) fun r t =>
        r = .error .EXDEV ∧ (t.inode 3).children = [] ∧ ¬ Intact s t) (by decide +kernel)
  exact ⟨s, t, hr.imp fun _ _ _ => next_step, hrun, hc, hgo, hnot⟩

end Vfs

end Yagura
