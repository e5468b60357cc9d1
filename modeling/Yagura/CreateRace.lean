import Yagura.VfsSound

/-!
# Creators of one name

`create_at` run by several tasks at once. A step is one critical section of a
directory: a lookup, the search and the append of `tmpfs_link_child`, or a
removal. What a symbolic link holds decides how the lookup of its name goes on,
with `"/."` behind it: a new one is empty, and `"" + "/."` is the root; a name
that is missing there is not a last component and is not created.
-/

namespace Yagura

open Function List Nat Option

namespace CreateRace

open Getdents (FileType)

structure Place where
  dir : Nat
  name : Str
  deriving DecidableEq

/-- Where the pathname in a symbolic link ends: at an inode that no directory is asked for, at a last component, or
nowhere. -/
inductive Target
  | node (i : Nat)
  | last (p : Place)
  | fails (e : Errno)

inductive Alloc
  | enough
  | noInode
  | noDentry
  deriving DecidableEq

inductive Pc
  | idle
  | resolving (p : Place) (depth : Nat)
  | following (i depth : Nat)
  | creating (p : Place)
  | lookingUp (p : Place)
  | done (r : Except Errno Nat)
  deriving DecidableEq

/-- A call of `create_at`; `steps` counts its critical sections, `starved` says that it ran out of memory. -/
structure Creator where
  place : Place
  type : FileType
  exclusive : Bool
  pc : Pc
  steps : Nat
  starved : Bool

inductive Entry
  | created (t i : Nat)
  | removed
  deriving DecidableEq

/-- `log` has the history of each name, last first. -/
structure State where
  children : Nat → List (Str × Nat)
  type : Nat → FileType
  target : Nat → Target
  numInodes : Nat
  root : Nat
  creator : Nat → Creator
  log : Place → List Entry

inductive Event
  | call (t : Nat) (p : Place) (type : FileType) (exclusive : Bool)
  | step (t : Nat) (a : Alloc)
  | unlink (p : Place)
  | write (i : Nat) (x : Target)

namespace State

def find (s : State) (p : Place) : Option Nat := (s.children p.dir).lookup p.name

def note (s : State) (p : Place) (e : Entry) : State := { s with log := update s.log p (e :: s.log p) }

def setCreator (s : State) (t : Nat) (c : Creator) : State := { s with creator := update s.creator t c }

def goto (s : State) (t : Nat) (pc : Pc) : State :=
  s.setCreator t { s.creator t with pc := pc, steps := (s.creator t).steps + 1 }

def starve (s : State) (t : Nat) : State :=
  s.setCreator t { s.creator t with pc := .done (.error .ENOMEM), steps := (s.creator t).steps + 1, starved := true }

def found (s : State) (t i : Nat) : Pc := .done (if (s.creator t).exclusive then .error .EEXIST else .ok i)

/-- A lookup in `resolve_path_at` with `O_ALLOW_NOENT`: of the last component, or (`0 < depth`) of the last but `"."`. -/
def resolved (s : State) (t : Nat) (p : Place) (depth : Nat) : Pc :=
  match s.find p with
  | none => if depth = 0 then .creating p else .done (.error .ENOENT)
  | some i =>
    if s.type i = .lnk then
      if SYMLOOP_MAX < depth then .done (.error .ELOOP) else .following i depth
    else s.found t i

def followed (s : State) (t i depth : Nat) : Pc :=
  match s.target i with
  | .node j => s.found t j
  | .last p => .resolving p (depth + 1)
  | .fails e => .done (.error e)

def append (s : State) (p : Place) (type : FileType) : State :=
  { s with
    children := update s.children p.dir (s.children p.dir ++ [(p.name, s.numInodes)])
    type := update s.type s.numInodes type
    target := update s.target s.numInodes (.node s.root)
    numInodes := s.numInodes + 1 }

def create (s : State) (t : Nat) (p : Place) (a : Alloc) : State :=
  if a = .noInode then s.starve t
  else if (s.find p).isSome then
    s.goto t (if (s.creator t).exclusive then .done (.error .EEXIST) else .lookingUp p)
  else if a = .noDentry then s.starve t
  else ((s.append p (s.creator t).type).note p (.created t s.numInodes)).goto t (.done (.ok s.numInodes))

def erase (s : State) (p : Place) : State :=
  { s with children := update s.children p.dir ((s.children p.dir).eraseP (·.1 == p.name)) }

def unlink (s : State) (p : Place) : State :=
  if (s.find p).isSome then (s.erase p).note p .removed else s

def stepTask (s : State) (t : Nat) (a : Alloc) : Option State :=
  match (s.creator t).pc with
  | .idle | .done _ => none
  | .resolving p depth => some (if a = .enough then s.goto t (s.resolved t p depth) else s.starve t)
  | .following i depth => some (if a = .enough then s.goto t (s.followed t i depth) else s.starve t)
  | .creating p => some (s.create t p a)
  | .lookingUp p =>
    match s.find p with
    | some i => some (s.goto t (.done (.ok i)))
    | none => some (s.goto t (.creating p))

def exec (s : State) : Event → Option State
  | .call t p type exclusive =>
    if (s.creator t).pc = .idle then some (s.setCreator t ⟨p, type, exclusive, .resolving p 0, 0, false⟩) else none
  | .step t a => s.stepTask t a
  | .unlink p => some (s.unlink p)
  | .write i x => some { s with target := update s.target i x }

def Step (s : State) (e : Event) (s' : State) : Prop := s.exec e = some s'

def NoLink (p : Place) (s : State) : Event → Prop
  | .step t _ => (s.creator t).pc = .creating p → (s.creator t).type ≠ .lnk
  | _ => True

instance (p : Place) (s : State) : (e : Event) → Decidable (NoLink p s e)
  | .step .. => inferInstanceAs (Decidable (_ → _))
  | .call .. | .unlink _ | .write .. => .isTrue trivial

structure Missing (p : Place) (s : State) : Prop where
  idle : ∀ t, (s.creator t).pc = .idle
  find : s.find p = none
  log : s.log p = []

/-! ## One name -/

section
variable {s s' : State} {p q : Place} {t : Nat} {type : FileType} {e : Entry}

theorem Place.eq_of {p q : Place} (hdir : p.dir = q.dir) (hna : p.name = q.name) : p = q := by
  cases p
  cases q
  exact congr (congrArg Place.mk hdir) hna

theorem children_append (s : State) (p q : Place) (type : FileType) : (s.append q type).children p.dir =
      if p.dir = q.dir then s.children p.dir ++ [(q.name, s.numInodes)] else s.children p.dir := by
  by_cases hdir : p.dir = q.dir
  · rw [if_pos hdir, hdir]
    exact update_self ..
  · rw [if_neg hdir]
    exact update_of_ne hdir ..

theorem children_erase (s : State) (p q : Place) : (s.erase q).children p.dir =
      if p.dir = q.dir then (s.children p.dir).eraseP (·.1 == q.name) else s.children p.dir := by
  by_cases hdir : p.dir = q.dir
  · rw [if_pos hdir, hdir]
    exact update_self ..
  · rw [if_neg hdir]
    exact update_of_ne hdir ..

theorem find_append_self (hp : s.find p = none) (type : FileType) : (s.append p type).find p = some s.numInodes := by
  unfold find at hp ⊢
  rw [children_append, if_pos rfl, lookup_append, hp]
  simp [lookup]

theorem find_append_ne (hpq : p ≠ q) (type : FileType) : (s.append q type).find p = s.find p := by
  unfold find
  rw [children_append]
  split
  · rename_i hdir
    have hna : (p.name == q.name) = false := beq_eq_false_iff_ne.mpr fun h => hpq (Place.eq_of hdir h)
    rw [lookup_append, lookup_cons, hna]
    exact or_none
  · rfl

theorem count_of_find (hp : s.find p = none) : (s.children p.dir).countP (·.1 == p.name) = 0 := by
  refine countP_eq_zero.mpr fun c hc hna => ?_
  exact lookup_none_iff.mp hp (mem_map.mpr ⟨c, hc, by simpa using hna⟩)

theorem find_erase_ne (hpq : p ≠ q) : (s.erase q).find p = s.find p := by
  unfold find
  rw [children_erase]
  split
  · rename_i hdir
    exact lookup_eraseP_ne fun h => hpq (Place.eq_of hdir h)
  · rfl

theorem log_note_self (s : State) (p : Place) (e : Entry) : (s.note p e).log p = e :: s.log p := update_self ..

theorem log_note_ne (hpq : p ≠ q) : (s.note q e).log p = s.log p := update_of_ne hpq ..

structure Onward (p : Place) (s s' : State) : Prop where
  log : s.log p <:+ s'.log p
  find : .removed ∉ s'.log p → ∀ i, s.find p = some i → s'.find p = some i

theorem erase_onward (s : State) (p q : Place) : Onward p s ((s.erase q).note q .removed) := by
  by_cases hpq : p = q
  · subst hpq
    refine ⟨?_, fun hr => ?_⟩
    · rw [log_note_self]
      exact suffix_cons _ _
    · rw [log_note_self] at hr
      exact absurd (.head _) hr
  · refine ⟨?_, fun _ i hi => ?_⟩
    · rw [log_note_ne hpq]
      exact suffix_refl _
    · exact (find_erase_ne hpq).trans hi

theorem append_onward (hq : s.find q = none) : Onward p s ((s.append q type).note q e) := by
  by_cases hpq : p = q
  · subst hpq
    refine ⟨?_, fun _ i hi => ?_⟩
    · rw [log_note_self]
      exact suffix_cons _ _
    · rw [hq] at hi
      cases hi
  · refine ⟨?_, fun _ i hi => ?_⟩
    · rw [log_note_ne hpq]
      exact suffix_refl _
    · exact (find_append_ne hpq type).trans hi

/-! ## The invariant -/

/-- What a caller for the name `p` has come to; without a removal, it makes at most three steps. -/
def Fits (p : Place) (s : State) (t : Nat) (c : Creator) : Prop :=
  match c.pc with
  | .idle => True
  | .resolving q depth => q = p ∧ depth = 0 ∧ c.steps = 0
  | .following .. => False
  | .creating q => q = p ∧ (.removed ∉ s.log p → c.steps ≤ 1)
  | .lookingUp q => q = p ∧ c.exclusive = false ∧ (.removed ∉ s.log p → c.steps ≤ 2 ∧ (s.find p).isSome)
  | .done (.ok i) => (c.exclusive = true → .created t i ∈ s.log p) ∧ (.removed ∉ s.log p → s.find p = some i)
  | .done (.error e) => c.starved = true ∨ c.exclusive = true ∧ e = .EEXIST

theorem Fits.onward {c : Creator} (h : Fits p s t c) (ho : Onward p s s') : Fits p s' t c := by
  have hke : .removed ∉ s'.log p → .removed ∉ s.log p := fun hr hs => hr (ho.log.subset hs)
  unfold Fits at h ⊢
  split at h
  · trivial
  · exact h
  · exact h
  · exact ⟨h.1, fun hr => h.2 (hke hr)⟩
  · refine ⟨h.1, h.2.1, fun hr => ?_⟩
    obtain ⟨hst, hfi⟩ := h.2.2 (hke hr)
    obtain ⟨i, hi⟩ := isSome_iff_exists.mp hfi
    exact ⟨hst, isSome_iff_exists.mpr ⟨i, ho.find hr i hi⟩⟩
  · exact ⟨fun hx => ho.log.subset (h.1 hx), fun hr => ho.find hr _ (h.2 (hke hr))⟩
  · exact h

structure Good (p : Place) (s : State) : Prop where
  linked : ∀ i, (p.name, i) ∈ s.children p.dir → s.type i ≠ .lnk ∧ i < s.numInodes
  single : (s.children p.dir).countP (·.1 == p.name) ≤ 1
  chain : (s.log p).IsChain fun a b => a = .removed ∨ b = .removed
  latest : ∀ t i, (s.log p).head? = some (.created t i) → s.find p = some i
  fits : ∀ t, (s.creator t).place = p → Fits p s t (s.creator t)

theorem Missing.good (h : Missing p s) : Good p s := by
  have hnn : p.name ∉ (s.children p.dir).map Prod.fst := lookup_none_iff.mp h.find
  refine ⟨fun i hi => absurd (mem_map_of_mem (f := Prod.fst) hi) hnn, ?_, ?_, ?_, fun t _ => ?_⟩
  · rw [count_of_find h.find]
    exact zero_le 1
  · rw [h.log]
    exact .nil
  · rw [h.log]
    exact nofun
  · unfold Fits
    rw [h.idle t]
    trivial

section
variable (h : Good p s)
include h

theorem Good.setCreator {c : Creator} (hc : c.place = p → Fits p s t c) : Good p (s.setCreator t c) := by
  refine ⟨h.linked, h.single, h.chain, h.latest, fun u hu => ?_⟩
  by_cases hut : u = t
  · subst hut
    have hse : (s.setCreator u c).creator u = c := update_self ..
    rw [hse] at hu ⊢
    exact hc hu
  · have hne : (s.setCreator t c).creator u = s.creator u := update_of_ne hut ..
    rw [hne] at hu ⊢
    exact h.fits u hu

theorem Good.erase (q : Place) : Good p ((s.erase q).note q .removed) := by
  have hsub : ((s.erase q).children p.dir).Sublist (s.children p.dir) := by
    rw [children_erase]
    split
    · exact eraseP_sublist
    · exact List.Sublist.refl _
  refine ⟨fun i hi => h.linked i (hsub.subset hi), hsub.countP_le.trans h.single, ?_, fun t i hi => ?_,
    fun t ht => (h.fits t ht).onward (erase_onward s p q)⟩
  · by_cases hpq : p = q
    · subst hpq
      rw [log_note_self]
      exact isChain_cons.mpr ⟨fun _ _ => .inl rfl, h.chain⟩
    · rw [log_note_ne hpq]
      exact h.chain
  · by_cases hpq : p = q
    · subst hpq
      rw [log_note_self] at hi
      cases hi
    · rw [log_note_ne hpq] at hi
      exact (find_erase_ne hpq).trans (h.latest t i hi)

theorem Good.append (hq : s.find q = none) (hty : q = p → type ≠ .lnk) (t : Nat) :
    Good p ((s.append q type).note q (.created t s.numInodes)) := by
  have hold : ∀ i, s.type i ≠ .lnk ∧ i < s.numInodes →
      (s.append q type).type i ≠ .lnk ∧ i < (s.append q type).numInodes := by
    rintro i ⟨hty, hlt⟩
    have hne : (s.append q type).type i = s.type i := update_of_ne (Nat.ne_of_lt hlt) ..
    rw [hne]
    exact ⟨hty, Nat.lt_succ_of_lt hlt⟩
  have hmem : ∀ c ∈ (s.append q type).children p.dir,
      c ∈ s.children p.dir ∨ p.dir = q.dir ∧ c = (q.name, s.numInodes) := by
    intro c hc
    rw [children_append] at hc
    split at hc
    · rename_i hdir
      rcases mem_append.mp hc with hc | hc
      · exact .inl hc
      · exact .inr ⟨hdir, mem_singleton.mp hc⟩
    · exact .inl hc
  refine ⟨fun i hi => ?_, ?_, ?_, fun u i hi => ?_, fun u hu => (h.fits u hu).onward (append_onward hq)⟩
  · rcases hmem _ hi with hi | ⟨hdir, hi⟩
    · exact hold i (h.linked i hi)
    · obtain ⟨hna, rfl⟩ := Prod.mk.inj hi
      have hnew : (s.append q type).type s.numInodes = type := update_self ..
      refine ⟨?_, Nat.lt_succ_self _⟩
      rw [← hnew] at hty
      exact hty (Place.eq_of hdir hna).symm
  · show ((s.append q type).children p.dir).countP (·.1 == p.name) ≤ 1
    rw [children_append]
    split
    · rename_i hdir
      rw [countP_append, countP_singleton]
      by_cases hna : q.name = p.name
      · obtain rfl := Place.eq_of hdir hna.symm
        rw [count_of_find hq]
        split <;> decide
      · rw [if_neg (by simpa using hna)]
        exact h.single
    · exact h.single
  · by_cases hpq : p = q
    · subst hpq
      rw [log_note_self]
      refine isChain_cons.mpr ⟨fun e he => ?_, h.chain⟩
      cases e with
      | removed => exact .inr rfl
      | created u i =>
        have hfo := h.latest u i he
        rw [hq] at hfo
        cases hfo
    · rw [log_note_ne hpq]
      exact h.chain
  · by_cases hpq : p = q
    · subst hpq
      rw [log_note_self] at hi
      obtain ⟨-, rfl⟩ := Entry.created.inj (some.inj hi)
      exact find_append_self hq type
    · rw [log_note_ne hpq] at hi
      exact (find_append_ne hpq type).trans (h.latest u i hi)

theorem Good.starve (t : Nat) : Good p (s.starve t) := h.setCreator fun _ => .inl rfl

theorem Good.resolved {depth : Nat} (hpc : (s.creator t).pc = .resolving q depth) :
    Good p (s.goto t (s.resolved t q depth)) := by
  refine h.setCreator fun hpl => ?_
  have hfi := h.fits t hpl
  unfold Fits at hfi
  rw [hpc] at hfi
  obtain ⟨rfl, rfl, hst⟩ := hfi
  unfold State.resolved
  cases hfn : s.find q with
  | none => exact ⟨rfl, fun _ => by show (s.creator t).steps + 1 ≤ 1; omega⟩
  | some i =>
    have hty := (h.linked i (mem_of_lookup hfn)).1
    simp only [if_neg hty, found]
    split
    · rename_i hx
      exact .inr ⟨hx, rfl⟩
    · rename_i hx
      exact ⟨fun hx' => absurd hx' hx, fun _ => hfn⟩

theorem Good.followed {i depth : Nat} (hpc : (s.creator t).pc = .following i depth) :
    Good p (s.goto t (s.followed t i depth)) := by
  refine h.setCreator fun hpl => ?_
  have hfi := h.fits t hpl
  unfold Fits at hfi
  rw [hpc] at hfi
  exact hfi.elim

theorem Good.lookedUp (hpc : (s.creator t).pc = .lookingUp q) :
    (∀ i, s.find q = some i → Good p (s.goto t (.done (.ok i)))) ∧
      (s.find q = none → Good p (s.goto t (.creating q))) := by
  have hfi : (s.creator t).place = p → Fits p s t (s.creator t) := h.fits t
  unfold Fits at hfi
  rw [hpc] at hfi
  refine ⟨fun i hi => h.setCreator fun hpl => ?_, fun hnn => h.setCreator fun hpl => ?_⟩
  · obtain ⟨rfl, hx, -⟩ := hfi hpl
    exact ⟨fun hx' => (Bool.false_ne_true (hx.symm.trans hx')).elim, fun _ => hi⟩
  · obtain ⟨rfl, -, hr⟩ := hfi hpl
    refine ⟨rfl, fun hre => ?_⟩
    have hso := (hr hre).2
    rw [hnn] at hso
    cases hso

theorem Good.create {a : Alloc} (hpc : (s.creator t).pc = .creating q)
    (hli : q = p → (s.creator t).type ≠ .lnk) : Good p (s.create t q a) := by
  have hfi : (s.creator t).place = p → Fits p s t (s.creator t) := h.fits t
  unfold Fits at hfi
  rw [hpc] at hfi
  unfold State.create
  split
  · exact h.starve t
  · split
    · rename_i hso
      refine h.setCreator fun hpl => ?_
      obtain ⟨rfl, hst⟩ := hfi hpl
      cases hx : (s.creator t).exclusive with
      | true => exact .inr ⟨hx, rfl⟩
      | false =>
        refine ⟨rfl, hx, fun hr => ⟨?_, hso⟩⟩
        have := hst hr
        show (s.creator t).steps + 1 ≤ 2
        omega
    · rename_i hnn
      have hfn : s.find q = none := by simpa using hnn
      split
      · exact h.starve t
      · refine (h.append hfn hli t).setCreator fun hpl => ?_
        obtain ⟨rfl, -⟩ := hfi hpl
        refine ⟨fun _ => ?_, fun _ => find_append_self hfn (s.creator t).type⟩
        rw [log_note_self]
        exact (.head _)

theorem Good.stepTask {a : Alloc} (hl : NoLink p s (.step t a)) (hs : s.stepTask t a = some s') : Good p s' := by
  unfold State.stepTask at hs
  cases hpc : (s.creator t).pc with
  | idle =>
    rw [hpc] at hs
    cases hs
  | done r =>
    rw [hpc] at hs
    cases hs
  | resolving q depth =>
    simp only [hpc, some.injEq] at hs
    subst hs
    split
    · exact h.resolved hpc
    · exact h.starve t
  | following i depth =>
    simp only [hpc, some.injEq] at hs
    subst hs
    split
    · exact h.followed hpc
    · exact h.starve t
  | creating q =>
    simp only [hpc, some.injEq] at hs
    subst hs
    exact h.create hpc fun hqp => hl (hqp ▸ hpc)
  | lookingUp q =>
    simp only [hpc] at hs
    obtain ⟨hso, hnn⟩ := h.lookedUp hpc
    cases hfi : s.find q with
    | some i =>
      simp only [hfi, some.injEq] at hs
      subst hs
      exact hso i hfi
    | none =>
      simp only [hfi, some.injEq] at hs
      subst hs
      exact hnn hfi

theorem Good.step {e : Event} (hl : NoLink p s e) (hs : s.Step e s') : Good p s' := by
  unfold Step at hs
  cases e with
  | call t q type exclusive =>
    simp only [exec] at hs
    split at hs
    · cases hs
      exact h.setCreator fun hpl => ⟨hpl, rfl, rfl⟩
    · cases hs
  | step t a => exact h.stepTask hl hs
  | unlink q =>
    simp only [exec, some.injEq] at hs
    subst hs
    unfold State.unlink
    split
    · exact h.erase q
    · exact h
  | write i x =>
    simp only [exec, some.injEq] at hs
    subst hs
    exact ⟨h.linked, h.single, h.chain, h.latest, h.fits⟩

end

end

/-! ## Runs -/

variable {s₀ s : State} {p : Place}

theorem run_good (h0 : Missing p s₀) (hrun : Run Step (NoLink p) s₀ s) : Good p s :=
  hrun.invariant h0.good fun _ _ _ h hs hl => h.step hl hs

theorem Good.log_le_one (h : Good p s) (hr : .removed ∉ s.log p) : (s.log p).length ≤ 1 := by
  match hlog : s.log p with
  | [] => exact zero_le 1
  | [_] => exact le_rfl
  | a :: b :: l =>
    have hch := h.chain
    rw [hlog] at hch hr
    rcases (isChain_cons_cons.mp hch).1 with rfl | rfl
    · exact absurd (.head _) hr
    · exact absurd (.tail _ (.head _)) hr

def Calls (p : Place) (s : State) (t : Nat) : Prop := (s.creator t).place = p ∧ (s.creator t).pc ≠ .idle

def Returned (p : Place) (s : State) (t : Nat) (exclusive : Bool) (r : Except Errno Nat) : Prop :=
  (s.creator t).place = p ∧ (s.creator t).exclusive = exclusive ∧ (s.creator t).pc = .done r
  deriving Decidable

/-- One caller creates the name; the other exclusive ones fail, and the rest get its inode. -/
structure OneWinner (p : Place) (s : State) : Prop where
  single : (s.children p.dir).countP (·.1 == p.name) ≤ 1
  created : (s.log p).length ≤ 1
  winner : ∀ t t' i j, s.Returned p t true (.ok i) → s.Returned p t' true (.ok j) → t = t'
  losers : ∀ t e, s.Returned p t true (.error e) → (s.creator t).starved = false → e = .EEXIST
  others : ∀ t e, s.Returned p t false (.error e) → (s.creator t).starved = true
  same : ∀ t t' x x' i j, s.Returned p t x (.ok i) → s.Returned p t' x' (.ok j) → i = j
  goesOn : ∀ t a, s.Calls p t → (∀ r, (s.creator t).pc ≠ .done r) → ∃ s', s.Step (.step t a) s'
  returns : ∀ t, s.Calls p t → 3 ≤ (s.creator t).steps → ∃ r, (s.creator t).pc = .done r

theorem Good.fits_returned (h : Good p s) {t : Nat} {x : Bool} {r : Except Errno Nat} (hr : s.Returned p t x r) :
    Fits p s t { s.creator t with exclusive := x, pc := .done r } := by
  obtain ⟨hpl, hx, hpc⟩ := hr
  have hfi := h.fits t hpl
  have hcr : s.creator t = { s.creator t with exclusive := x, pc := .done r } := by
    cases hc : s.creator t
    simp only [hc] at hx hpc
    rw [hx, hpc]
  rwa [hcr] at hfi

theorem exists_step {t : Nat} (a : Alloc) (hid : (s.creator t).pc ≠ .idle)
    (hdo : ∀ r, (s.creator t).pc ≠ .done r) : ∃ s', s.Step (.step t a) s' := by
  simp only [Step, exec, stepTask]
  cases hc : (s.creator t).pc with
  | idle => exact absurd hc hid
  | done r => exact absurd hc (hdo r)
  | resolving | following | creating => exact ⟨_, rfl⟩
  | lookingUp q =>
    cases hq : s.find q with
    | some i =>
      simp only [hq]
      exact ⟨_, rfl⟩
    | none =>
      simp only [hq]
      exact ⟨_, rfl⟩

theorem Good.oneWinner (h : Good p s) (hr : .removed ∉ s.log p) : OneWinner p s := by
  have hone := h.log_le_one hr
  refine ⟨h.single, hone, fun t t' i j ht ht' => ?_, fun t e ht hst => ?_, fun t e ht => ?_,
    fun t t' x x' i j ht ht' => ?_, fun t a ht hpc => ?_, fun t ht hse => ?_⟩
  · have hi := (h.fits_returned ht).1 rfl
    have hj := (h.fits_returned ht').1 rfl
    cases hlog : s.log p with
    | nil =>
      rw [hlog] at hi
      cases hi
    | cons e l =>
      rw [hlog] at hone hi hj
      obtain rfl : l = [] := eq_nil_of_length_eq_zero (le_zero.mp (le_of_succ_le_succ hone))
      have heq := (mem_singleton.mp hi).trans (mem_singleton.mp hj).symm
      exact (Entry.created.inj heq).1
  · rcases h.fits_returned ht with hs | hs
    · exact absurd hs (Bool.eq_false_iff.mp hst)
    · exact hs.2
  · rcases h.fits_returned ht with hs | hs
    · exact hs
    · cases hs.1
  · have hi := (h.fits_returned ht).2 hr
    have hj := (h.fits_returned ht').2 hr
    exact mem_unique hi hj
  · exact exists_step a ht.2 hpc
  · have hfi := h.fits t ht.1
    unfold Fits at hfi
    cases hc : (s.creator t).pc with
    | idle => exact absurd hc ht.2
    | done r => exact ⟨r, rfl⟩
    | resolving q depth =>
      rw [hc] at hfi
      omega
    | following i depth =>
      rw [hc] at hfi
      exact hfi.elim
    | creating q =>
      rw [hc] at hfi
      have := hfi.2 hr
      omega
    | lookingUp q =>
      rw [hc] at hfi
      have := (hfi.2.2 hr).1
      omega

theorem Good.removed_between (h : Good p s) {later mid before : List Entry} {t i t' j : Nat}
    (hlog : s.log p = later ++ .created t i :: (mid ++ .created t' j :: before)) : .removed ∈ mid := by
  have hch := h.chain
  rw [hlog] at hch
  have hta := (isChain_append.mp hch).2.1
  cases mid with
  | nil =>
    rcases (isChain_cons_cons.mp hta).1 with he | he
    · cases he
    · cases he
  | cons e mid =>
    rcases (isChain_cons_cons.mp hta).1 with he | rfl
    · cases he
    · exact (.head _)

theorem exclusive_creation (h₀ : Missing p s₀) (hrun : Run Step (NoLink p) s₀ s) :
    (.removed ∉ s.log p → OneWinner p s) ∧ (∀ t i, s.Returned p t true (.ok i) → .created t i ∈ s.log p) ∧
      ∀ later mid before t i t' j, s.log p = later ++ .created t i :: (mid ++ .created t' j :: before) →
        .removed ∈ mid := by
  have h := run_good h₀ hrun
  exact ⟨h.oneWinner, fun t i ht => (h.fits_returned ht).1 rfl, fun _ _ _ _ _ _ _ hlog => h.removed_between hlog⟩

def start : State where
  children _ := []
  type _ := .dir
  target _ := .node 0
  numInodes := 1
  root := 0
  creator _ := ⟨⟨0, []⟩, .reg, false, .idle, 0, false⟩
  log _ := []

theorem start_missing (p : Place) : Missing p start := ⟨fun _ => rfl, rfl, rfl⟩

theorem exclusive_creation_three : ∃ s, Run Step (NoLink ⟨0, [120]⟩) start s ∧
      ((s.creator 0).pc = .done (.ok 1) ∧ (s.creator 1).pc = .done (.error .EEXIST) ∧
        (s.creator 2).pc = .done (.ok 1) ∧ .removed ∉ s.log ⟨0, [120]⟩) ∧ OneWinner ⟨0, [120]⟩ s := by
  obtain ⟨s, hrun, hs⟩ := exists_follow exec (NoLink ⟨0, [120]⟩)
    [.call 0 ⟨0, [120]⟩ .reg true, .call 1 ⟨0, [120]⟩ .dir true, .call 2 ⟨0, [120]⟩ .reg false, .step 0 .enough,
      .step 1 .enough, .step 2 .enough, .step 0 .enough, .step 1 .enough, .step 2 .enough, .step 2 .enough] start
    (fun s => (s.creator 0).pc = .done (.ok 1) ∧ (s.creator 1).pc = .done (.error .EEXIST) ∧
      (s.creator 2).pc = .done (.ok 1) ∧ .removed ∉ s.log ⟨0, [120]⟩) (by decide +kernel)
  exact ⟨s, hrun, hs, (exclusive_creation (start_missing _) hrun).1 hs.2.2.2⟩

/-- The first caller makes a symbolic link; the others follow it, before and after the name of a missing file is
written to it. -/
theorem symlink_callers_differ : ∃ s, Run Step (fun _ _ => True) start s ∧
      (s.Returned ⟨0, [120]⟩ 0 true (.ok 1) ∧ s.Returned ⟨0, [120]⟩ 1 false (.ok 0) ∧
        s.Returned ⟨0, [120]⟩ 2 false (.error .ENOENT) ∧ s.Returned ⟨0, [120]⟩ 3 true (.error .ENOENT)) ∧
      (∀ t < 4, (s.creator t).starved = false) ∧ .removed ∉ s.log ⟨0, [120]⟩ := by
  refine exists_follow exec (fun _ _ => True)
    [.call 0 ⟨0, [120]⟩ .lnk true, .call 1 ⟨0, [120]⟩ .reg false, .call 2 ⟨0, [120]⟩ .reg false,
      .call 3 ⟨0, [120]⟩ .reg true, .step 0 .enough, .step 0 .enough, .step 1 .enough, .step 1 .enough,
      .write 1 (.last ⟨0, [121]⟩), .step 2 .enough, .step 2 .enough, .step 2 .enough, .step 3 .enough,
      .step 3 .enough, .step 3 .enough] start _ ?_
  decide +kernel

end State

end CreateRace

end Yagura
