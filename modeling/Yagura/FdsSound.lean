import Yagura.Fds

/-!
# Reference counts and descriptors

The reference count of a file is the number of descriptors that lead to it,
apart from what the call in progress still holds or has yet to drop. Each
function moves references between the descriptors and the call; a call that
ends with nothing in its hands leaves every count right.
-/

namespace Yagura.Fds

open Fds Function List Nat Option Prog

/-! ## References -/

def Table.uses (f : Nat) (t : Table) : Nat := tally OPEN_MAX t.entries fun e => if e = some f then 1 else 0

def refs (s : Fds) (f : Nat) : Nat :=
  tally s.numTables s.table (Table.uses f) + if s.console = some f then 1 else 0

def users (s : Fds) (i : Nat) : Nat := tally s.numTasks s.task fun o => if o = some i then 1 else 0

def one (f g : Nat) : Int := if g = f then 1 else 0

/-- Reference counts are right up to the references `x` that the call in progress holds. -/
structure Held (s : Fds) (x : Nat → Int) : Prop where
  count : ∀ f < s.numFiles, ((s.file f).refCount : Int) = s.refs f + x f
  freed : ∀ f < s.numFiles, ((s.file f).freed = true ↔ (s.file f).refCount = 0)
  closes : ∀ f < s.numFiles, (s.file f).closes = if (s.file f).freed then 1 else 0
  known : ∀ f, s.numFiles ≤ f → s.refs f = 0 ∧ x f = 0

structure Tabled (s : Fds) (k : Nat → Int) : Prop where
  count : ∀ i < s.numTables, ((s.table i).refCount : Int) = s.users i + k i
  task : ∀ t i, s.task t = some i → t < s.numTasks ∧ i < s.numTables
  known : ∀ i, s.numTables ≤ i → k i = 0

structure SameTables (s s' : Fds) : Prop where
  table : s'.table = s.table
  numTables : s'.numTables = s.numTables
  task : s'.task = s.task
  numTasks : s'.numTasks = s.numTasks
  console : s'.console = s.console

variable {s s' t : Fds} {x k : Nat → Int} {f i : Nat}
  {j flags : Nat} {fd : Int} {α : Type} {Q : α → Fds → Prop} {y : Nat → Int} {a : Table}
  {op : Call (Except Errno Nat)} {console : Bool}

theorem SameTables.refl (s : Fds) : SameTables s s := ⟨rfl, rfl, rfl, rfl, rfl⟩

theorem SameTables.trans (h : SameTables s s') (h' : SameTables s' t) : SameTables s t :=
  ⟨h'.table.trans h.table, h'.numTables.trans h.numTables, h'.task.trans h.task, h'.numTasks.trans h.numTasks,
    h'.console.trans h.console⟩

theorem SameTables.refs (h : SameTables s s') (f : Nat) : s'.refs f = s.refs f := by
  simp only [Fds.refs, h.table, h.numTables, h.console]

theorem SameTables.lookup (h : SameTables s s') (i : Nat) (fd : Int) : s'.lookup i fd = s.lookup i fd := by
  simp only [Fds.lookup, h.table]

theorem SameTables.tabled (h : SameTables s s') (hk : Tabled s k) : Tabled s' k := by
  refine ⟨fun i hi => ?_, fun t i hi => ?_, fun i hi => hk.known i (h.numTables ▸ hi)⟩
  · simp only [users, h.table, h.task, h.numTasks]
    exact hk.count i (h.numTables ▸ hi)
  · rw [h.task] at hi
    rw [h.numTasks, h.numTables]
    exact hk.task t i hi

/-! ## Files -/

theorem Held.lt (h : Held s x) (hf : 0 < s.refs f + x f) : f < s.numFiles := by
  by_contra hlt
  obtain ⟨h0, h1⟩ := h.known f (by omega)
  omega

theorem Held.not_freed (h : Held s x) (hf : 0 < s.refs f + x f) : (s.file f).freed = false := by
  have h1 := h.count f (h.lt hf)
  have h2 := h.freed f (h.lt hf)
  cases hb : (s.file f).freed
  · rfl
  · have := h2.mp hb
    omega

theorem useFile_bind {next : File → Call α} (h : Held s x) (hf : 0 < s.refs f + x f)
    (hnx : Yields (next (s.file f)) s Q) : Yields (useFile f >>= next) s Q :=
  .run_bind (by simp [useFile, look, h.not_freed hf]) hnx

theorem Held.setFile {a : File} {d : Int} (h : Held s x) (hf : f < s.numFiles) (hy : ∀ g, y g = x g + d * one f g)
    (hc : (a.refCount : Int) = (s.file f).refCount + d) (hfr : a.freed = true ↔ a.refCount = 0)
    (hcl : a.closes = if a.freed then 1 else 0) : Held (s.setFile f a) y := by
  rw [funext hy]
  refine ⟨fun g hg => ?_, fun g hg => ?_, fun g hg => ?_, fun g hg => ?_⟩
  · by_cases he : g = f
    · subst he
      have := h.count g hf
      simp only [Fds.setFile, update_self, one, if_true]
      change _ = (s.refs g : Int) + _
      omega
    · simp only [Fds.setFile, update_of_ne he, one, he, if_false]
      have := h.count g hg
      change _ = (s.refs g : Int) + _
      omega
  · by_cases he : g = f
    · subst he
      simpa [Fds.setFile] using hfr
    · simpa [Fds.setFile, he] using h.freed g hg
  · by_cases he : g = f
    · subst he
      simpa [Fds.setFile] using hcl
    · simpa [Fds.setFile, he] using h.closes g hg
  · have hne : g ≠ f := by
      rintro rfl
      exact absurd hf (not_lt.mpr hg)
    obtain ⟨h0, h1⟩ := h.known g hg
    exact ⟨h0, by simp [one, hne, h1]⟩

theorem setFile_same (s : Fds) (f : Nat) (a : File) : SameTables s (s.setFile f a) := ⟨rfl, rfl, rfl, rfl, rfl⟩

theorem Held.congr (h : Held s x) (he : ∀ f, x f = y f) : Held s y := by
  rwa [← (funext he : x = y)]

def counted (s : Fds) (f : Nat) : Fds := s.setFile f { s.file f with refCount := (s.file f).refCount + 1 }

theorem fileRef_yields (h : Held s x) (hf : 0 < s.refs f + x f) :
    Yields (fileRef f) s fun _ t => Held t (fun g => x g + one f g) ∧ SameTables s t ∧ t = s.counted f := by
  refine useFile_bind h hf ?_
  have hlt := h.lt hf
  have hpos := h.count f hlt
  have hnf := h.freed f hlt
  refine .modify ⟨h.setFile (d := 1) hlt (fun g => by ring) (by simp) ?_ ?_, setFile_same _ _ _, rfl⟩
  swap
  · exact h.closes f hlt
  constructor
  · intro hfr
    have := hnf.mp hfr
    omega
  · intro h0
    simp at h0

def closed (s : Fds) (f : Nat) : Fds :=
  let file := s.file f
  s.setFile f (if file.refCount - 1 > 0 then { file with refCount := file.refCount - 1 }
    else { file with refCount := file.refCount - 1, closes := file.closes + 1, freed := true })

theorem fileClose_yields (h : Held s x) (hf : 0 < s.refs f + x f) :
    Yields (fileClose f) s fun r t => r = .ok () ∧ Held t (fun g => x g - one f g) ∧ SameTables s t ∧ t = s.closed f := by
  have hlt := h.lt hf
  have hco := h.count f hlt
  have hfr := h.freed f hlt
  have hcl := h.closes f hlt
  have hpos : 0 < (s.file f).refCount := by omega
  have hnf := h.not_freed hf
  refine useFile_bind h hf (.bind (P := fun _ u => u = s) ⟨(), s, by simp [ensure, hpos], rfl⟩ ?_)
  rintro _ u rfl
  by_cases h1 : (u.file f).refCount - 1 > 0
  · rw [if_pos h1]
    refine .modify_bind (.pure ⟨rfl, ?_⟩)
    refine ⟨h.setFile (d := -1) hlt (fun g => by ring) ?_ ?_ ?_, setFile_same _ _ _, by simp only [closed, if_pos h1]⟩
    · push_cast [cast_sub hpos]
      ring
    swap
    · exact hcl
    rw [hfr]
    constructor
    · intro h0
      omega
    · intro h0
      have : (u.file f).refCount - 1 = 0 := h0
      omega
  · rw [if_neg h1]
    refine .modify_bind (.pure ⟨rfl, ?_⟩)
    have hone : (u.file f).refCount = 1 := by omega
    refine ⟨h.setFile (d := -1) hlt (fun g => by ring) (by simp [hone]) ?_ ?_, setFile_same _ _ _,
      by simp only [closed, if_neg h1]⟩
    · simp [hone]
    · simp [hcl, hnf]

theorem newFile_yields (h : Held s x) (type : InodeType) (flags : Nat) :
    Yields (newFile type flags) s fun f t => f = s.numFiles ∧ Held t (fun g => x g + one f g) ∧ SameTables s t := by
  refine ⟨_, _, rfl, rfl, ⟨fun g hg => ?_, fun g hg => ?_, fun g hg => ?_, fun g hg => ?_⟩, ⟨rfl, rfl, rfl, rfl, rfl⟩⟩
  · by_cases he : g = s.numFiles
    · subst he
      obtain ⟨h0, h1⟩ := h.known s.numFiles le_rfl
      change _ = (s.refs s.numFiles : Int) + _
      simp [setFile, one, h0, h1]
    · have := h.count g (by simp only at hg; omega)
      change _ = (s.refs g : Int) + _
      simpa [setFile, one, he] using this
  · by_cases he : g = s.numFiles
    · subst he; simp [setFile]
    · simpa [setFile, he] using h.freed g (by simp only at hg; omega)
  · by_cases he : g = s.numFiles
    · subst he; simp [setFile]
    · simpa [setFile, he] using h.closes g (by simp only at hg; omega)
  · simp only at hg
    obtain ⟨h0, h1⟩ := h.known g (by omega)
    exact ⟨h0, by simp [one, h1, show g ≠ s.numFiles by omega]⟩

/-! ## Opening -/

theorem one_nonneg (f g : Nat) : 0 ≤ one f g := by
  unfold one
  split_ifs <;> omega

theorem one_self (f : Nat) : one f f = 1 := if_pos rfl

theorem new_pos (hf : x f = 0) : 0 < (s.refs f : Int) + (x f + one f f) := by
  rw [one_self]
  omega

theorem fileClose_bind {next : Except Errno Unit → Call α} (h : Held s fun g => x g + one f g) (hf : x f = 0)
    (hnx : ∀ t, SameTables s t → Held t x → Yields (next (.ok ())) t Q) : Yields (fileClose f >>= next) s Q := by
  refine .bind (fileClose_yields h (new_pos hf)) ?_
  rintro _ t ⟨rfl, ht, hsa, -⟩
  exact hnx t hsa (ht.congr fun g => by ring)

def Target.Opens (x : Target) (flags : Nat) : Prop :=
  accmode flags ≠ 3 ∧ (accmode flags ≠ O_RDONLY → x.type ≠ .directory) ∧ x.memory = true ∧ x.openRc = none
  deriving Decidable

/-- `inode_open` forgets the file it has: the inode is a directory, to be truncated. -/
def Target.Leaks (x : Target) (flags : Nat) : Prop := x.Opens flags ∧ truncates flags = true ∧ x.type = .directory
  deriving Decidable

def Link.Followed (l : Link) : Prop := l.memory = true ∧ l.openRc = none ∧ l.readRc = none ∧ l.room = true
  deriving Decidable

def Walk.Reaches (w : Walk) (x : Target) : Prop := (∀ l ∈ w.links, l.Followed) ∧ w.result = .ok x

def Walk.Opens (w : Walk) (flags : Nat) : Prop := ∃ x, w.Reaches x ∧ x.Opens flags

def Walk.Leaks (w : Walk) (flags : Nat) : Prop := ∃ x, w.Reaches x ∧ x.Leaks flags

def OpenPost (s : Fds) (x : Nat → Int) (flags : Nat) (opens leaks : Prop) (r : Except Errno Nat) (t : Fds) : Prop :=
  SameTables s t ∧
    match r with
    | .ok f => opens ∧ ¬ leaks ∧ x f = 0 ∧ Held t (fun g => x g + one f g)
    | .error _ =>
      leaks ∧ (∃ f, Held t fun g => x g + one f g) ∨
        ¬ leaks ∧ Held t x ∧ (truncates flags = false → ¬ opens)

theorem inodeOpen_yields (h : Held s x) (y : Target) (flags : Nat) :
    Yields (inodeOpen y flags) s (OpenPost s x flags (y.Opens flags) (y.Leaks flags)) := by
  have fail : ∀ e : Errno, ¬ y.Opens flags →
      Yields (pure (.error e) : Call (Except Errno Nat)) s (OpenPost s x flags (y.Opens flags) (y.Leaks flags)) :=
    fun e hno => .pure ⟨.refl s, .inr ⟨fun hl => hno hl.1, h, fun _ => hno⟩⟩
  unfold inodeOpen
  by_cases h3 : accmode flags = 3
  · rw [if_pos h3]
    exact fail _ fun ho => ho.1 h3
  rw [if_neg h3]
  by_cases hd : accmode flags ≠ O_RDONLY ∧ y.type = .directory
  · rw [if_pos hd]
    exact fail _ fun ho => ho.2.1 hd.1 hd.2
  rw [if_neg hd]
  by_cases hm : y.memory = false
  · rw [if_pos hm]
    exact fail _ fun ho => by rw [ho.2.2.1] at hm; cases hm
  rw [if_neg hm]
  cases ho : y.openRc with
  | some e => exact fail e fun h' => by rw [h'.2.2.2] at ho; cases ho
  | none =>
    have hop : y.Opens flags := ⟨h3, fun h1 h2 => hd ⟨h1, h2⟩, by simpa using hm, ho⟩
    refine .bind (newFile_yields h y.type flags) ?_
    rintro f t ⟨hf, hhe, hsa⟩
    unfold openTrunc
    split_ifs with htr hdir
    · exact .pure ⟨hsa, .inl ⟨⟨hop, htr, hdir⟩, f, hhe⟩⟩
    · have hno : ¬ y.Leaks flags := fun hl => hdir hl.2.2
      cases ht : y.truncRc with
      | none => exact .pure ⟨hsa, hop, hno, (h.known f hf.ge).2, hhe⟩
      | some e =>
        refine fileClose_bind hhe (h.known f hf.ge).2 fun u hsa' hu => .pure ?_
        refine ⟨hsa.trans hsa', .inr ⟨hno, hu, fun h => ?_⟩⟩
        rw [htr] at h
        cases h
    · exact .pure ⟨hsa, hop, fun hl => htr hl.2.1, (h.known f hf.ge).2, hhe⟩

theorem truncates_zero : truncates O_RDONLY = false := rfl

theorem followSymlink_yields (h : Held s x) (l : Link) :
    Yields (followSymlink l) s fun r t => SameTables s t ∧ Held t x ∧ (r = .ok () ↔ l.Followed) := by
  refine .bind (inodeOpen_yields h ⟨.symlink, l.memory, l.openRc, none⟩ O_RDONLY) ?_
  rintro (e | f) t ⟨hsa, hpo⟩
  · obtain ⟨hl, -⟩ | ⟨-, hhe, hno⟩ := hpo
    · cases hl.2.1
    · refine .pure ⟨hsa, hhe, ⟨nofun, fun hf => absurd ?_ (hno truncates_zero)⟩⟩
      exact ⟨by decide, fun _ => by simp, hf.1, hf.2.1⟩
  · obtain ⟨hop, -, hf, hhe⟩ := hpo
    refine useFile_bind hhe (new_pos hf) (fileClose_bind hhe hf fun u hsa' hx => ?_)
    cases hr : l.readRc with
    | some e => exact .pure ⟨hsa.trans hsa', hx, ⟨nofun, fun hf => by rw [hf.2.2.1] at hr; cases hr⟩⟩
    | none =>
      by_cases hro : l.room = true
      · simp only [hro, if_true]
        exact .pure ⟨hsa.trans hsa', hx, ⟨fun _ => ⟨hop.2.2.1, hop.2.2.2, hr, hro⟩, fun _ => rfl⟩⟩
      · simp only [hro]
        exact .pure ⟨hsa.trans hsa', hx, ⟨nofun, fun hf => absurd hf.2.2.2 hro⟩⟩

theorem followLinks_yields (h : Held s x) (ls : List Link) :
    Yields (followLinks ls) s fun r t => SameTables s t ∧ Held t x ∧ (r = .ok () ↔ ∀ l ∈ ls, l.Followed) := by
  induction ls generalizing s with
  | nil => exact .pure ⟨.refl s, h, by simp⟩
  | cons l ls ih =>
    refine .bind (followSymlink_yields h l) ?_
    rintro (e | u) t ⟨hsa, hhe, hr⟩
    · refine .pure ⟨hsa, hhe, ⟨nofun, fun hf => ?_⟩⟩
      exact hr.mpr (hf l (.head _))
    · refine (ih hhe).mono ?_
      rintro r u ⟨hsa', hhe', hr'⟩
      refine ⟨hsa.trans hsa', hhe', hr'.trans ?_⟩
      simp [hr.mp rfl]

theorem vfsResolve_yields (h : Held s x) (w : Walk) :
    Yields (vfsResolve w) s fun r t => SameTables s t ∧ Held t x ∧ ∀ y, r = .ok y ↔ w.Reaches y := by
  refine .bind (followLinks_yields h w.links) ?_
  rintro (e | u) t ⟨hsa, hhe, hr⟩
  · refine .pure ⟨hsa, hhe, fun y => ⟨nofun, fun hy => ?_⟩⟩
    cases hr.mpr hy.1
  · exact .pure ⟨hsa, hhe, fun y => ⟨fun hy => ⟨hr.mp rfl, hy⟩, fun hy => hy.2⟩⟩

theorem Walk.Reaches.unique {w : Walk} {y z : Target} (hy : w.Reaches y) (hz : w.Reaches z) : y = z :=
  Except.ok.inj (hy.2.symm.trans hz.2)

theorem vfsOpen_yields (h : Held s x) (w : Walk) (flags : Nat) :
    Yields (vfsOpen w flags) s (OpenPost s x flags (w.Opens flags) (w.Leaks flags)) := by
  refine .bind (vfsResolve_yields h w) ?_
  rintro (e | y) t ⟨hsa, hhe, hr⟩
  · have hno : ∀ y, ¬ w.Reaches y := fun y hy => by cases (hr y).mpr hy
    refine .pure ⟨hsa, .inr ⟨?_, hhe, fun _ => ?_⟩⟩
    · rintro ⟨y, hy, -⟩
      exact hno y hy
    · rintro ⟨y, hy, -⟩
      exact hno y hy
  · have hy := (hr y).mp rfl
    have hop : w.Opens flags ↔ y.Opens flags :=
      ⟨fun ⟨z, hz, ho⟩ => hy.unique hz ▸ ho, fun ho => ⟨y, hy, ho⟩⟩
    have hle : w.Leaks flags ↔ y.Leaks flags :=
      ⟨fun ⟨z, hz, ho⟩ => hy.unique hz ▸ ho, fun ho => ⟨y, hy, ho⟩⟩
    refine (inodeOpen_yields hhe y flags).mono ?_
    rintro r u ⟨hsa', hpo⟩
    rw [propext hop, propext hle]
    exact ⟨hsa.trans hsa', hpo⟩

/-! ## Descriptors -/

theorem setEntry_uses (s : Fds) {i : Nat} (hj : j < OPEN_MAX) (e : Option Nat) (g : Nat) :
    Table.uses g ((s.setEntry i j e).table i) + (if (s.table i).entries j = some g then 1 else 0) =
      Table.uses g (s.table i) + if e = some g then 1 else 0 := by
  simp only [Table.uses, setEntry, setTable, update_self]
  exact tally_update (fun e => if e = some g then 1 else 0) hj e

theorem setEntry_refs (s : Fds) {i : Nat} (hi : i < s.numTables) (hj : j < OPEN_MAX) (e : Option Nat) (g : Nat) :
    (s.setEntry i j e).refs g + (if (s.table i).entries j = some g then 1 else 0) =
      s.refs g + if e = some g then 1 else 0 := by
  have h1 := setEntry_uses s (i := i) hj e g
  have h2 := tally_update (g := s.table) (Table.uses g) hi ((s.setEntry i j e).table i)
  have h3 : update s.table i ((s.setEntry i j e).table i) = (s.setEntry i j e).table := by
    simp [setEntry, setTable]
  rw [h3] at h2
  have h4 : (s.setEntry i j e).refs g = tally s.numTables (s.setEntry i j e).table (Table.uses g) +
      if s.console = some g then 1 else 0 := rfl
  rw [h4, refs]
  omega

theorem Held.setEntry {e : Option Nat} (h : Held s x) (hi : i < s.numTables) (hj : j < OPEN_MAX)
    (he : ∀ f, e = some f → f < s.numFiles)
    (hy : ∀ g, y g = x g + (if (s.table i).entries j = some g then 1 else 0) - if e = some g then 1 else 0) :
    Held (s.setEntry i j e) y := by
  have hre := setEntry_refs s hi hj e
  refine ⟨fun g hg => ?_, h.freed, h.closes, fun g hg => ?_⟩
  · have h1 := h.count g hg
    have h2 := hre g
    have h3 := hy g
    change ((s.file g).refCount : Int) = _
    split_ifs at h2 h3 <;> omega
  · obtain ⟨h1, h2⟩ := h.known g hg
    have h3 := hre g
    have h4 := hy g
    have h5 : e ≠ some g := fun h' => absurd (he g h') (not_lt.mpr hg)
    split_ifs at h3 h4 <;> omega

theorem Tabled.setEntry {e : Option Nat} (h : Tabled s k) : Tabled (s.setEntry i j e) k := by
  refine ⟨fun m hm => ?_, h.task, h.known⟩
  have hco := h.count m hm
  change _ = (s.users m : Int) + k m
  by_cases he : m = i
  · subst he
    simpa [Fds.setEntry, setTable] using hco
  · simpa [Fds.setEntry, setTable, he] using hco

theorem refs_pos (hi : i < s.numTables) (hj : j < OPEN_MAX) (he : (s.table i).entries j = some f) : 0 < s.refs f := by
  have h1 := le_tally (g := s.table) (Table.uses f) hi
  have h2 := le_tally (g := (s.table i).entries) (fun e => if e = some f then 1 else 0) hj
  simp only [he, if_true] at h2
  have h3 : 1 ≤ Table.uses f (s.table i) := h2
  unfold refs
  omega

theorem lookup_ok (h : s.lookup i fd = .ok f) :
    0 ≤ fd ∧ fd < OPEN_MAX ∧ fd.toNat < OPEN_MAX ∧ (s.table i).entries fd.toNat = some f := by
  unfold lookup at h
  split_ifs at h with hb
  split at h
  · rename_i g hg
    cases h
    exact ⟨by omega, by omega, by omega, hg⟩
  · cases h

theorem taskGetFile_yields (s : Fds) (i : Nat) (fd : Int) :
    Yields (taskGetFile i fd) s fun r t => r = s.lookup i fd ∧ t = s := ⟨_, _, rfl, rfl, rfl⟩

def Free (s : Fds) (i n : Nat) : Prop := n < OPEN_MAX ∧ (s.table i).entries n = none

def Chosen (s : Fds) (i : Nat) (fd : Int) (n : Nat) : Prop :=
  s.Free i n ∧ if 0 ≤ fd then (n : Int) = fd else ∀ m, s.Free i m → n ≤ m

theorem taskAlloc_yields (s : Fds) (i : Nat) (fd : Int) (f : Nat) :
    Yields (taskAllocFileDescriptor i fd f) s fun r t =>
      match r with
      | .ok j => s.Chosen i fd j ∧ t = s.setEntry i j (some f)
      | .error _ => t = s ∧ ∀ j, ¬ s.Chosen i fd j := by
  refine .get ?_
  unfold Chosen
  split_ifs with h1 h2 h2 h3
  · exact .pure ⟨rfl, fun j hj => by have := hj.1.1; omega⟩
  · omega
  · refine .pure ⟨rfl, fun j hj => ?_⟩
    obtain rfl : j = fd.toNat := by omega
    simp [hj.1.2] at h3
  · exact .modify_bind (.pure ⟨⟨⟨by omega, by simpa using h3⟩, by omega⟩, rfl⟩)
  · cases hf : (range OPEN_MAX).find? fun j => ((s.table i).entries j).isNone with
    | none =>
      rw [find?_range_eq_none] at hf
      exact .pure ⟨rfl, fun j hj => by simpa [hj.1.2] using hf j hj.1.1⟩
    | some j =>
      obtain ⟨hj, hlt, hlow⟩ := find?_range_eq_some.mp hf
      refine .modify_bind (.pure ⟨⟨⟨mem_range.mp hlt, by simpa using hj⟩, fun m hm => ?_⟩, rfl⟩)
      by_contra hmj
      simpa [hm.2] using hlow m (by omega)

theorem taskFree_yields (h : s.lookup i fd = .ok f) :
    Yields (taskFreeFileDescriptor i fd) s fun r t => r = .ok 0 ∧ t = s.setEntry i fd.toNat none := by
  obtain ⟨h0, h1, -, h2⟩ := lookup_ok h
  refine .get ?_
  rw [if_neg (by omega), if_neg (by simp [h2])]
  exact .modify_bind (.pure ⟨rfl, rfl⟩)

theorem ite_some (f g : Nat) : (if some f = some g then (1 : Int) else 0) = one f g := by
  simp only [one, some.injEq, eq_comm]

theorem installFile_yields (h : Held s fun g => x g + one f g) (hf : x f = 0) (hk : Tabled s k)
    (hi : i < s.numTables) : Yields (installFile i f) s fun _ t => Held t x ∧ Tabled t k := by
  refine .bind (taskAlloc_yields s i (-1) f) ?_
  rintro (e | j) t ht
  · obtain rfl : t = s := ht.1
    exact fileClose_bind h hf fun u hsa hu => .pure ⟨hu, hsa.tabled hk⟩
  · obtain ⟨⟨⟨hj, hnn⟩, -⟩, rfl⟩ := ht
    refine .pure ⟨h.setEntry hi hj ?_ ?_, hk.setEntry⟩
    · rintro _ ⟨⟩
      exact h.lt (new_pos hf)
    · intro g
      rw [hnn, ite_some]
      simp

def Filled (s : Fds) (i : Nat) (fd : Int) (f : Nat) (r : Except Errno Nat) (t : Fds) : Prop :=
  match r with
  | .ok j => s.Chosen i fd j ∧ t = (s.setEntry i j (some f)).counted f
  | .error _ => t = s ∧ ∀ j, ¬ s.Chosen i fd j

theorem dupFile_yields (h : Held s x) (hf : 0 < s.refs f + x f) (hk : Tabled s k) (hi : i < s.numTables) :
    Yields (dupFile i fd f) s fun r t => (Held t x ∧ Tabled t k) ∧ Filled s i fd f r t := by
  refine .bind (taskAlloc_yields s i fd f) ?_
  rintro (e | j) t ht
  · obtain rfl : t = s := ht.1
    exact .pure ⟨⟨h, hk⟩, ht⟩
  · obtain ⟨hch, rfl⟩ := ht
    obtain ⟨hj, hnn⟩ := hch.1
    have h' : Held (s.setEntry i j (some f)) fun g => x g - one f g := by
      refine h.setEntry hi hj ?_ ?_
      · rintro _ ⟨⟩
        exact h.lt hf
      · intro g
        rw [hnn, ite_some]
        simp
    have hre := setEntry_refs s hi hj (some f) f
    simp only [hnn, if_true] at hre
    refine .bind (fileRef_yields h' ?_) ?_
    · rw [one_self]
      simp at hre
      omega
    · rintro _ u ⟨hu, hsa, rfl⟩
      exact .pure ⟨⟨hu.congr fun g => by ring, hsa.tabled hk.setEntry⟩, hch, rfl⟩

theorem closeFd_yields (h : Held s x) (hf : 0 < s.refs f + x f) (hk : Tabled s k) (hi : i < s.numTables)
    (hfd : s.lookup i fd = .ok f) :
    Yields (do
      match ← fileClose f with
      | .error e => pure (.error e)
      | .ok () => taskFreeFileDescriptor i fd) s fun r t =>
        (∃ n, r = .ok n) ∧ Held t x ∧ Tabled t k ∧ t = (s.closed f).setEntry i fd.toNat none := by
  obtain ⟨h0, h1, hj, he⟩ := lookup_ok hfd
  refine .bind (fileClose_yields h hf) ?_
  rintro _ t ⟨rfl, ht, hsa, rfl⟩
  refine (taskFree_yields (f := f) (hsa.lookup i fd ▸ hfd)).mono ?_
  rintro _ u ⟨rfl, rfl⟩
  refine ⟨⟨0, rfl⟩, ht.setEntry (hsa.numTables ▸ hi) hj nofun ?_, (hsa.tabled hk).setEntry, rfl⟩
  intro g
  rw [hsa.table, he, ite_some]
  simp

/-! ## Tables -/

theorem setTable_refs (s : Fds) (ha : a.entries = (s.table i).entries) (g : Nat) :
    (s.setTable i a).refs g = s.refs g := by
  have hu : ∀ m, Table.uses g (update s.table i a m) = Table.uses g (s.table m) := by
    intro m
    by_cases he : m = i
    · subst he
      simp only [update_self, Table.uses, ha]
    · rw [update_of_ne he]
  have ht : tally s.numTables (update s.table i a) (Table.uses g) = tally s.numTables s.table (Table.uses g) :=
    Finset.sum_congr rfl fun m _ => hu m
  exact congrArg (· + if s.console = some g then 1 else 0) ht

theorem Held.setTable (h : Held s x) (ha : a.entries = (s.table i).entries) : Held (s.setTable i a) x := by
  have hre := setTable_refs s ha
  refine ⟨fun g hg => ?_, h.freed, h.closes, fun g hg => ?_⟩
  · rw [hre]
    exact h.count g hg
  · rw [hre]
    exact h.known g hg

theorem Tabled.setTable {d : Int} (h : Tabled s k) (hi : i < s.numTables)
    (ha : (a.refCount : Int) = (s.table i).refCount + d) : Tabled (s.setTable i a) fun j => k j + d * one i j := by
  refine ⟨fun m hm => ?_, h.task, fun m hm => ?_⟩
  · have hco := h.count m hm
    change _ = (s.users m : Int) + _
    by_cases he : m = i
    · subst he
      simp only [Fds.setTable, update_self, one_self]
      omega
    · simp only [Fds.setTable, update_of_ne he, one, he, if_false]
      omega
  · have hne : m ≠ i := by
      rintro rfl
      exact absurd hi (not_lt.mpr hm)
    simp [one, hne, h.known m hm]

theorem Tabled.congr {k' : Nat → Int} (h : Tabled s k) (he : ∀ i, k i = k' i) : Tabled s k' := by
  rwa [← (funext he : k = k')]

theorem closeEntry_yields (h : Held s 0) (hk : Tabled s k) (hi : i < s.numTables) (hj : j < OPEN_MAX) :
    Yields (closeEntry i j) s fun _ t => Held t 0 ∧ Tabled t k ∧ t.task = s.task ∧ t.numTasks = s.numTasks ∧
      t.numTables = s.numTables := by
  refine .get ?_
  cases he : (s.table i).entries j with
  | none => exact .pure ⟨h, hk, rfl, rfl, rfl⟩
  | some f =>
    have hpos := refs_pos hi hj he
    refine .bind (fileClose_yields h (f := f) (by simpa using hpos)) ?_
    rintro _ t ⟨-, ht, hsa, -⟩
    refine .modify ⟨ht.setEntry (hsa.numTables ▸ hi) hj nofun ?_, (hsa.tabled hk).setEntry, hsa.task,
      hsa.numTasks, hsa.numTables⟩
    intro g
    rw [hsa.table, he, ite_some]
    simp

theorem filesUnref_yields (h : Held s 0) (hk : Tabled s k) (hi : i < s.numTables) (hpos : 0 < s.users i + k i) :
    Yields (filesUnref i) s fun _ t => Held t 0 ∧ Tabled t (fun j => k j - one i j) ∧ t.task = s.task ∧
      t.numTasks = s.numTasks ∧ t.numTables = s.numTables := by
  have hco := hk.count i hi
  have hrc : 0 < (s.table i).refCount := by omega
  refine .get (.bind (P := fun _ u => u = s) ⟨(), s, by simp [ensure, hrc], rfl⟩ ?_)
  rintro _ u rfl
  have hhe : Held (u.setTable i { u.table i with refCount := (u.table i).refCount - 1 }) 0 := h.setTable rfl
  have hta : Tabled (u.setTable i { u.table i with refCount := (u.table i).refCount - 1 })
      fun j => k j - one i j := by
    refine (hk.setTable (d := -1) hi ?_).congr fun j => by ring
    push_cast [cast_sub hrc]
    ring
  refine .modify_bind ?_
  split_ifs with h1
  · exact .pure ⟨hhe, hta, rfl, rfl, rfl⟩
  · refine .mono (.forUp (I := fun _ t => Held t 0 ∧ Tabled t (fun j => k j - one i j) ∧ t.task = u.task ∧
      t.numTasks = u.numTasks ∧ t.numTables = u.numTables) ⟨hhe, hta, rfl, rfl, rfl⟩ ?_) fun _ _ ht => ht
    rintro j t - hj ⟨ht, hkt, h3, h4, h5⟩
    refine (closeEntry_yields ht hkt (h5 ▸ hi) (by omega)).mono ?_
    rintro _ v ⟨hv, hkv, h6, h7, h8⟩
    exact ⟨hv, hkv, h6.trans h3, h7.trans h4, h8.trans h5⟩

theorem Held.uses_eq_zero (h : Held s x) (hi : i < s.numTables) (hf : s.numFiles ≤ f) :
    Table.uses f (s.table i) = 0 := by
  have h1 := le_tally (g := s.table) (Table.uses f) hi
  have h2 := (h.known f hf).1
  unfold refs at h2
  omega

theorem newTable_yields (h : Held s 0) (hk : Tabled s k) (hi : i < s.numTables) :
    Yields (newTable (s.table i).entries) s fun j t => j = s.numTables ∧ t.numTables = s.numTables + 1 ∧
      t.task = s.task ∧ t.numTasks = s.numTasks ∧ (∀ f, t.refs f = s.refs f + Table.uses f (s.table i)) ∧
      Held t (fun f => -(Table.uses f (s.table i) : Int)) ∧ Tabled t (fun m => k m + one j m) := by
  have hre : ∀ g, refs { s.setTable s.numTables ⟨1, (s.table i).entries⟩ with
      numTables := s.numTables + 1 } g = s.refs g + Table.uses g (s.table i) := by
    intro g
    have ht : tally (s.numTables + 1) (update s.table s.numTables ⟨1, (s.table i).entries⟩) (Table.uses g) =
        tally s.numTables s.table (Table.uses g) + Table.uses g (s.table i) := by
      rw [tally_succ, tally_update_ge _ le_rfl, update_self]
      rfl
    exact (congrArg (· + if s.console = some g then 1 else 0) ht).trans (add_right_comm _ _ _)
  refine ⟨_, _, rfl, rfl, rfl, rfl, rfl, hre, ⟨fun g hg => ?_, h.freed, h.closes, fun g hg => ?_⟩,
    fun m hm => ?_, fun t m hm => ?_, fun m hm => ?_⟩
  · rw [hre]
    have := h.count g hg
    simp only [Pi.zero_apply] at this
    change ((s.file g).refCount : Int) = _
    omega
  · rw [hre, h.uses_eq_zero hi hg, (h.known g hg).1]
    exact ⟨rfl, rfl⟩
  · change _ = (s.users m : Int) + _
    by_cases he : m = s.numTables
    · subst he
      have h0 : s.users s.numTables = 0 := tally_eq_zero fun t _ => by
        rw [if_neg]
        intro ht
        exact absurd (hk.task t _ ht).2 (by omega)
      simp [setTable, one, h0, hk.known s.numTables le_rfl]
    · have := hk.count m (by simp only at hm; omega)
      simpa [setTable, one, he] using this
  · obtain ⟨h1, h2⟩ := hk.task t m hm
    exact ⟨h1, by simp only; omega⟩
  · simp only at hm
    simp [one, hk.known m (by omega), show m ≠ s.numTables by omega]

theorem filesClone_yields (h : Held s 0) (hk : Tabled s k) (hi : i < s.numTables) (memory : Bool) :
    Yields (filesClone i memory) s fun r t => Held t 0 ∧ t.numTables = (if r.toOption.isSome then 1 else 0) + s.numTables ∧
      match r with
      | .ok j => j = s.numTables ∧ Tabled t (fun m => k m + one j m)
      | .error _ => Tabled t k := by
  refine .get ?_
  split_ifs with hm
  · exact .pure ⟨h, by simp [Except.toOption], hk⟩
  · refine .bind (newTable_yields h hk hi) ?_
    rintro j t ⟨rfl, hN, -, -, hre, hhe, hta⟩
    -- the first `m` descriptors of the copy are counted
    refine .bind (.forUp (I := fun m u => SameTables t u ∧ Held u (fun f => -(Table.uses f (s.table i) : Int) +
        tally m (s.table i).entries fun e => if e = some f then 1 else 0)) ⟨.refl t, ?_⟩ ?_) ?_
    · exact hhe.congr fun f => (add_zero _).symm
    · rintro m u - hlt ⟨hsa, hu⟩
      cases he : (s.table i).entries m with
      | none =>
        refine .pure ⟨hsa, hu.congr fun f => ?_⟩
        rw [tally_succ m, he]
        simp only [reduceCtorEq, if_false, add_zero]
      | some f =>
        have hpos := refs_pos (s := s) hi (by omega) he
        refine (fileRef_yields hu ?_).mono ?_
        · rw [hsa.refs, hre]
          omega
        · rintro _ v ⟨hv, hsa', -⟩
          refine ⟨hsa.trans hsa', hv.congr fun g => ?_⟩
          rw [tally_succ m, he, cast_add, cast_ite, cast_one, cast_zero, ite_some]
          ring
    · rintro _ u ⟨hsa, hu⟩
      refine .pure ⟨hu.congr fun f => ?_, ?_, rfl, hsa.tabled hta⟩
      · exact neg_add_cancel _
      · simp [Except.toOption, hsa.numTables, hN, add_comm]

theorem registerTask_yields (h : Held s x) (hk : Tabled s fun j => k j + one i j) (hi : i < s.numTables) :
    Yields (registerTask i) s fun _ t => Held t x ∧ Tabled t k := by
  refine ⟨_, _, rfl, ⟨h.count, h.freed, h.closes, h.known⟩, fun m hm => ?_, fun t m hm => ?_, fun m hm => ?_⟩
  · have hco := hk.count m hm
    have hus : users { s with
        task := update s.task s.numTasks (some i), numTasks := s.numTasks + 1 } m =
        s.users m + if some i = some m then 1 else 0 := by
      simp only [users, tally_succ, tally_update_ge _ le_rfl, update_self]
    rw [hus]
    push_cast
    rw [ite_some]
    omega
  · simp only [update_apply] at hm
    split_ifs at hm with he
    · cases hm
      exact ⟨by simp only; omega, hi⟩
    · obtain ⟨h1, h2⟩ := hk.task t m hm
      exact ⟨by simp only; omega, h2⟩
  · have h1 := hk.known m hm
    have hne : m ≠ i := by
      rintro rfl
      exact absurd hi (not_lt.mpr hm)
    simpa [one, hne] using h1

theorem cloneWith_yields (h : Held s 0) (hk : Tabled s (one i)) (hi : i < s.numTables) (after : Option Errno) :
    Yields (cloneWith i after) s fun _ t => Held t 0 ∧ Tabled t 0 := by
  cases after with
  | none => exact registerTask_yields h (hk.congr fun j => by simp) hi
  | some e =>
    refine .bind (filesUnref_yields h hk hi ?_) ?_
    · rw [one_self]
      omega
    · rintro _ t ⟨ht, hkt, -⟩
      exact .pure ⟨ht, hkt.congr fun j => by simp⟩

/-! ## System calls -/

/-- The calls that end with a file in nobody's hands: `open` of a directory to be
truncated, and `bind`, `connect` and `symlink` once they have opened their path. -/
def Leaks (s : Fds) (i : Nat) : Op → Prop
  | .open args flags w => args = none ∧ w.Leaks flags
  | .bind sockfd args w rc => (∃ f, s.lookup i sockfd = .ok f ∧ (s.file f).type = .socket) ∧ args = none ∧
      rc = none ∧ w.Opens (O_CREAT + O_EXCL)
  | .connect sockfd args w _ => (∃ f, s.lookup i sockfd = .ok f) ∧ args = none ∧ w.Opens 0
  | .symlink args w _ => args = none ∧ w.Opens (O_CREAT + O_EXCL + O_WRONLY)
  | _ => False

def Calm (t : Fds) : Prop := Held t 0 ∧ Tabled t 0

def Ends (leak : Prop) (t : Fds) : Prop := Tabled t 0 ∧ (leak ∧ (∃ f, Held t (one f)) ∨ ¬ leak ∧ Held t 0)

variable {leak : Prop}

theorem Ends.quiet (hl : ¬ leak) (h : Calm t) : Ends leak t := ⟨h.2, .inr ⟨hl, h.1⟩⟩

theorem calm_ends (h : Yields op s fun _ => Calm) : Yields op s fun _ => Ends False :=
  h.mono fun _ _ ht => .quiet not_false ht

theorem held_zero_add (h : Held s fun g => (0 : Nat → Int) g + one f g) : Held s (one f) := h.congr fun _ => zero_add _

theorem open_bind {opens leaks : Prop} {next : Except Errno Nat → Call α}
    (hop : Yields op s (OpenPost s x flags opens leaks)) (ht : truncates flags = false) (hl : leaks → truncates flags = true)
    (her : ∀ e t, SameTables s t → ¬ opens → Held t x → Yields (next (.error e)) t Q)
    (hok : ∀ f t, SameTables s t → opens → x f = 0 → (Held t fun g => x g + one f g) → Yields (next (.ok f)) t Q) :
    Yields (op >>= next) s Q := by
  refine .bind hop ?_
  rintro (e | f) t ⟨hsa, hpo⟩
  · obtain ⟨hle, -⟩ | ⟨-, hhe, hno⟩ := hpo
    · rw [hl hle] at ht
      cases ht
    · exact her e t hsa (hno ht) hhe
  · exact hok f t hsa hpo.1 hpo.2.2.1 hpo.2.2.2

theorem Target.Leaks.truncates {y : Target} (h : y.Leaks flags) : truncates flags = true := h.2.1

theorem Walk.Leaks.truncates {w : Walk} (h : w.Leaks flags) : truncates flags = true := by
  obtain ⟨y, -, hy⟩ := h
  exact hy.2.1

theorem refs_of_lookup (hi : i < s.numTables) (hf : s.lookup i fd = .ok f) (hx : 0 ≤ x f) : 0 < s.refs f + x f := by
  obtain ⟨-, -, hj, he⟩ := lookup_ok hf
  have := refs_pos hi hj he
  omega

theorem getFile_bind {next : Except Errno Nat → Call α}
    (her : ∀ e, s.lookup i fd = .error e → Yields (next (.error e)) s Q)
    (hok : ∀ f, s.lookup i fd = .ok f → Yields (next (.ok f)) s Q) : Yields (taskGetFile i fd >>= next) s Q := by
  refine .bind (taskGetFile_yields s i fd) ?_
  rintro r t ⟨rfl, rfl⟩
  cases hf : t.lookup i fd with
  | error e => exact her e hf
  | ok f => exact hok f hf

def duplicated (s : Fds) (i n f : Nat) : Fds :=
  match (s.table i).entries n with
  | some g => ((s.closed g).setEntry i n (some f)).counted f
  | none => (s.setEntry i n (some f)).counted f

def Duplicates (s : Fds) (i : Nat) (fd : Int) (f : Nat) (r : Except Errno Nat) (t : Fds) : Prop :=
  match r with
  | .ok j => t = s.duplicated i j f ∧ if 0 ≤ fd then (j : Int) = fd ∧ j < OPEN_MAX else s.Chosen i (-1) j
  | .error _ => t = s ∧ (0 ≤ fd ∨ ∀ j, ¬ s.Chosen i (-1) j)

theorem chosen_of_neg (hfd : ¬ 0 ≤ fd) : s.Chosen i fd = s.Chosen i (-1) := by
  funext n
  simp only [Chosen, if_neg hfd, if_neg (show ¬ 0 ≤ (-1 : Int) by decide)]

theorem Filled.duplicates {r : Except Errno Nat} (h : Filled s i fd f r t) : Duplicates s i fd f r t := by
  by_cases hfd : 0 ≤ fd
  · cases r with
    | error e => exact ⟨h.1, .inl hfd⟩
    | ok j =>
      obtain ⟨⟨⟨hlt, hnn⟩, hj⟩, rfl⟩ := h
      rw [if_pos hfd] at hj
      exact ⟨by simp only [duplicated, hnn], by rw [if_pos hfd]; exact ⟨hj, hlt⟩⟩
  · cases r with
    | error e => exact ⟨h.1, .inr (chosen_of_neg hfd ▸ h.2)⟩
    | ok j =>
      obtain ⟨hch, rfl⟩ := h
      exact ⟨by simp only [duplicated, hch.1.2], by rw [if_neg hfd, ← chosen_of_neg hfd]; exact hch⟩

theorem dup3_yields (h : Held s x) (hx : ∀ g, 0 ≤ x g) (hk : Tabled s k) (hi : i < s.numTables) (oldfd newfd : Int) :
    Yields (sysDup3 i oldfd newfd) s fun r t => (Held t x ∧ Tabled t k) ∧
      match s.lookup i oldfd with
      | .error e => r = .error e ∧ t = s
      | .ok f => if oldfd = newfd then r = .ok oldfd.toNat ∧ t = s else Duplicates s i newfd f r t := by
  refine getFile_bind (fun e he => .pure ⟨⟨h, hk⟩, by simp only [he, and_self]⟩) fun f hf => ?_
  simp only [hf]
  split_ifs with he
  · exact .pure ⟨⟨h, hk⟩, rfl, rfl⟩
  refine .bind (P := fun r t => ∃ n, r = .ok n ∧ Held t x ∧ Tabled t k ∧ (t = s ∨ ∃ g, s.lookup i newfd = .ok g ∧
    t = (s.closed g).setEntry i newfd.toNat none)) (getFile_bind (fun e _ => .pure ⟨0, rfl, h, hk, .inl rfl⟩) fun g hg => ?_) ?_
  · refine (closeFd_yields h (refs_of_lookup hi hg (hx g)) hk hi hg).mono ?_
    rintro _ t ⟨⟨n, rfl⟩, ht, hkt, hs⟩
    exact ⟨n, rfl, ht, hkt, .inr ⟨g, hg, hs⟩⟩
  rintro _ t ⟨n, rfl, ht, hkt, rfl | ⟨g, hg, rfl⟩⟩
  · exact (dupFile_yields ht (refs_of_lookup hi hf (hx f)) hkt hi).mono fun _ _ hu => ⟨hu.1, hu.2.duplicates⟩
  · obtain ⟨h0, h1, hj, hent⟩ := lookup_ok hg
    obtain ⟨h0', h1', hj', hent'⟩ := lookup_ok hf
    have hne : oldfd.toNat ≠ newfd.toNat := by omega
    have hf' : ((s.closed g).setEntry i newfd.toNat none).lookup i oldfd = .ok f := by
      rw [← hf]
      simp [lookup, setEntry, setTable, hne, closed, setFile]
    refine (dupFile_yields ht (refs_of_lookup hi hf' (hx f)) hkt hi).mono ?_
    have hfr : ((s.closed g).setEntry i newfd.toNat none).Chosen i newfd newfd.toNat :=
      ⟨⟨hj, by simp [setEntry, setTable]⟩, by rw [if_pos h0]; omega⟩
    rintro (e | j) u ⟨hu, hfi⟩
    · exact absurd hfr (hfi.2 _)
    · obtain ⟨⟨-, hjn⟩, rfl⟩ := hfi
      rw [if_pos h0] at hjn
      obtain rfl : j = newfd.toNat := by omega
      refine ⟨hu, ?_, by rw [if_pos h0]; exact ⟨hjn, hj⟩⟩
      simp only [duplicated, hent]
      simp [setEntry, setTable]

section
variable (h : Held s 0) (hk : Tabled s 0) (hi : i < s.numTables)
include h hk hi

theorem sysOpen_yields (args : Option Errno) (flags : Nat) (w : Walk) :
    Yields (sysOpen i args flags w) s fun _ t => Ends (args = none ∧ w.Leaks flags) t := by
  cases args with
  | some e => exact .pure (.quiet (by simp) ⟨h, hk⟩)
  | none =>
    refine .bind (vfsOpen_yields h w flags) ?_
    rintro (e | f) t ⟨hsa, hpo⟩
    · refine .pure ⟨hsa.tabled hk, ?_⟩
      obtain ⟨hl, f, hf⟩ | ⟨hl, hhe, -⟩ := hpo
      · exact .inl ⟨⟨rfl, hl⟩, f, held_zero_add hf⟩
      · exact .inr ⟨fun h => hl h.2, hhe⟩
    · obtain ⟨-, hl, hf, hhe⟩ := hpo
      exact (installFile_yields hhe hf (hsa.tabled hk) (hsa.numTables ▸ hi)).mono
        fun _ u hu => .quiet (fun h => hl h.2) hu

theorem sysClose_yields (fd : Int) : Yields (sysClose i fd) s fun _ => Calm := by
  refine getFile_bind (fun e _ => .pure ⟨h, hk⟩) fun f hf => ?_
  exact (closeFd_yields h (refs_of_lookup hi hf le_rfl) hk hi hf).mono fun _ _ hu => ⟨hu.2.1, hu.2.2.1⟩

theorem sysDup_yields (fd : Int) : Yields (sysDup i fd) s fun _ => Calm :=
  getFile_bind (fun _ _ => .pure ⟨h, hk⟩) fun _ hf =>
    (dupFile_yields h (refs_of_lookup hi hf le_rfl) hk hi).mono fun _ _ ht => ht.1

theorem sysDup3_yields (oldfd newfd : Int) : Yields (sysDup3 i oldfd newfd) s fun _ => Calm :=
  (dup3_yields h (fun _ => le_rfl) hk hi oldfd newfd).mono fun _ _ ht => ht.1

theorem sysFcntl_yields (fd cmd : Int) (arg : Nat) : Yields (sysFcntl i fd cmd arg) s fun _ => Calm := by
  refine getFile_bind (fun e _ => .pure ⟨h, hk⟩) fun f hf => ?_
  have hpos := refs_of_lookup (x := 0) hi hf le_rfl
  split_ifs
  · exact (dupFile_yields h hpos hk hi).mono fun _ _ ht => ht.1
  · exact useFile_bind h hpos (.pure ⟨h, hk⟩)
  · have hlt := h.lt hpos
    refine useFile_bind h hpos (.modify_bind (.pure ⟨?_, (setFile_same _ _ _).tabled hk⟩))
    exact h.setFile (d := 0) hlt (fun g => by simp) (by simp) (h.freed f hlt) (h.closes f hlt)
  · exact .pure ⟨h, hk⟩

theorem openInstall_yields (y : Target) {flags : Nat} (ht : truncates flags = false) : Yields (do
      match ← inodeOpen y flags with
      | .error e => pure (.error e)
      | .ok f => installFile i f) s fun _ => Calm :=
  open_bind (inodeOpen_yields h y flags) ht (·.truncates) (fun _ _ hsa _ hhe => .pure ⟨hhe, hsa.tabled hk⟩)
    fun _ _ hsa _ hf hhe => installFile_yields hhe hf (hsa.tabled hk) (hsa.numTables ▸ hi)

theorem sysSocket_yields (supported : Bool) (create : Option Errno) (memory : Bool) :
    Yields (sysSocket i supported create memory) s fun _ => Calm := by
  unfold sysSocket
  split_ifs
  · exact .pure ⟨h, hk⟩
  · cases create with
    | some e => exact .pure ⟨h, hk⟩
    | none => exact openInstall_yields h hk hi _ rfl

theorem sysAccept4_yields (sockfd : Int) (args rc : Option Errno) (memory : Bool) :
    Yields (sysAccept4 i sockfd args rc memory) s fun _ => Calm := by
  refine getFile_bind (fun e _ => .pure ⟨h, hk⟩) fun f hf => ?_
  cases args with
  | some e => exact .pure ⟨h, hk⟩
  | none =>
    refine useFile_bind h (refs_of_lookup hi hf le_rfl) ?_
    split_ifs
    · exact .pure ⟨h, hk⟩
    · cases rc with
      | some e => exact .pure ⟨h, hk⟩
      | none => exact openInstall_yields h hk hi _ rfl

theorem sysBind_yields (sockfd : Int) (args : Option Errno) (w : Walk) (rc : Option Errno) :
    Yields (sysBind i sockfd args w rc) s fun _ => Ends (s.Leaks i (.bind sockfd args w rc)) := by
  refine getFile_bind (fun e he => .pure (.quiet ?_ ⟨h, hk⟩)) fun f hf => useFile_bind h (refs_of_lookup hi hf le_rfl) ?_
  · rintro ⟨⟨f, hf, -⟩, -⟩
    cases he.symm.trans hf
  by_cases hs : (s.file f).type = .socket
  · rw [if_neg (by simp [hs])]
    cases args with
    | some e => exact .pure (.quiet (fun hl => by cases hl.2.1) ⟨h, hk⟩)
    | none =>
      refine open_bind (vfsOpen_yields h w (O_CREAT + O_EXCL)) rfl (·.truncates) (fun e t hsa hno hhe => ?_)
        fun g t hsa ho hg hhe => ?_
      · exact .pure (.quiet (fun hl => hno hl.2.2.2) ⟨hhe, hsa.tabled hk⟩)
      · cases rc with
        | some e =>
          refine fileClose_bind hhe hg fun v hsa' hv => .pure (.quiet (fun hl => by cases hl.2.2.1) ⟨hv, ?_⟩)
          exact (hsa.trans hsa').tabled hk
        | none => exact .pure ⟨hsa.tabled hk, .inl ⟨⟨⟨f, hf, hs⟩, rfl, rfl, ho⟩, g, held_zero_add hhe⟩⟩
  · rw [if_pos hs]
    refine .pure (.quiet ?_ ⟨h, hk⟩)
    rintro ⟨⟨g, hg, hs'⟩, -⟩
    cases hf.symm.trans hg
    exact hs hs'

theorem sysConnect_yields (sockfd : Int) (args : Option Errno) (w : Walk) (rc : Option Errno) :
    Yields (sysConnect i sockfd args w rc) s fun _ => Ends (s.Leaks i (.connect sockfd args w rc)) := by
  refine getFile_bind (fun e he => .pure (.quiet ?_ ⟨h, hk⟩)) fun f hf => ?_
  · rintro ⟨⟨f, hf⟩, -⟩
    cases he.symm.trans hf
  cases args with
  | some e => exact .pure (.quiet (fun hl => by cases hl.2.1) ⟨h, hk⟩)
  | none =>
    refine open_bind (vfsOpen_yields h w 0) rfl (·.truncates) (fun e t hsa hno hhe => ?_)
      fun g u hsa ho hg hhe => ?_
    · exact .pure (.quiet (fun hl => hno hl.2.2) ⟨hhe, hsa.tabled hk⟩)
    · have hpos := refs_of_lookup (x := 0) hi hf le_rfl
      have hen : Ends (s.Leaks i (.connect sockfd none w rc)) u :=
        ⟨hsa.tabled hk, .inl ⟨⟨⟨f, hf⟩, rfl, ho⟩, g, held_zero_add hhe⟩⟩
      refine useFile_bind hhe ?_ ?_
      · rw [hsa.refs]
        have := one_nonneg g f
        omega
      · split_ifs
        · exact .pure hen
        · cases rc <;> exact .pure hen

end

section
variable (h : Held s 0) (hk : Tabled s 0)
include h hk

theorem sysSymlink_yields (args : Option Errno) (w : Walk) (rc : Option Errno) :
    Yields (sysSymlink args w rc) s fun _ => Ends (s.Leaks i (.symlink args w rc)) := by
  cases args with
  | some e => exact .pure (.quiet (fun hl => by cases hl.1) ⟨h, hk⟩)
  | none =>
    refine open_bind (vfsOpen_yields h w (O_CREAT + O_EXCL + O_WRONLY)) rfl (·.truncates)
      (fun e t hsa hno hhe => ?_) fun g u hsa ho hg hhe => useFile_bind hhe (new_pos hg) ?_
    · exact .pure (.quiet (fun hl => hno hl.2) ⟨hhe, hsa.tabled hk⟩)
    · have hen : Ends (s.Leaks i (.symlink none w rc)) u :=
        ⟨hsa.tabled hk, .inl ⟨⟨rfl, ho⟩, g, held_zero_add hhe⟩⟩
      cases rc <;> exact .pure hen

theorem sysTruncate_yields (args : Option Errno) (w : Walk) (rc : Option Errno) :
    Yields (sysTruncate args w rc) s fun _ => Calm := by
  cases args with
  | some e => exact .pure ⟨h, hk⟩
  | none =>
    refine open_bind (vfsOpen_yields h w O_WRONLY) rfl (·.truncates)
      (fun _ _ hsa _ hhe => .pure ⟨hhe, hsa.tabled hk⟩) fun g u hsa _ hg hhe => ?_
    refine useFile_bind hhe (new_pos hg) (fileClose_bind hhe hg fun v hsa' hv => ?_)
    have hen : Calm v := ⟨hv, (hsa.trans hsa').tabled hk⟩
    cases rc <;> exact .pure hen

theorem sysReadlink_yields (args : Option Errno) (w : Walk) (rc : Except Errno Nat) (copied : Bool) :
    Yields (sysReadlink args w rc copied) s fun _ => Calm := by
  cases args with
  | some e => exact .pure ⟨h, hk⟩
  | none =>
    refine .bind (vfsResolve_yields h w) ?_
    rintro (e | y) t ⟨hsa, hhe, -⟩
    · exact .pure ⟨hhe, hsa.tabled hk⟩
    · dsimp only
      by_cases hy : y.type ≠ .symlink
      · rw [if_pos hy]
        exact .pure ⟨hhe, hsa.tabled hk⟩
      · rw [if_neg hy]
        refine open_bind (inodeOpen_yields hhe y O_RDONLY) rfl (·.truncates)
          (fun _ _ hs _ hhe => .pure ⟨hhe, (hsa.trans hs).tabled hk⟩) fun g u hs _ hg hhe => ?_
        refine useFile_bind hhe (new_pos hg) (fileClose_bind hhe hg fun v hs' hv => ?_)
        have hen : Calm v := ⟨hv, ((hsa.trans hs).trans hs').tabled hk⟩
        cases rc with
        | error e => exact .pure hen
        | ok n => cases copied <;> exact .pure hen

theorem sysClone_yields (hi : i < s.numTables) (shared : Bool) (before : Option Errno) (memory : Bool)
    (after : Option Errno) :
    Yields (sysClone i shared before memory after) s fun _ => Calm := by
  cases before with
  | some e => exact .pure ⟨h, hk⟩
  | none =>
    cases shared with
    | true =>
      have hhe : Held (s.setTable i { s.table i with refCount := (s.table i).refCount + 1 }) 0 := h.setTable rfl
      have hta := hk.setTable (a := { s.table i with refCount := (s.table i).refCount + 1 }) (d := 1) hi (by simp)
      exact .modify_bind (cloneWith_yields hhe (hta.congr fun j => by simp) hi after)
    | false =>
      refine .bind (filesClone_yields h hk hi memory) ?_
      rintro (e | j) t ⟨ht, hN, hpo⟩
      · exact .pure ⟨ht, hpo⟩
      · obtain ⟨rfl, hkt⟩ := hpo
        refine cloneWith_yields ht (hkt.congr fun j => by simp) ?_ after
        rw [hN]
        simp [Except.toOption]

theorem exitTask_yields {m : Nat} (hm : s.task m = some i) : Yields (exitTask m i) s fun _ => Calm := by
  obtain ⟨hmt, hi⟩ := hk.task m i hm
  have hupd := fun j => tally_update (g := s.task) (fun o => if o = some j then 1 else 0) hmt none
  simp only [hm, reduceCtorEq, if_false, add_zero] at hupd
  refine .bind (filesUnref_yields h hk hi ?_) ?_
  · have := hupd i
    simp only [if_true] at this
    unfold users
    simp only [Pi.zero_apply]
    omega
  · rintro _ t ⟨ht, hkt, hta, hnum, hN⟩
    refine .modify_bind (.pure ⟨⟨ht.count, ht.freed, ht.closes, ht.known⟩, fun j hj => ?_, fun u j hj => ?_,
      fun j _ => rfl⟩)
    · have hco := hkt.count j hj
      have h1 := hupd j
      have h2 : t.users j = s.users j := by simp only [users, hta, hnum]
      have h3 : users { t with task := update t.task m none } j =
          tally s.numTasks (update s.task m none) fun o => if o = some j then 1 else 0 := by
        simp only [users, hta, hnum]
      have h4 := ite_some i j
      have h5 : s.users j = tally s.numTasks s.task fun o => if o = some j then 1 else 0 := rfl
      rw [h2, ← h4] at hco
      change ((t.table j).refCount : Int) = _
      split_ifs at hco h1 <;> omega
    · simp only [update_apply] at hj
      split_ifs at hj
      exact hkt.task u j hj

end

/-! ## Pipes -/

theorem lookup_setEntry (s : Fds) (i : Nat) (hj : j < OPEN_MAX) (f : Nat) :
    (s.setEntry i j (some f)).lookup i j = .ok f := by
  unfold lookup
  rw [if_neg (by omega)]
  simp [setEntry, setTable]

theorem lookup_setEntry_ne (s : Fds) (i : Nat) {m : Nat} (hm : m ≠ j) (e : Option Nat) :
    (s.setEntry i j e).lookup i m = s.lookup i m := by
  simp [lookup, setEntry, setTable, hm]

theorem takeBack_yields (h : Held s x) (hi : i < s.numTables) (hl : s.lookup i j = .ok f) :
    Yields (taskFreeFileDescriptor i j) s fun _ t => t = s.setEntry i j none ∧ Held t fun g => x g + one f g := by
  obtain ⟨-, -, hj, he⟩ := lookup_ok hl
  refine (taskFree_yields hl).mono ?_
  rintro _ t ⟨-, rfl⟩
  refine ⟨rfl, h.setEntry hi hj nofun fun g => ?_⟩
  rw [he, ite_some]
  simp

theorem takeBack_cons {fds : List Nat} {Q : Unit → Fds → Prop} (h : Held s x) (hi : i < s.numTables)
    (hl : s.lookup i j = .ok f)
    (hnx : Held (s.setEntry i j none) (fun g => x g + one f g) →
      Yields (forEach (fun fd : Nat => do let _ ← taskFreeFileDescriptor i fd) fds) (s.setEntry i j none) Q) :
    Yields (forEach (fun fd : Nat => do let _ ← taskFreeFileDescriptor i fd) (j :: fds)) s Q := by
  refine .bind (P := fun _ u => u = s.setEntry i j none ∧ Held u fun g => x g + one f g)
    (.bind (takeBack_yields h hi hl) fun _ u hu => .pure hu) ?_
  rintro _ u ⟨rfl, hu⟩
  exact hnx hu

section
variable {reader writer : Nat}

theorem pipeFail_yields (h : Held s fun g => one reader g + one writer g) (hk : Tabled s 0) (e : Errno) : Yields (do
      let _ ← fileClose reader
      let _ ← fileClose writer
      pure (.error e) : Call (Except Errno Nat)) s fun _ => Calm := by
  have hr := one_nonneg writer reader
  refine .bind (fileClose_yields h (f := reader) (by rw [one_self]; omega)) ?_
  rintro _ t ⟨-, ht, hsa, -⟩
  have ht' : Held t (one writer) := ht.congr fun g => by ring
  refine .bind (fileClose_yields ht' (f := writer) (by rw [one_self]; omega)) ?_
  rintro _ u ⟨-, hu, hsa', -⟩
  exact .pure ⟨hu.congr fun g => by simp, (hsa.trans hsa').tabled hk⟩

theorem pipeInstall_yields (h : Held s fun g => one reader g + one writer g) (hk : Tabled s 0) (hi : i < s.numTables)
    (copied : Bool) : Yields (pipeInstall i reader writer copied) s fun _ => Calm := by
  have hr := one_nonneg writer reader
  have hw := one_nonneg reader writer
  have hrlt : reader < s.numFiles := h.lt (by rw [one_self]; omega)
  have hwlt : writer < s.numFiles := h.lt (by rw [one_self]; omega)
  refine .bind (taskAlloc_yields s i (-1) reader) ?_
  rintro (e | j) t ht
  · obtain rfl : t = s := ht.1
    exact .bind (P := fun _ u => u = t) (.pure rfl) fun _ u hu => hu ▸ pipeFail_yields h hk e
  · obtain ⟨⟨⟨hj, hnn⟩, -⟩, rfl⟩ := ht
    have h1 : Held (s.setEntry i j (some reader)) (one writer) := by
      refine h.setEntry hi hj (fun _ he => some.inj he ▸ hrlt) fun g => ?_
      rw [hnn, ite_some]
      simp
    have hl1 := lookup_setEntry s i hj reader
    refine .bind (taskAlloc_yields _ i (-1) writer) ?_
    rintro (e | m) t ht
    · obtain ⟨rfl, -⟩ := ht
      refine .bind (takeBack_cons (Q := fun _ u => Held u (fun g => one writer g + one reader g) ∧ Tabled u 0)
        h1 hi hl1 fun hu => .pure ⟨hu, hk.setEntry.setEntry⟩) ?_
      rintro _ u ⟨hu, hku⟩
      exact pipeFail_yields (hu.congr fun g => add_comm _ _) hku e
    · obtain ⟨⟨⟨hm, hnn'⟩, -⟩, rfl⟩ := ht
      have h2 : Held ((s.setEntry i j (some reader)).setEntry i m (some writer)) 0 := by
        refine h1.setEntry hi hm (fun _ he => some.inj he ▸ hwlt) fun g => ?_
        rw [hnn', ite_some]
        simp
      cases copied with
      | true => exact .pure ⟨h2, hk.setEntry.setEntry⟩
      | false =>
        have hne : j ≠ m := by
          rintro rfl
          simp [setEntry, setTable] at hnn'
        have hl2 := (lookup_setEntry_ne (s.setEntry i j (some reader)) i hne (some writer)).trans hl1
        have hl3 := (lookup_setEntry_ne ((s.setEntry i j (some reader)).setEntry i m (some writer)) i hne.symm
          none).trans (lookup_setEntry _ i hm writer)
        refine .bind (takeBack_cons (Q := fun _ u => Held u (fun g => one reader g + one writer g) ∧ Tabled u 0)
          h2 hi hl2 fun hu => takeBack_cons hu hi hl3 fun hv => .pure ⟨hv.congr fun g => by simp, ?_⟩) ?_
        · exact hk.setEntry.setEntry.setEntry.setEntry
        · rintro _ t ⟨ht, hkt⟩
          exact pipeFail_yields ht hkt .EFAULT

end

theorem sysPipe2_yields (h : Held s 0) (hk : Tabled s 0) (hi : i < s.numTables) (fifo : Option Errno)
    (memory : Bool × Bool) (copied : Bool) :
    Yields (sysPipe2 i fifo memory copied) s fun _ => Calm := by
  cases fifo with
  | some e => exact .pure ⟨h, hk⟩
  | none =>
    refine open_bind (inodeOpen_yields h _ O_RDONLY) rfl (·.truncates)
      (fun _ _ hsa _ hhe => .pure ⟨hhe, hsa.tabled hk⟩) fun f t hsa _ hf hhe => ?_
    refine open_bind (inodeOpen_yields hhe _ O_WRONLY) rfl (·.truncates) (fun e u hsa' _ hhe' => ?_)
      fun g u hsa' _ hg hhe' => ?_
    · refine fileClose_bind hhe' hf fun v hsa'' hv => .pure ⟨hv, ?_⟩
      exact ((hsa.trans hsa').trans hsa'').tabled hk
    · have hs := hsa.trans hsa'
      exact pipeInstall_yields (hhe'.congr fun m => by simp) (hs.tabled hk) (hs.numTables ▸ hi) copied

/-! ## Calls -/

theorem creat_not_leaks (w : Walk) : ¬ w.Leaks (O_CREAT + O_WRONLY + O_TRUNC) := by
  rintro ⟨y, -, ho, -, hd⟩
  exact ho.2.1 (by decide) hd

theorem exec_yields {m : Nat} (h : Held s 0) (hk : Tabled s 0) (hm : s.task m = some i) (op : Op) :
    Yields (op.exec m i) s fun _ t => Ends (s.Leaks i op) t := by
  have hi := (hk.task m i hm).2
  cases op with
  | «open» args flags w => exact sysOpen_yields h hk hi args flags w
  | creat args w =>
    refine (sysOpen_yields h hk hi args _ w).mono fun _ t ht => ⟨ht.1, .inr ⟨not_false, ?_⟩⟩
    obtain ⟨⟨-, hl⟩, -⟩ | ⟨-, ht⟩ := ht.2
    · exact absurd hl (creat_not_leaks w)
    · exact ht
  | close fd => exact calm_ends (sysClose_yields h hk hi fd)
  | dup fd => exact calm_ends (sysDup_yields h hk hi fd)
  | dup2 oldfd newfd | dup3 oldfd newfd =>
    exact calm_ends (sysDup3_yields h hk hi oldfd newfd)
  | fcntl fd cmd arg => exact calm_ends (sysFcntl_yields h hk hi fd cmd arg)
  | pipe fifo memory copied =>
    exact calm_ends (sysPipe2_yields h hk hi fifo memory copied)
  | socket supported create memory =>
    exact calm_ends (sysSocket_yields h hk hi supported create memory)
  | bind sockfd args w rc => exact sysBind_yields h hk hi sockfd args w rc
  | accept sockfd args rc memory =>
    exact calm_ends (sysAccept4_yields h hk hi sockfd args rc memory)
  | connect sockfd args w rc => exact sysConnect_yields h hk hi sockfd args w rc
  | symlink args w rc => exact sysSymlink_yields h hk args w rc
  | truncate args w rc => exact calm_ends (sysTruncate_yields h hk args w rc)
  | readlink args w rc copied =>
    exact calm_ends (sysReadlink_yields h hk args w rc copied)
  | clone shared before memory after =>
    exact calm_ends (sysClone_yields h hk hi shared before memory after)
  | exit => exact calm_ends (exitTask_yields h hk hm)

structure Matched (s : Fds) : Prop where
  count : ∀ f < s.numFiles, (s.file f).freed = false → (s.file f).refCount = s.refs f
  «open» : ∀ f < s.numFiles, (s.file f).freed = false ↔ 0 < s.refs f
  closed : ∀ f < s.numFiles, (s.file f).closes = if 0 < s.refs f then 0 else 1
  known : ∀ f, 0 < s.refs f → f < s.numFiles

theorem Held.matched (h : Held s 0) : Matched s := by
  have hco : ∀ f < s.numFiles, (s.file f).refCount = s.refs f := fun f hf => by
    have := h.count f hf
    simp only [Pi.zero_apply] at this
    omega
  have hop : ∀ f < s.numFiles, (s.file f).freed = false ↔ 0 < s.refs f := fun f hf => by
    have h1 := h.freed f hf
    rw [hco f hf] at h1
    rw [← Bool.not_eq_true, h1]
    omega
  refine ⟨fun f hf _ => hco f hf, hop, fun f hf => ?_, fun f hf => ?_⟩
  · rw [h.closes f hf]
    have := hop f hf
    by_cases hr : 0 < s.refs f
    · rw [if_pos hr, this.mpr hr, if_neg (by decide)]
    · rw [if_neg hr, if_pos (by simpa using mt this.mp hr)]
  · by_contra hlt
    have := (h.known f (by omega)).1
    omega

theorem Held.not_matched (h : Held s (one f)) : ¬ Matched s := by
  intro hm
  have hlt : f < s.numFiles := h.lt (by rw [one_self]; omega)
  have h1 := h.count f hlt
  rw [one_self] at h1
  have h2 : (s.file f).freed = false := by
    rw [← Bool.not_eq_true, h.freed f hlt]
    omega
  have h3 := hm.count f hlt h2
  omega

theorem Ends.matched_iff (h : Ends leak t) : Matched t ↔ ¬ leak := by
  obtain ⟨-, ⟨hl, f, hf⟩ | ⟨hl, ht⟩⟩ := h
  · exact ⟨fun hm => absurd hm hf.not_matched, fun h => absurd hl h⟩
  · exact ⟨fun _ => hl, fun _ => ht.matched⟩

def tidy (s : Fds) (e : Nat × Op) : Prop := ∀ i, s.task e.1 = some i → ¬ s.Leaks i e.2

theorem boot_held (console : Bool) : Held (boot console) 0 ∧ Tabled (boot console) 0 := by
  have hus : ∀ f, Table.uses f ⟨1, fun _ => none⟩ = 0 := by
    intro f
    simp only [Table.uses, tally, reduceCtorEq, if_false, Finset.sum_const_zero]
  have hre : ∀ f, (boot console).refs f = if (boot console).console = some f then 1 else 0 := by
    intro f
    have : tally 1 (boot console).table (Table.uses f) = 0 := tally_eq_zero fun _ _ => hus f
    rw [refs, show (boot console).numTables = 1 from rfl, this, zero_add]
  refine ⟨⟨fun f hf => ?_, fun f hf => by simp [boot], fun f hf => rfl, fun f hf => ?_⟩, fun m hm => ?_,
    fun t m hm => ?_, fun _ _ => rfl⟩
  · rw [hre]
    cases console with
    | false => exact absurd hf (by simp [boot])
    | true =>
      obtain rfl : f = 0 := by simpa [boot] using hf
      simp [boot]
  · rw [hre]
    refine ⟨?_, rfl⟩
    cases console with
    | false => simp [boot]
    | true =>
      have : f ≠ 0 := by
        rintro rfl
        exact absurd hf (by simp [boot])
      simp [boot, this.symm]
  · obtain rfl : m = 0 := by simpa [boot] using hm
    simp [boot, users, tally]
  · simp only [boot] at hm ⊢
    split_ifs at hm with ht
    cases hm
    omega

theorem held_of_run (hr : Run Step tidy (boot console) s) : Held s 0 ∧ Tabled s 0 := by
  refine hr.invariant (I := fun s => Held s 0 ∧ Tabled s 0) (boot_held console) ?_
  rintro s e s' ⟨h, hk⟩ ⟨i, r, hm, hx⟩ hok
  obtain ⟨r', t, hx', hen⟩ := exec_yields h hk hm e.2
  rw [hx] at hx'
  cases hx'
  obtain ⟨hkt, ⟨hl, -⟩ | ⟨-, ht⟩⟩ := hen
  · exact absurd hl (hok i hm)
  · exact ⟨ht, hkt⟩

/-- Counts are right and no call crashes until a call forgets a file, and such a call leaves them wrong. -/
theorem refs_match_of_tidy (hr : Run Step tidy (boot console) s) :
    Matched s ∧ ∀ m i op, s.task m = some i → ∃ r s', op.exec m i s = .ok (r, s') ∧ (Matched s' ↔ ¬ s.Leaks i op) ∧
      (¬ s.Leaks i op → (∀ f, s'.refs f = s.refs f) → ∀ f, (f < s'.numFiles ∧ (s'.file f).freed = false) ↔
        f < s.numFiles ∧ (s.file f).freed = false) := by
  obtain ⟨h, hk⟩ := held_of_run hr
  have hma := h.matched
  refine ⟨hma, fun m i op hm => ?_⟩
  obtain ⟨r, s', hx, hen⟩ := exec_yields h hk hm op
  refine ⟨r, s', hx, hen.matched_iff, fun hl hre f => ?_⟩
  have hm' := hen.matched_iff.mpr hl
  have live : ∀ {u : Fds}, Matched u → ((f < u.numFiles ∧ (u.file f).freed = false) ↔ 0 < u.refs f) := by
    intro u hu
    exact ⟨fun ⟨h1, h2⟩ => (hu.open f h1).mp h2, fun h1 => ⟨hu.known f h1, (hu.open f (hu.known f h1)).mpr h1⟩⟩
  rw [live hm', live hma, hre]

/-! ## Examples of runs -/

instance (w : Walk) (P : Target → Prop) [DecidablePred P] : Decidable (∃ y, w.Reaches y ∧ P y) :=
  match hr : w.result with
  | .error _ => isFalse fun ⟨_, hy, _⟩ => nomatch hr.symm.trans hy.2
  | .ok y => decidable_of_iff ((∀ l ∈ w.links, l.Followed) ∧ P y)
      ⟨fun h => ⟨y, ⟨h.1, hr⟩, h.2⟩, fun ⟨_, hz, hp⟩ => ⟨hz.1, Except.ok.inj (hz.2.symm.trans hr) ▸ hp⟩⟩

instance (w : Walk) (flags : Nat) : Decidable (w.Opens flags) := inferInstanceAs (Decidable (∃ _, _ ∧ _))

instance (w : Walk) (flags : Nat) : Decidable (w.Leaks flags) := inferInstanceAs (Decidable (∃ _, _ ∧ _))

instance (s : Fds) (i : Nat) (fd : Int) (P : Nat → Prop) [DecidablePred P] :
    Decidable (∃ f, s.lookup i fd = .ok f ∧ P f) :=
  match s.lookup i fd with
  | .error _ => isFalse nofun
  | .ok f => decidable_of_iff (P f) ⟨fun h => ⟨f, rfl, h⟩, fun ⟨_, hg, hp⟩ => Except.ok.inj hg ▸ hp⟩

instance (s : Fds) (i : Nat) : ∀ op, Decidable (s.Leaks i op)
  | .open .. | .symlink .. => inferInstanceAs (Decidable (_ ∧ _))
  | .bind .. => inferInstanceAs (Decidable ((∃ f, _ ∧ _) ∧ _))
  | .connect sockfd args w _ => decidable_of_iff ((∃ f, s.lookup i sockfd = .ok f ∧ True) ∧ args = none ∧ w.Opens 0)
      (by simp [Leaks])
  | .creat .. | .close .. | .dup .. | .dup2 .. | .dup3 .. | .fcntl .. | .pipe .. | .socket .. | .accept ..
  | .truncate .. | .readlink .. | .clone .. | .exit => .isFalse id

instance (s : Fds) (e : Nat × Op) : Decidable (tidy s e) :=
  match hm : s.task e.1 with
  | none => isTrue fun _ h => nomatch hm.symm.trans h
  | some i => decidable_of_iff (¬ s.Leaks i e.2)
      ⟨fun h _ hj => Option.mem_unique hm hj ▸ h, fun h => h i hm⟩

def next (s : Fds) (e : Nat × Op) : Option Fds :=
  match s.task e.1 with
  | some i => (e.2.exec e.1 i).after s
  | none => none

theorem next_step {e : Nat × Op} (h : s.next e = some t) : Step s e t := by
  unfold next at h
  split at h
  · rename_i i hi
    obtain ⟨r, hr⟩ := after_some h
    exact ⟨i, r, hi, hr⟩
  · cases h

def Walk.straight (type : InodeType) : Walk := ⟨[], .ok ⟨type, true, none, none⟩⟩

theorem refs_match_after_dup : ∃ s, Run Step tidy (boot true) s ∧ (s.file 1).refCount = 1 ∧ Matched s := by
  obtain ⟨s, hr, hs⟩ := exists_follow next tidy
    [(0, .open none O_RDWR (.straight .regular)), (0, .dup 0), (0, .close 0)] (boot true)
    (fun s => (s.file 1).refCount = 1) (by decide +kernel)
  have hr := hr.imp fun _ _ _ => next_step
  exact ⟨s, hr, hs, (refs_match_of_tidy hr).1⟩

theorem tables_counted (hr : Run Step tidy (boot console) s) :
    (∀ i < s.numTables, (s.table i).refCount = s.users i) ∧ ∀ t i, s.task t = some i → i < s.numTables := by
  have h := (held_of_run hr).2
  exact ⟨fun i hi => by simpa using h.count i hi, fun t i ht => (h.task t i ht).2⟩

theorem tables_counted_cloned : ∃ s, Run Step tidy (boot true) s ∧
      (s.task 1 = none ∧ s.task 2 = some 1 ∧ s.task 3 = some 0) ∧ 2 = s.users 0 ∧ 1 = s.users 1 := by
  obtain ⟨s, hr, ht, hN, h0, h1⟩ := exists_follow next tidy
    [(0, .clone true none true none), (0, .open none O_RDWR (.straight .regular)), (0, .clone false none true none),
      (1, .clone true none true none), (1, .exit)] (boot true)
    (fun s => (s.task 1 = none ∧ s.task 2 = some 1 ∧ s.task 3 = some 0) ∧ s.numTables = 2 ∧
      (s.table 0).refCount = 2 ∧ (s.table 1).refCount = 1) (by decide +kernel)
  have hr := hr.imp fun _ _ _ => next_step
  have hc := (tables_counted hr).1
  exact ⟨s, hr, ht, h0.symm.trans (hc 0 (by omega)), h1.symm.trans (hc 1 (by omega))⟩

/-- A symbolic link has been made; its file stays open, and no descriptor leads to it. -/
theorem symlink_leaves_file : ∃ s, Run Step (fun _ _ => True) (boot true) s ∧
    (s.file 1).freed = false ∧ (s.file 1).refCount = 1 ∧ s.refs 1 = 0 ∧ ¬ Matched s := by
  obtain ⟨h, hk⟩ := boot_held true
  have hle : (boot true).Leaks 0 (.symlink none (.straight .symlink) none) := by decide
  obtain ⟨r, s, hx, hen⟩ := exec_yields h hk (m := 0) (i := 0) rfl (.symlink none (.straight .symlink) none)
  have hfi : ((Op.symlink none (.straight .symlink) none).exec 0 0 (boot true)).toOption.any
      (fun p => p.2.numFiles = 2 ∧ p.2.console = some 0 ∧ (p.2.file 0).refCount = 1 ∧
        p.2.file 1 = ⟨1, 193, .symlink, 0, false⟩) = true := by decide +kernel
  simp only [hx, Except.toOption, any_some, decide_eq_true_eq] at hfi
  obtain ⟨hN, hc, hf0, hf⟩ := hfi
  have hnot : ¬ Matched s := fun hm => hen.matched_iff.mp hm hle
  refine ⟨s, .tail (e := (0, .symlink none (.straight .symlink) none)) (.refl _) ⟨0, r, rfl, hx⟩ trivial, by rw [hf],
    by rw [hf], ?_, hnot⟩
  obtain ⟨-, ⟨-, f, hhe⟩ | ⟨hl, -⟩⟩ := hen
  · have hco : 0 < s.refs 0 := by
      unfold refs
      rw [if_pos hc]
      omega
    have h0 := hhe.count 0 (by omega)
    have h1 := hhe.count 1 (by omega)
    have hlt : f < s.numFiles := hhe.lt (by rw [one_self]; omega)
    obtain rfl : f = 1 := by
      by_contra hne
      obtain rfl : f = 0 := by omega
      rw [one_self] at h0
      omega
    rw [one_self, hf] at h1
    simpa using h1
  · exact absurd hle hl

end Yagura.Fds
