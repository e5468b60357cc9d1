import Mathlib

/-!
# Programs with a state and traps

A program reads and writes a state and either returns or traps. The rules
invert a successful (or trapped) run of a composed program into the runs of
its parts; a counting loop has an invariant rule.
-/

namespace Yagura

def Prog (σ ε α : Type) : Type := σ → Except ε (α × σ)

namespace Prog

variable {σ τ ε α β : Type}

protected def pure (a : α) : Prog σ ε α := fun s => .ok (a, s)

protected def bind (x : Prog σ ε α) (f : α → Prog σ ε β) : Prog σ ε β := fun s =>
  match x s with
  | .ok (a, t) => f a t
  | .error e => .error e

instance : Monad (Prog σ ε) where
  pure := Prog.pure
  bind := Prog.bind

def get : Prog σ ε σ := fun s => .ok (s, s)

def modify (f : σ → σ) : Prog σ ε Unit := fun s => .ok ((), f s)

def trap (e : ε) : Prog σ ε α := fun _ => .error e

def ensure (p : Prop) [Decidable p] (e : ε) : Prog σ ε Unit := fun s => if p then .ok ((), s) else .error e

def look (f : σ → Except ε α) : Prog σ ε α := fun s =>
  match f s with
  | .ok a => .ok (a, s)
  | .error e => .error e

def on (part : σ → τ) (put : σ → τ → σ) (x : Prog τ ε α) : Prog σ ε α := fun s =>
  match x (part s) with
  | .ok (a, t) => .ok (a, put s t)
  | .error e => .error e

def after (x : Prog σ ε α) (s : σ) : Option σ :=
  match x s with
  | .ok (_, t) => some t
  | .error _ => none

theorem after_some {x : Prog σ ε α} {s t : σ} (h : x.after s = some t) : ∃ a, x s = .ok (a, t) := by
  unfold after at h
  split at h
  · rename_i a u hrun
    cases h
    exact ⟨a, hrun⟩
  · cases h

/-! ## Running a program -/

section
variable {s : σ} {e : ε}

theorem pure_run (a : α) : (pure a : Prog σ ε α) s = .ok (a, s) := rfl

theorem bind_run {x : Prog σ ε α} {f : α → Prog σ ε β} {a : α} {t : σ} (h : x s = .ok (a, t)) :
    (x >>= f) s = f a t := by
  simp only [Bind.bind, Prog.bind, h]

theorem get_bind (f : σ → Prog σ ε β) : (get >>= f) s = f s s := rfl

theorem modify_run (g : σ → σ) : (modify g : Prog σ ε Unit) s = .ok ((), g s) := rfl

theorem modify_bind (g : σ → σ) (f : Unit → Prog σ ε β) : (modify g >>= f) s = f () (g s) := rfl

theorem ensure_bind {p : Prop} [Decidable p] (f : Unit → Prog σ ε β) :
    (ensure p e >>= f) s = if p then f () s else .error e := by
  by_cases hp : p
  · simp only [Bind.bind, Prog.bind, ensure, if_pos hp]
  · simp only [Bind.bind, Prog.bind, ensure, if_neg hp]

end

/-! ## What a successful run did -/

section
variable {s s' : σ} {a : α} {b : β} {e : ε} {f : α → Prog σ ε β}

theorem bind_ok {x : Prog σ ε α} : (x >>= f) s = .ok (b, s') ↔ ∃ a t, x s = .ok (a, t) ∧ f a t = .ok (b, s') := by
  simp only [Bind.bind, Prog.bind]
  cases h : x s with
  | error e => simp
  | ok p =>
    obtain ⟨a, t⟩ := p
    simp

theorem bind_error {x : Prog σ ε α} :
    (x >>= f) s = .error e ↔ x s = .error e ∨ ∃ a t, x s = .ok (a, t) ∧ f a t = .error e := by
  simp only [Bind.bind, Prog.bind]
  cases h : x s with
  | error e => simp
  | ok p =>
    obtain ⟨a, t⟩ := p
    simp

@[simp] theorem pure_ok {c : α} : (pure a : Prog σ ε α) s = .ok (c, s') ↔ a = c ∧ s = s' := by
  simp [Pure.pure, Prog.pure]

theorem pure_inj {c : α} (h : (pure a : Prog σ ε α) s = .ok (c, s')) : (a, s) = (c, s') :=
  Prod.ext_iff.mpr (pure_ok.mp h)

@[simp] theorem get_ok {t : σ} : (get : Prog σ ε σ) s = .ok (t, s') ↔ s = t ∧ s = s' := by
  simp [get]

@[simp] theorem modify_ok {f : σ → σ} {u : Unit} : (modify f : Prog σ ε Unit) s = .ok (u, s') ↔ f s = s' := by
  simp [modify]

@[simp] theorem trap_ok {e : ε} : ¬ (trap e : Prog σ ε α) s = .ok (a, s') := by
  simp [trap]

@[simp] theorem ensure_ok {p : Prop} [Decidable p] {u : Unit} :
    (ensure p e : Prog σ ε Unit) s = .ok (u, s') ↔ p ∧ s = s' := by
  unfold ensure
  split <;> simp_all

@[simp] theorem look_ok {f : σ → Except ε α} : look f s = .ok (a, s') ↔ f s = .ok a ∧ s = s' := by
  unfold look
  split <;> simp_all

theorem on_ok {part : σ → τ} {put : σ → τ → σ} {x : Prog τ ε α} :
    on part put x s = .ok (a, s') ↔ ∃ t, x (part s) = .ok (a, t) ∧ put s t = s' := by
  unfold on
  split <;> simp_all

theorem get_bind_ok {f : σ → Prog σ ε β} (h : (get >>= f) s = .ok (b, s')) : f s s = .ok (b, s') :=
  (get_bind f).symm.trans h

theorem ensure_bind_ok {p : Prop} [Decidable p] {f : Unit → Prog σ ε β} (h : (ensure p e >>= f) s = .ok (b, s')) :
    p ∧ f () s = .ok (b, s') := by
  rw [ensure_bind] at h
  split at h
  · next hp => exact ⟨hp, h⟩
  · cases h

end

-- From here on programs are taken apart by these rules only.
attribute [irreducible] Prog.bind Prog.pure

/-! ## Counting loops -/

def forUp (body : Nat → Prog σ ε Unit) : Nat → Nat → Prog σ ε Unit
  | 0, _ => pure ()
  | k + 1, i => do
    body i
    forUp body k (i + 1)

/-- A loop whose body may fail; it stops there and returns the failure and the index. -/
def forUpOr {κ : Type} (body : Nat → Prog σ ε (Except κ Unit)) : Nat → Nat → Prog σ ε (Except (κ × Nat) Unit)
  | 0, _ => pure (.ok ())
  | k + 1, i => do
    match ← body i with
    | .error e => pure (.error (e, i))
    | .ok () => forUpOr body k (i + 1)

def forEach (body : α → Prog σ ε Unit) : List α → Prog σ ε Unit
  | [] => pure ()
  | a :: as => do
    body a
    forEach body as

theorem forEach_ok {body : α → Prog σ ε Unit} {I : σ → Prop} {as : List α} {s s' : σ} {u : Unit}
    (hbo : ∀ a t t', I t → body a t = .ok ((), t') → I t') (h0 : I s) (h : forEach body as s = .ok (u, s')) :
    I s' := by
  induction as generalizing s with
  | nil =>
    cases pure_inj h
    exact h0
  | cons a as ih =>
    obtain ⟨_, t, h1, h2⟩ := bind_ok.mp h
    exact ih (hbo a s t h0 h1) h2

section
variable {κ : Type} {I : Nat → σ → Prop} {s s' : σ} {u : Unit}

theorem forUp_ok {body : Nat → Prog σ ε Unit} {k i : Nat}
    (hbo : ∀ j t t', i ≤ j → j < i + k → I j t → body j t = .ok ((), t') → I (j + 1) t')
    (h0 : I i s) (h : forUp body k i s = .ok (u, s')) : I (i + k) s' := by
  induction k generalizing i s with
  | zero =>
    cases pure_inj h
    exact h0
  | succ k ih =>
    obtain ⟨_, t, h1, h2⟩ := bind_ok.mp h
    have := ih (fun j t t' hj hk => hbo j t t' (by omega) (by omega)) (hbo i s t le_rfl (by omega) h0 h1) h2
    rwa [show i + 1 + k = i + (k + 1) by omega] at this

end

/-! ## What a run yields -/

/-- `x` returns from `s`, and what it returns and leaves satisfies `Q`. -/
def Yields (x : Prog σ ε α) (s : σ) (Q : α → σ → Prop) : Prop := ∃ a t, x s = .ok (a, t) ∧ Q a t

instance {x : Prog σ ε α} {s : σ} {Q : α → σ → Prop} [∀ a t, Decidable (Q a t)] : Decidable (Yields x s Q) :=
  match h : x s with
  | .ok (a, t) => decidable_of_iff (Q a t) ⟨fun hq => ⟨a, t, h, hq⟩, fun ⟨_, _, h', hq⟩ => by cases h.symm.trans h'; exact hq⟩
  | .error _ => isFalse fun ⟨_, _, h', _⟩ => nomatch h.symm.trans h'

section
variable {s : σ} {Q : β → σ → Prop} {P : α → σ → Prop}

theorem Yields.pure {a : α} {Q : α → σ → Prop} (h : Q a s) : Yields (pure a : Prog σ ε α) s Q := ⟨a, s, pure_run a, h⟩

theorem Yields.mono {x : Prog σ ε α} {Q : α → σ → Prop} (hx : Yields x s P) (h : ∀ a t, P a t → Q a t) :
    Yields x s Q := by
  obtain ⟨a, t, hr, hp⟩ := hx
  exact ⟨a, t, hr, h a t hp⟩

theorem Yields.bind {x : Prog σ ε α} {f : α → Prog σ ε β} (hx : Yields x s P) (hf : ∀ a t, P a t → Yields (f a) t Q) :
    Yields (x >>= f) s Q := by
  obtain ⟨a, t, hr, hp⟩ := hx
  obtain ⟨b, u, hr', hq⟩ := hf a t hp
  exact ⟨b, u, (bind_run hr).trans hr', hq⟩

theorem Yields.get {f : σ → Prog σ ε β} (hf : Yields (f s) s Q) : Yields (Prog.get >>= f) s Q := by
  obtain ⟨b, t, hr, hq⟩ := hf
  exact ⟨b, t, (get_bind f).trans hr, hq⟩

theorem Yields.modify {g : σ → σ} {Q : Unit → σ → Prop} (h : Q () (g s)) : Yields (modify g : Prog σ ε Unit) s Q :=
  ⟨(), g s, modify_run g, h⟩

theorem Yields.modify_bind {g : σ → σ} {f : Unit → Prog σ ε β} (h : Yields (f ()) (g s) Q) :
    Yields (Prog.modify g >>= f) s Q := .bind (P := fun _ t => t = g s) (.modify rfl) fun _ _ ht => ht ▸ h

theorem Yields.forUp {body : Nat → Prog σ ε Unit} {I : Nat → σ → Prop} {k i : Nat} (h0 : I i s)
    (hbo : ∀ j t, i ≤ j → j < i + k → I j t → Yields (body j) t fun _ t' => I (j + 1) t') :
    Yields (forUp body k i) s fun _ t => I (i + k) t := by
  induction k generalizing i s with
  | zero => exact .pure h0
  | succ k ih =>
    refine .bind (hbo i s le_rfl (by omega) h0) fun _ t ht => ?_
    have := ih ht fun j t hj hk => hbo j t (by omega) (by omega)
    rwa [show i + 1 + k = i + (k + 1) by omega] at this

end

/-! ## How a run ends -/

def Ends (bad : ε → Prop) (x : Prog σ ε α) (s : σ) (Q : α → σ → Prop) : Prop :=
  match x s with
  | .ok (a, t) => Q a t
  | .error e => bad e

section
variable {bad : ε → Prop} {s : σ} {x : Prog σ ε α} {Q P : α → σ → Prop} {a : α} {t : σ} {e : ε} {f : α → Prog σ ε β}

theorem Ends.of_ok (hx : x s = .ok (a, t)) (h : Q a t) : Ends bad x s Q := by
  unfold Ends
  rw [hx]
  exact h

theorem Ends.of_error (hx : x s = .error e) (h : bad e) : Ends bad x s Q := by
  unfold Ends
  rw [hx]
  exact h

theorem Ends.ok (h : Ends bad x s Q) (hx : x s = .ok (a, t)) : Q a t := by
  unfold Ends at h
  rwa [hx] at h

theorem Ends.error (h : Ends bad x s Q) (hx : x s = .error e) : bad e := by
  unfold Ends at h
  rwa [hx] at h

theorem Ends.of_eq {y : Prog σ ε α} (hxy : x s = y t) (hy : Ends bad y t Q) : Ends bad x s Q := by
  unfold Ends at hy ⊢
  rwa [hxy]

theorem Ends.mono (hx : Ends bad x s P) (h : ∀ a t, P a t → Q a t) : Ends bad x s Q := by
  unfold Ends at hx ⊢
  split at hx
  · exact h _ _ hx
  · exact hx

theorem Ends.weaken {bad' : ε → Prop} (hx : Ends bad x s Q) (h : ∀ e, bad e → bad' e) : Ends bad' x s Q := by
  unfold Ends at hx ⊢
  split at hx
  · exact hx
  · exact h _ hx

theorem Yields.ends (hx : Yields x s Q) : Ends bad x s Q := by
  obtain ⟨a, t, hrun, hq⟩ := hx
  exact .of_ok hrun hq

theorem Yields.ok (h : Yields x s Q) (hx : x s = .ok (a, t)) : Q a t := by
  obtain ⟨_, _, hrun, hq⟩ := h
  cases hrun.symm.trans hx
  exact hq

theorem Yields.run_bind {Q : β → σ → Prop} (hx : x s = .ok (a, t)) (hf : Yields (f a) t Q) :
    Yields (x >>= f) s Q := by
  unfold Yields at hf ⊢
  rwa [bind_run hx]

theorem Ends.pure (h : Q a s) : Ends bad (pure a : Prog σ ε α) s Q := .of_ok (pure_run a) h

theorem Ends.trap (h : bad e) : Ends bad (trap e : Prog σ ε α) s Q := .of_error rfl h

theorem Ends.bind {Q : β → σ → Prop} (hx : Ends bad x s P) (hf : ∀ a t, P a t → Ends bad (f a) t Q) :
    Ends bad (x >>= f) s Q := by
  cases hrun : x s with
  | ok p => exact .of_eq (bind_run hrun) (hf p.1 p.2 (hx.ok hrun))
  | error e => exact .of_error (bind_error.mpr (.inl hrun)) (hx.error hrun)

theorem Ends.bind_of_run {Q : β → σ → Prop} (hx : Ends bad x s P)
    (hf : ∀ a t, x s = .ok (a, t) → P a t → Ends bad (f a) t Q) : Ends bad (x >>= f) s Q := by
  refine .bind (P := fun a t => x s = .ok (a, t) ∧ P a t) ?_ fun a t h => hf a t h.1 h.2
  unfold Ends at hx ⊢
  split at hx
  · rename_i hrun
    exact ⟨hrun, hx⟩
  · exact hx

theorem Ends.run_bind {Q : β → σ → Prop} (hx : x s = .ok (a, t)) (hf : Ends bad (f a) t Q) :
    Ends bad (x >>= f) s Q := .of_eq (bind_run hx) hf

theorem Ends.get {f : σ → Prog σ ε β} {Q : β → σ → Prop} (hf : Ends bad (f s) s Q) : Ends bad (Prog.get >>= f) s Q :=
  .of_eq (get_bind f) hf

theorem Ends.modify {g : σ → σ} {Q : Unit → σ → Prop} (h : Q () (g s)) : Ends bad (modify g : Prog σ ε Unit) s Q :=
  .of_ok (modify_run g) h

theorem Ends.modify_bind {g : σ → σ} {f : Unit → Prog σ ε β} {Q : β → σ → Prop} (h : Ends bad (f ()) (g s) Q) :
    Ends bad (Prog.modify g >>= f) s Q := .of_eq (Prog.modify_bind g f) h

theorem Ends.ensure_bind {p : Prop} [Decidable p] {f : Unit → Prog σ ε β} {Q : β → σ → Prop} (hp : p)
    (h : Ends bad (f ()) s Q) : Ends bad (ensure p e >>= f) s Q :=
  .of_eq ((Prog.ensure_bind f).trans (if_pos hp)) h

end

/-! ## If a run returns -/

/-- If `x` returns from `s`, what it returns and leaves satisfies `Q`. -/
def Gives (x : Prog σ ε α) (s : σ) (Q : α → σ → Prop) : Prop := ∀ a t, x s = .ok (a, t) → Q a t

section
variable {s : σ} {e : ε} {x y : Prog σ ε α} {f : α → Prog σ ε β} {P R : α → σ → Prop} {Q : β → σ → Prop}
  {p : Prop} [Decidable p]

theorem Gives.pure {a : α} (h : R a s) : Gives (pure a : Prog σ ε α) s R := by
  intro b t hrun
  cases pure_inj hrun
  exact h

theorem Gives.trap : Gives (trap e : Prog σ ε α) s R := fun _ _ hrun => absurd hrun trap_ok

theorem Gives.run : Gives x s fun a t => x s = .ok (a, t) := fun _ _ hrun => hrun

theorem Gives.bind (hx : Gives x s P) (hf : ∀ a t, P a t → Gives (f a) t Q) : Gives (x >>= f) s Q := by
  intro b u hrun
  obtain ⟨a, t, h1, h2⟩ := bind_ok.mp hrun
  exact hf a t (hx a t h1) b u h2

theorem Gives.bindOr {κ : Type} {x : Prog σ ε (Except κ α)} {f : Except κ α → Prog σ ε β} {P : Except κ α → σ → Prop}
    (hx : Gives x s P) (he : ∀ k t, P (.error k) t → Gives (f (.error k)) t Q)
    (hf : ∀ a t, P (.ok a) t → Gives (f (.ok a)) t Q) : Gives (x >>= f) s Q :=
  .bind hx fun r t h => by
    cases r with
    | error k => exact he k t h
    | ok a => exact hf a t h

theorem Gives.get {f : σ → Prog σ ε β} (h : Gives (f s) s Q) : Gives (Prog.get >>= f) s Q :=
  fun b t hrun => h b t (get_bind_ok hrun)

theorem Gives.modify {g : σ → σ} {f : Unit → Prog σ ε β} (h : Gives (f ()) (g s) Q) : Gives (modify g >>= f) s Q :=
  fun b t hrun => h b t ((modify_bind g f).symm.trans hrun)

theorem Gives.ensure {f : Unit → Prog σ ε β} (h : p → Gives (f ()) s Q) : Gives (ensure p e >>= f) s Q :=
  fun b t hrun => h (ensure_bind_ok hrun).1 b t (ensure_bind_ok hrun).2

theorem Gives.ite (hx : p → Gives x s P) (hy : ¬ p → Gives y s P) : Gives (if p then x else y) s P := by
  split
  · exact hx ‹p›
  · exact hy ‹¬ p›

end

/-! ## What every run keeps -/

def Keeps {γ : Type} (f : σ → γ) (x : Prog σ ε α) : Prop := ∀ s a s', x s = .ok (a, s') → f s' = f s

section
variable {κ γ : Type} {f : σ → γ}

theorem Keeps.bind {x : Prog σ ε α} {k : α → Prog σ ε β} (hx : Keeps f x) (hk : ∀ a, Keeps f (k a)) :
    Keeps f (x >>= k) := by
  intro s b s' h
  obtain ⟨a, t, h1, h2⟩ := bind_ok.mp h
  exact (hk a t b s' h2).trans (hx s a t h1)

theorem Keeps.pure (a : α) : Keeps f (pure a : Prog σ ε α) := by
  intro s b s' h
  cases pure_inj h
  rfl

theorem Keeps.get : Keeps f (get : Prog σ ε σ) := by
  intro s b s' h
  obtain ⟨-, rfl⟩ := get_ok.mp h
  rfl

theorem Keeps.ensure {p : Prop} [Decidable p] {e : ε} : Keeps f (ensure p e : Prog σ ε Unit) := by
  intro s b s' h
  obtain ⟨-, rfl⟩ := ensure_ok.mp h
  rfl

theorem Keeps.modify {g : σ → σ} (hg : ∀ s, f (g s) = f s) : Keeps f (modify g : Prog σ ε Unit) := by
  intro s b s' h
  rw [← modify_ok.mp h]
  exact hg s

theorem Keeps.ite {p : Prop} [Decidable p] {x y : Prog σ ε α} (hx : Keeps f x) (hy : Keeps f y) :
    Keeps f (if p then x else y) := by
  split
  · exact hx
  · exact hy

theorem Keeps.forUp {body : Nat → Prog σ ε Unit} (hb : ∀ i, Keeps f (body i)) (k i : Nat) :
    Keeps f (forUp body k i) := by
  induction k generalizing i with
  | zero => exact .pure ()
  | succ k ih => exact .bind (hb i) fun _ => ih (i + 1)

theorem Keeps.forUpOr {body : Nat → Prog σ ε (Except κ Unit)} (hb : ∀ i, Keeps f (body i)) (k i : Nat) :
    Keeps f (forUpOr body k i) := by
  induction k generalizing i with
  | zero => exact .pure _
  | succ k ih =>
    refine .bind (hb i) fun r => ?_
    cases r with
    | error e => exact .pure _
    | ok u => exact ih (i + 1)

end

end Prog

end Yagura
