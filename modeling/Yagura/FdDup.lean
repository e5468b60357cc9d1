import Yagura.FdsSound

/-!
# Duplicating descriptors

`dup2`, `dup3` and `fcntl` with `F_DUPFD` change nothing or one slot.
-/

namespace Yagura.Fds

open Prog

inductive Dup
  | dup2 (oldfd newfd : Int)
  | dup3 (oldfd newfd : Int)
  | fcntl (fd : Int) (arg : Nat)

def Dup.run (i : Nat) : Dup → Call (Except Errno Nat)
  | .dup2 oldfd newfd => sysDup2 i oldfd newfd
  | .dup3 oldfd newfd => sysDup3 i oldfd newfd
  | .fcntl fd arg => sysFcntl i fd F_DUPFD arg

def Dup.source : Dup → Int
  | .dup2 oldfd _ | .dup3 oldfd _ | .fcntl oldfd _ => oldfd

def Dup.Asks (s : Fds) (i n : Nat) : Dup → Prop
  | .dup2 _ newfd | .dup3 _ newfd => (n : Int) = newfd ∧ n < OPEN_MAX
  | .fcntl _ arg => IsLeast {m | arg ≤ m ∧ s.Free i m} n

def Dup.Same : Dup → Prop
  | .dup2 oldfd newfd | .dup3 oldfd newfd => oldfd = newfd
  | .fcntl _ _ => False

/-- A call that fails changes nothing, one that succeeds changes the slot it returns. -/
def OneSlot (d : Dup) (s : Fds) (i : Nat) (r : Except Errno Nat) (t : Fds) : Prop :=
  match r with
  | .error _ => t = s
  | .ok n => ∃ f, s.lookup i d.source = .ok f ∧
      (d.Same ∧ (n : Int) = d.source ∧ t = s ∨ ¬ d.Same ∧ d.Asks s i n ∧ t = s.duplicated i n f)

def Dup.Low (d : Dup) (s : Fds) (i : Nat) : Prop :=
  ∀ f n, s.lookup i d.source = .ok f → s.Chosen i (-1) n →
    match d with
    | .dup2 oldfd newfd | .dup3 oldfd newfd => oldfd = newfd ∨ 0 ≤ newfd
    | .fcntl _ arg => arg ≤ n

variable {s t : Fds} {x k : Nat → Int} {i : Nat} {d : Dup} {r : Except Errno Nat}

theorem Dup.decided {P : Except Errno Nat → Fds → Prop} (hy : Yields (d.run i) s P)
    (hiff : ∀ r t, P r t → (OneSlot d s i r t ↔ d.Low s i)) : Yields (d.run i) s (OneSlot d s i) ↔ d.Low s i := by
  obtain ⟨r, t, hrun, hp⟩ := hy
  refine ⟨fun ⟨_, _, hr, hq⟩ => ?_, fun hlow => ⟨r, t, hrun, (hiff r t hp).mpr hlow⟩⟩
  cases hr.symm.trans hrun
  exact (hiff r t hp).mp hq

theorem oneSlot_refused {e : Errno} (hf : s.lookup i d.source = .error e) (h : r = .error e ∧ t = s) :
    OneSlot d s i r t ↔ d.Low s i := by
  obtain ⟨rfl, rfl⟩ := h
  exact iff_of_true rfl fun f n hf' => by cases hf.symm.trans hf'

theorem dup_one_slot_iff (h : Held s x) (hx : ∀ g, 0 ≤ x g) (hk : Tabled s k) (hi : i < s.numTables) (d : Dup) :
    Yields (d.run i) s (OneSlot d s i) ↔ d.Low s i := by
  cases d with
  | dup2 oldfd newfd | dup3 oldfd newfd =>
    refine Dup.decided (dup3_yields h hx hk hi oldfd newfd) fun r t ⟨_, ht⟩ => ?_
    cases hf : s.lookup i oldfd with
    | error e => exact oneSlot_refused hf (by rwa [hf] at ht)
    | ok f =>
      simp only [hf] at ht
      split_ifs at ht with he
      · obtain ⟨rfl, rfl⟩ := ht
        exact iff_of_true ⟨f, hf, .inl ⟨he, Int.toNat_of_nonneg (lookup_ok hf).1, rfl⟩⟩ fun _ _ _ _ => .inl he
      cases r with
      | error e => exact iff_of_true ht.1 fun _ n _ hn => .inr (ht.2.resolve_right fun hno => hno n hn)
      | ok j =>
        obtain ⟨rfl, hj⟩ := ht
        split_ifs at hj with h0
        · exact iff_of_true ⟨f, hf, .inr ⟨he, hj, rfl⟩⟩ fun _ _ _ _ => .inr h0
        · refine iff_of_false ?_ fun hlow => (hlow f j hf hj).elim he h0
          rintro ⟨-, -, ⟨hsa, -⟩ | ⟨-, ⟨hask, -⟩, -⟩⟩
          · exact he hsa
          · omega
  | fcntl fd arg =>
    refine Dup.decided (P := fun r t => match s.lookup i fd with
      | .error e => r = .error e ∧ t = s
      | .ok f => Duplicates s i (-1) f r t) (getFile_bind (fun e he => .pure ?_) fun f hf => ?_) fun r t ht => ?_
    · simp only [he, and_self]
    · simp only [hf]
      exact (dupFile_yields h (refs_of_lookup hi hf (hx f)) hk hi).mono fun _ _ hu => hu.2.duplicates
    cases hf : s.lookup i fd with
    | error e => exact oneSlot_refused hf (by rwa [hf] at ht)
    | ok f =>
      simp only [hf] at ht
      cases r with
      | error e => exact iff_of_true ht.1 fun _ n _ hn => absurd hn (ht.2.resolve_left (by decide) n)
      | ok j =>
        obtain ⟨rfl, hj⟩ := ht
        constructor
        · rintro ⟨-, -, ⟨⟨⟩, -⟩ | ⟨-, hask, -⟩⟩ _ n _ hn
          exact hask.1.1.trans (hj.2 n hn.1)
        · intro hlow
          exact ⟨f, hf, .inr ⟨id, ⟨⟨hlow f j hf hj, hj.1⟩, fun m hm => hj.2 m hm.2⟩, rfl⟩⟩

def opening : List (Nat × Op) := [(0, .open none O_RDWR (.straight .regular))]

theorem dup_one_slot_two : ∃ s, Run Step tidy (boot true) s ∧ Yields ((Dup.dup2 0 2).run 0) s (OneSlot (.dup2 0 2) s 0) := by
  obtain ⟨s, hr, hi⟩ := exists_follow next tidy opening (boot true) (fun s => 0 < s.numTables) (by decide +kernel)
  have hr := hr.imp fun _ _ _ => next_step
  obtain ⟨h, hk⟩ := held_of_run hr
  exact ⟨s, hr, (dup_one_slot_iff h (fun _ => le_rfl) hk hi (.dup2 0 2)).mpr fun _ _ _ _ => .inr (by decide)⟩

/-- The process asks for descriptor -1 and gets descriptor 1. -/
theorem dup_fills_other_slot : ∃ s t, Run Step tidy (boot true) s ∧ (Dup.dup2 0 (-1)).run 0 s = .ok (.ok 1, t) ∧
    (s.table 0).entries 1 = none ∧ (t.table 0).entries 1 = some 1 ∧ ¬ OneSlot (.dup2 0 (-1)) s 0 (.ok 1) t := by
  obtain ⟨s, hr, hnn, _, t, hrun, rfl, hso⟩ := exists_follow next tidy opening (boot true)
    (fun s => (s.table 0).entries 1 = none ∧ Yields ((Dup.dup2 0 (-1)).run 0) s fun r t =>
      r = .ok 1 ∧ (t.table 0).entries 1 = some 1) (by decide +kernel)
  refine ⟨s, t, hr.imp fun _ _ _ => next_step, hrun, hnn, hso, ?_⟩
  rintro ⟨-, -, ⟨⟨⟩, -⟩ | ⟨-, ⟨⟨⟩, -⟩, -⟩⟩

end Yagura.Fds
