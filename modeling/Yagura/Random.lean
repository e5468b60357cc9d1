import Yagura.Prog
import Yagura.Errno

/-!
# Random bytes

`random_get` (`random.c`) fills a range in three parts: up to the first word
boundary, whole words, and what is left behind the last boundary.
-/

namespace Yagura.Random

open Errno List Prog

/-- The generators, with what each `rdrand` instruction to come gives; `none` if it leaves the carry flag clear. -/
structure Rng where
  useRdrand : Bool
  instructions : Nat → Option UInt32
  executed : Nat
  s : Fin 4 → UInt32

def rdrand : Nat → Rng → Option UInt32 × Rng
  | 0, g => (none, g)
  | retry + 1, g =>
    let g' := { g with executed := g.executed + 1 }
    match g.instructions g.executed with
    | some v => (some v, g')
    | none => rdrand retry g'

def rotl (x k : UInt32) : UInt32 := (x <<< k) ||| (x >>> (32 - k))

def xoshiro128plusplusNext (g : Rng) : UInt32 × Rng :=
  let s2 := g.s 2 ^^^ g.s 0
  let s3 := g.s 3 ^^^ g.s 1
  (rotl (g.s 0 + g.s 3) 7 + g.s 0,
    { g with s := ![g.s 0 ^^^ s3, g.s 1 ^^^ s2, s2 ^^^ (g.s 1 <<< 9), rotl s3 11] })

def next (g : Rng) : Option UInt32 × Rng :=
  if g.useRdrand then rdrand 10 g else ((xoshiro128plusplusNext g).1, (xoshiro128plusplusNext g).2)

structure Fill where
  rng : Rng
  drawn : List UInt32
  written : List (Nat × UInt8)

def byte (v : UInt32) (k : Fin 4) : UInt8 := (v >>> (8 * k.val).toUInt32).toUInt8

abbrev FillProg := Prog Fill Errno

def draw (p : Nat) (ks : List (Fin 4)) : FillProg Unit := fun f =>
  match next f.rng with
  | (none, _) => .error EIO
  | (some v, g) => .ok ((), ⟨g, f.drawn ++ [v], f.written ++ (ks.zipIdx p).map fun (k, a) => (a, byte v k)⟩)

def fillRemainder (buffer count : Nat) : FillProg Unit :=
  draw buffer (match count with | 3 => [0, 1, 2] | 2 => [1, 2] | 1 => [2] | _ => [])

def fillWords : Nat → Nat → FillProg Unit
  | 0, _ => pure ()
  | n + 1, p => do
    draw p [0, 1, 2, 3]
    fillWords n (p + 4)

def wordsUp (a : Nat) : Nat := (a + 3) % 2 ^ 32 / 4 * 4

def randomGet (buffer count : Nat) : FillProg Nat := do
  let aligned := wordsUp buffer
  let stop := (buffer + count) % 2 ^ 32
  let suffix := stop / 4 * 4
  (if buffer < aligned then fillRemainder buffer (aligned - buffer) else pure ())
  fillWords ((suffix - aligned) / 4) aligned
  (if suffix < stop then fillRemainder suffix (stop - suffix) else pure ())
  pure count

/-! ## What is written -/

def Fill.addresses (f : Fill) : List Nat := f.written.map Prod.fst

/-- Each byte written is one of an output drawn. -/
def Fill.Drawn (f : Fill) : Prop := ∀ w ∈ f.written, ∃ v ∈ f.drawn, ∃ k, w.2 = byte v k

section
variable {f : Fill} {p k : Nat} (h : f.Drawn)
include h

theorem draw_gives {ks : List (Fin 4)} :
    Gives (draw p ks) f fun _ f' => f'.addresses = f.addresses ++ range' p ks.length ∧ f'.Drawn := by
  intro _ f' hrun
  unfold draw at hrun
  split at hrun
  · cases hrun
  · next v g _ =>
    cases hrun
    have hz : (ks.zipIdx p).map (fun x => x.2) = range' p ks.length := zipIdx_map_snd p ks
    refine ⟨?_, fun w hw => ?_⟩
    · simp only [Fill.addresses, map_append, map_map, Function.comp_def, hz]
    · rcases mem_append.mp hw with hw | hw
      · obtain ⟨v, hv, k, hk⟩ := h w hw
        exact ⟨v, mem_append_left _ hv, k, hk⟩
      · obtain ⟨x, -, rfl⟩ := mem_map.mp hw
        exact ⟨v, by simp, x.1, rfl⟩

theorem fillRemainder_gives (hk : k ≤ 3) :
    Gives (fillRemainder p k) f fun _ f' => f'.addresses = f.addresses ++ range' p k ∧ f'.Drawn := by
  intro u f' hrun
  have hd := draw_gives h u f' hrun
  interval_cases k <;> exact hd

theorem fillWords_gives :
    Gives (fillWords k p) f fun _ f' => f'.addresses = f.addresses ++ range' p (4 * k) ∧ f'.Drawn := by
  induction k generalizing f p with
  | zero => exact .pure ⟨(append_nil _).symm, h⟩
  | succ k ih =>
    refine .bind (draw_gives h) fun _ f' h' u f'' hrun => ?_
    obtain ⟨ha, hd⟩ := ih h'.2 u f'' hrun
    refine ⟨ha.trans ?_, hd⟩
    rw [h'.1, append_assoc, Nat.mul_succ, Nat.add_comm (4 * k)]
    exact congrArg (f.addresses ++ ·) range'_append_1

end

/-- The prefix and the suffix are filled without a look at each other. -/
theorem randomGet_gives {buffer count : Nat} (g : Rng) :
    Gives (randomGet buffer count) ⟨g, [], []⟩ fun r f => r = count ∧ f.Drawn ∧
      f.addresses = range' buffer (wordsUp buffer - buffer) ++
        range' (wordsUp buffer) (4 * (((buffer + count) % 2 ^ 32 / 4 * 4 - wordsUp buffer) / 4)) ++
        range' ((buffer + count) % 2 ^ 32 / 4 * 4) ((buffer + count) % 2 ^ 32 - (buffer + count) % 2 ^ 32 / 4 * 4) := by
  have h0 : Fill.Drawn ⟨g, [], []⟩ := nofun
  have edge {f : Fill} {p q : Nat} (h : f.Drawn) (hq : q - p ≤ 3) :
      Gives (if p < q then fillRemainder p (q - p) else pure ()) f
        fun _ f' => f'.addresses = f.addresses ++ range' p (q - p) ∧ f'.Drawn := by
    refine .ite (fun _ => fillRemainder_gives h hq) fun hle => .pure ⟨?_, h⟩
    rw [Nat.sub_eq_zero_of_le (not_lt.mp hle)]
    exact (append_nil _).symm
  refine .bind (edge h0 ?_) fun _ f h1 => .bind (fillWords_gives h1.2) fun _ f' h2 =>
    .bind (edge h2.2 (by omega)) fun _ f'' h3 => .pure ⟨rfl, h3.2, ?_⟩
  · unfold wordsUp
    omega
  · rw [h3.1, h2.1, h1.1]
    rfl

structure Fill.Filled (f : Fill) (a n : Nat) : Prop where
  exact : ∀ x, x ∈ f.addresses ↔ a ≤ x ∧ x < a + n
  drawn : f.Drawn

/-- The range ends below the last address, and one that starts off a word boundary reaches the next. -/
def Reaches (buffer count : Nat) : Prop :=
  buffer + count < 2 ^ 32 ∧ (buffer % 4 = 0 ∨ buffer / 4 * 4 + 4 ≤ buffer + count)

theorem randomGet_fills_iff {buffer count : Nat} (g : Rng) (hb : buffer < 2 ^ 32) (hwrap : buffer + count ≤ 2 ^ 32) :
    Gives (randomGet buffer count) ⟨g, [], []⟩ fun r f => r = count ∧ (f.Filled buffer count ↔ Reaches buffer count) := by
  intro r f hrun
  obtain ⟨hr, hd, ha⟩ := randomGet_gives g r f hrun
  refine ⟨hr, ⟨fun h => ?_, fun h => ⟨fun x => ?_, hd⟩⟩⟩
  · have hx := h.exact
    rw [ha] at hx
    simp only [mem_append, mem_range'_1] at hx
    unfold Reaches
    -- a byte of the prefix behind the range, or the first byte of the whole words before it
    have h1 := hx (wordsUp buffer - 1)
    have h2 := hx (wordsUp buffer)
    have h3 := hx (buffer + count - 1)
    unfold wordsUp at h1 h2 h3
    omega
  · obtain ⟨hlt, hre⟩ := h
    rw [ha]
    simp only [mem_append, mem_range'_1, Nat.mod_eq_of_lt hlt]
    unfold wordsUp
    omega

def soft : Rng := ⟨false, fun _ => none, 0, ![1, 2, 3, 4]⟩

theorem randomGet_fills_three : ∃ f, randomGet 2 3 ⟨soft, [], []⟩ = .ok (3, f) ∧ f.Filled 2 3 := by
  have hso : ((randomGet 2 3).after ⟨soft, [], []⟩).isSome = true := by decide +kernel
  obtain ⟨f, hf⟩ := Option.isSome_iff_exists.mp hso
  obtain ⟨r, hrun⟩ := after_some hf
  obtain ⟨rfl, h⟩ := randomGet_fills_iff soft (by decide) (by decide) r f hrun
  exact ⟨f, hrun, h.mpr ⟨by decide, by decide⟩⟩

/-- The byte asked for has no word boundary before or behind it: both remainders are in its word. -/
theorem randomGet_strays : ((randomGet 1 1).after ⟨soft, [], []⟩).map (·.written.map Prod.fst) = some [1, 2, 3, 0, 1] := by
  decide +kernel

end Yagura.Random
