import Yagura.Vec

/-!
# Formatted output

`vsnprintf` (`common/stdio.c`). `PUT` stores a character and leaves the
function once the buffer is full, wherever it stands; with the size `none`
the buffer has no end. A numeric prefix goes out at once if zeros are to
follow it, and the width that is left is counted without a sign.
-/

namespace Yagura.Printf

instance charCode : Coe Char UInt8 := ⟨Char.toUInt8⟩

inductive Stop
  | tooLong (out : List UInt8)
  /-- The format ended inside a conversion. -/
  | overrun

abbrev PutProg := Prog (List UInt8) Stop

inductive Conv
  | d | i | u | x | p
  deriving DecidableEq

structure Flags where
  alternativeForm : Bool := false
  leftJustify : Bool := false
  pad0 : Bool := false
  padLen : BitVec 32 := 0

structure Spec extends Flags where
  ch : Conv

def digitChar (mod : Nat) : UInt8 := .ofNat (if mod < 10 then mod + 48 else mod - 10 + 97)

/-- The digits as the first loop of `utoa` stores them. -/
def utoaDigits (radix value : Nat) : List UInt8 :=
  digitChar (value % radix) ::
    if _h : 1 < radix ∧ value / radix ≠ 0 then utoaDigits radix (value / radix) else []
termination_by value
decreasing_by exact Nat.div_lt_self (Nat.pos_of_ne_zero fun h0 => by simp [h0] at _h) _h.1

def utoa (value radix : Nat) : List UInt8 := (utoaDigits radix value).reverse

def Spec.hex (f : Spec) : Bool := f.ch = .x || f.ch = .p

def Spec.radix (f : Spec) : Nat := if f.hex then 16 else 10

def Spec.negative (f : Spec) (value : BitVec 32) : Bool := (f.ch = .d || f.ch = .i) && value.msb

/-- What goes to `PUT_NUM_PREFIX`. -/
def Spec.pre (f : Spec) (value : BitVec 32) : List UInt8 :=
  (if f.hex && (f.alternativeForm || f.ch = .p) then ['0', 'x'] else []) ++ if f.negative value then ['-'] else []

/-- What `pad_len` and `num_buf` hold. -/
abbrev Num := BitVec 32 × List UInt8

section
variable (size : Option Nat)

def full (idx : Nat) : Bool := size.any (· ≤ idx)

def put (c : UInt8) : PutProg Unit := fun out =>
  if full size (out ++ [c]).length then .error (.tooLong (out ++ [c])) else .ok ((), out ++ [c])

def putAll : List UInt8 → PutProg Unit
  | [] => pure ()
  | c :: cs => do
    put size c
    putAll cs

def putNumPrefix (pad0 : Bool) : List UInt8 → Num → PutProg Num
  | [], num => pure num
  | c :: cs, (padLen, numBuf) =>
    if pad0 then do
      put size c
      putNumPrefix pad0 cs (padLen - 1, numBuf)
    else putNumPrefix pad0 cs (padLen, numBuf ++ [c])

def putNumber (f : Spec) (value : BitVec 32) : PutProg Unit := do
  let num ← putNumPrefix size f.pad0 (f.pre value) (f.padLen, [])
  let uvalue := if f.negative value then -value else value
  let numBuf := num.2 ++ utoa uvalue.toNat f.radix
  let pad := num.1.toNat - numBuf.length
  putAll size (if f.leftJustify then [] else List.replicate pad (if f.pad0 then '0' else ' '))
  putAll size numBuf
  putAll size (if f.leftJustify then List.replicate pad ' ' else [])

end

/-! ## What a program emits -/

section
variable {size : Option Nat} {α β : Type} {a : α} {b : β} {e e' : List UInt8}

def clip (size : Option Nat) (l : List UInt8) : List UInt8 := size.elim l l.take

/-- It emits `e`, of which a full buffer keeps the beginning. -/
def Emits (size : Option Nat) (x : PutProg α) (a : α) (e : List UInt8) : Prop :=
  ∀ out, full size out.length = false →
    x out = if full size (out ++ e).length then .error (.tooLong (clip size (out ++ e))) else .ok (a, out ++ e)

theorem Emits.congr {x : PutProg α} (h : Emits size x a e) (he : e = e') : Emits size x a e' := he ▸ h

theorem Emits.pure (a : α) : Emits size (pure a) a [] := by
  intro out h
  simp [h, Prog.pure_run]

theorem Emits.bind {x : PutProg α} {f : α → PutProg β} (hx : Emits size x a e) (hf : Emits size (f a) b e') :
    Emits size (x >>= f) b (e ++ e') := by
  intro out h
  cases hfull : full size (out ++ e).length with
  | false => rw [Prog.bind_run (by rw [hx out h, hfull]; rfl), hf _ hfull, List.append_assoc]
  | true =>
    have hstop : (x >>= f) out = .error (.tooLong (clip size (out ++ e))) :=
      Prog.bind_error.mpr (.inl (by rw [hx out h, hfull]; rfl))
    rw [hstop, ← List.append_assoc]
    cases size with
    | none => cases hfull
    | some n =>
      have hn : n ≤ (out ++ e).length := by simpa [full] using hfull
      rw [if_pos (by simp [full] at hn ⊢; omega)]
      simp only [clip, Option.elim, List.take_append_of_le_length hn]

theorem Emits.put (c : UInt8) : Emits size (put size c) () [c] := by
  intro out h
  unfold Printf.put
  cases size with
  | none => rfl
  | some n =>
    have hn : (out ++ [c]).length ≤ n := by
      simp [full] at h ⊢
      omega
    simp only [clip, Option.elim, List.take_of_length_le hn]

theorem Emits.putAll (cs : List UInt8) : Emits size (putAll size cs) () cs := by
  induction cs with
  | nil => exact .pure ()
  | cons c cs ih => exact (Emits.put c).bind ih

theorem Emits.putNumPrefix (pad0 : Bool) (cs : List UInt8) (num : Num) :
    Emits size (putNumPrefix size pad0 cs num)
      (if pad0 then (num.1 - .ofNat 32 cs.length, num.2) else (num.1, num.2 ++ cs)) (if pad0 then cs else []) := by
  induction cs generalizing num with
  | nil => cases pad0 <;> simpa [Printf.putNumPrefix] using Emits.pure num
  | cons c cs ih =>
    cases pad0 with
    | false => simpa [Printf.putNumPrefix] using ih (num.1, num.2 ++ [c])
    | true =>
      have hlen : num.1 - .ofNat 32 (c :: cs).length = num.1 - 1 - .ofNat 32 cs.length := by
        rw [List.length_cons, BitVec.sub_sub, BitVec.add_comm, BitVec.ofNat_add]
        rfl
      rw [if_pos rfl, if_pos rfl, hlen]
      exact (Emits.put c).bind (ih (num.1 - 1, num.2))

end

/-! ## What is to be emitted -/

/-- What `%d` and `%i` show is signed. -/
def Spec.magnitude (f : Spec) (value : BitVec 32) : Nat :=
  if f.ch = .d ∨ f.ch = .i then value.toInt.natAbs else value.toNat

def numeral (radix n : Nat) : List UInt8 := if n = 0 then ['0'] else ((Nat.digits radix n).map digitChar).reverse

def Spec.padded (f : Spec) (value : BitVec 32) (fill : Nat) : List UInt8 :=
  let num := numeral f.radix (f.magnitude value)
  if f.leftJustify then f.pre value ++ num ++ List.replicate fill ' '.toUInt8
  else if f.pad0 then f.pre value ++ List.replicate fill '0'.toUInt8 ++ num
  else List.replicate fill ' '.toUInt8 ++ f.pre value ++ num

def Spec.text (f : Spec) (value : BitVec 32) : List UInt8 :=
  f.padded value (f.padLen.toNat - ((f.pre value).length + (numeral f.radix (f.magnitude value)).length))

theorem utoaDigits_eq {radix : Nat} (hr : 1 < radix) (n : Nat) :
    utoaDigits radix n = if n = 0 then ['0'.toUInt8] else (Nat.digits radix n).map digitChar := by
  induction n using Nat.strong_induction_on with
  | _ n ih =>
    rw [utoaDigits]
    by_cases hn : n / radix = 0
    · have hlt : n < radix := by
        rcases Nat.div_eq_zero_iff.mp hn with h | h <;> omega
      rw [dif_neg (fun h => h.2 hn), Nat.mod_eq_of_lt hlt]
      split_ifs with h0
      · subst h0
        rfl
      · rw [Nat.digits_of_lt radix n h0 hlt]
        rfl
    · have h0 : n ≠ 0 := by
        rintro rfl
        simp at hn
      rw [dif_pos ⟨hr, hn⟩, ih _ (Nat.div_lt_self (by omega) hr), if_neg hn, if_neg h0, ← List.map_cons,
        ← Nat.digits_def' hr (Nat.pos_of_ne_zero h0)]

theorem utoa_eq {radix : Nat} (hr : 1 < radix) (n : Nat) : utoa n radix = numeral radix n := by
  rw [utoa, utoaDigits_eq hr, numeral]
  split_ifs <;> rfl

theorem numeral_length_le {radix n : Nat} (hr : 10 ≤ radix) (hn : n < 2 ^ 32) : (numeral radix n).length ≤ 10 := by
  unfold numeral
  split_ifs
  · simp
  · rw [List.length_reverse, List.length_map, Nat.digits_length_le_iff (by omega)]
    calc n < 10 ^ 10 := by omega
      _ ≤ radix ^ 10 := Nat.pow_le_pow_left hr 10

section
variable (size : Option Nat) (f : Spec) (value : BitVec 32)

theorem uvalue_eq : (if f.negative value then -value else value).toNat = f.magnitude value := by
  have hmsb := BitVec.msb_eq_decide value
  have hlt := value.isLt
  simp only [Spec.negative, Spec.magnitude, BitVec.toInt_eq_toNat_cond]
  obtain ⟨_, ch⟩ := f
  cases ch <;> simp [hmsb] <;> split_ifs <;> first | omega | (rw [BitVec.toNat_neg]; omega)

theorem pre_length_le : (f.pre value).length ≤ 2 := by
  obtain ⟨_, ch⟩ := f
  unfold Spec.pre Spec.hex Spec.negative
  cases ch <;> simp <;> split_ifs <;> simp

theorem ten_le_radix : 10 ≤ f.radix := by
  unfold Spec.radix
  split_ifs <;> decide

theorem magnitude_lt : f.magnitude value < 2 ^ 32 := by
  rw [← uvalue_eq]
  exact BitVec.isLt _

/-- The padding, which wraps around if the prefix is longer than the width. -/
def Spec.fill : Nat :=
  let n := (numeral f.radix (f.magnitude value)).length
  if f.pad0 then (f.padLen - .ofNat 32 (f.pre value).length).toNat - n else f.padLen.toNat - ((f.pre value).length + n)

theorem putNumber_emits : Emits size (putNumber size f value) () (f.padded value (f.fill value)) := by
  have := ten_le_radix f
  refine Emits.congr (.bind (.putNumPrefix _ _ _) (.bind (.putAll _) (.bind (.putAll _) (.putAll _)))) ?_
  rw [uvalue_eq, utoa_eq (by omega)]
  cases hp : f.pad0 <;> cases hl : f.leftJustify <;> simp [Spec.padded, Spec.fill, hp, hl]

theorem putNumber_none (out : List UInt8) :
    putNumber none f value out = .ok ((), out ++ f.padded value (f.fill value)) := putNumber_emits none f value out rfl

theorem padded_length (fill : Nat) :
    (f.padded value fill).length = (f.pre value).length + (numeral f.radix (f.magnitude value)).length + fill := by
  unfold Spec.padded
  split_ifs <;> simp <;> omega

theorem padLen_sub : (f.padLen - .ofNat 32 (f.pre value).length).toNat =
    if (f.pre value).length ≤ f.padLen.toNat then f.padLen.toNat - (f.pre value).length
    else 2 ^ 32 + f.padLen.toNat - (f.pre value).length := by
  have := pre_length_le f value
  rw [BitVec.toNat_sub, BitVec.toNat_ofNat]
  split_ifs <;> omega

theorem putNumber_eq_iff :
    ((∀ out, putNumber none f value out = .ok ((), out ++ f.text value)) ↔
      (f.pad0 = true → (f.pre value).length ≤ f.padLen.toNat)) ∧
    (f.text value).length = max f.padLen.toNat ((f.pre value).length + (numeral f.radix (f.magnitude value)).length) := by
  have hnum := numeral_length_le (ten_le_radix f) (magnitude_lt f value)
  have hpre := pre_length_le f value
  have hlen := padded_length f value
  have hw := padLen_sub f value
  refine ⟨⟨fun h hp => ?_, fun h out => ?_⟩, ?_⟩
  · have h := congrArg (fun r => r.toOption.map (·.2.length)) ((putNumber_none f value []).symm.trans (h []))
    simp only [Spec.text, Spec.fill, hp, hw, if_true, Except.toOption, Option.map_some, List.nil_append, hlen,
      Option.some.injEq] at h
    split_ifs at h <;> omega
  · rw [putNumber_none, Spec.text, Spec.fill]
    split_ifs with hp
    · rw [hw, if_pos (h hp), Nat.sub_sub]
    · rfl
  · rw [Spec.text, hlen]
    omega

end

/-- `%0d`: the sign is one character more than the width has. -/
theorem zero_width_wraps : ∃ out, putNumber none ⟨{ pad0 := true }, .d⟩ (-1) [] = .ok ((), out) ∧ out.length = 2 ^ 32 ∧
    Spec.text ⟨{ pad0 := true }, .d⟩ (-1) = ['-', '1'] :=
  ⟨_, putNumber_none _ _ [], by rw [List.nil_append, padded_length]; decide, by decide⟩

/-! ## The format -/

structure Args where
  strings : BitVec 32 → List UInt8
  args : Nat → BitVec 32

/-- Where the format is read: in plain text, or in a conversion (just after its `%`, in its width). -/
inductive Place
  | text
  | conv (first inWidth : Bool) (f : Flags)

def Flags.flag (f : Flags) (ch : UInt8) : Option Flags :=
  if !f.alternativeForm && ch = '#' then some { f with alternativeForm := true }
  else if !f.leftJustify && ch = '-' then some { f with leftJustify := true }
  else if !f.pad0 && ch = '0' then some { f with pad0 := true }
  else none

def Flags.digit (f : Flags) (ch : UInt8) : Option Flags :=
  if '0' ≤ ch ∧ ch ≤ '9' then some { f with padLen := f.padLen * 10 + .ofNat 32 ch.toNat - 48 } else none

/-- What a flag or a digit of the width leads to. -/
def Flags.read (f : Flags) (inWidth : Bool) (ch : UInt8) : Option Place :=
  (if inWidth then none else (f.flag ch).map (.conv false false)) <|> (f.digit ch).map (.conv false true)

def Place.next : Place → UInt8 → Place
  | .text, ch => if ch = '%' then .conv true false {} else .text
  | .conv first inWidth f, ch => if first && ch = '%' then .text else (f.read inWidth ch).getD .text

def numeric (ch : UInt8) : Option Conv :=
  if ch = 'd' then some .d else if ch = 'i' then some .i else if ch = 'u' then some .u
  else if ch = 'x' then some .x else if ch = 'p' then some .p else none

section
variable (size : Option Nat) (v : Args)

/-- A conversion, and the number of the argument after it. -/
def convert (f : Flags) (ch : UInt8) (n : Nat) : PutProg Nat :=
  match numeric ch with
  | some k => do
    putNumber size ⟨f, k⟩ (v.args n)
    pure (n + 1)
  | none =>
    if ch = 'c' then do
      put size (.ofNat (v.args n).toNat)
      pure (n + 1)
    else if ch = 's' then do
      putAll size (if v.args n = 0 then "(null)".toList.map Char.toUInt8 else v.strings (v.args n))
      pure (n + 1)
    else do
      put size '?'
      pure n

def step (ch : UInt8) (n : Nat) : Place → PutProg Nat
  | .text =>
    if ch = '%' then pure n else do
      put size ch
      pure n
  | .conv first inWidth f =>
    if first && ch = '%' then do
      put size '%'
      pure n
    else if (f.read inWidth ch).isSome then pure n
    else convert size v f ch n

def render : Place → Nat → List UInt8 → PutProg Unit
  | .text, _, [] => pure ()
  | .conv .., _, [] => Prog.trap .overrun
  | p, n, ch :: format => do
    let n ← step size v ch n p
    render (p.next ch) n format

end

/-- Each `%` starts a complete conversion. -/
def completes : Place → List UInt8 → Bool
  | .text, [] => true
  | .conv .., [] => false
  | p, ch :: format => completes (p.next ch) format

def vsnprintf (buffer : Nat → UInt8) (size : Nat) (format : List UInt8) (v : Args) : Option ((Nat → UInt8) × Nat) :=
  if size = 0 then some (buffer, 0)
  else
    let stored (out : List UInt8) (k : Nat) := out.getD k (buffer k)
    match render size v .text 0 format [] with
    | .ok (_, out) | .error (.tooLong out) =>
      some (Function.update (stored out) (if out.length < size then out.length else size - 1) 0, out.length)
    | .error .overrun => none

section
variable (v : Args)

theorem convert_emits (f : Flags) (ch : UInt8) (n : Nat) : ∃ m e, ∀ size, Emits size (convert size v f ch n) m e := by
  unfold convert
  split
  · exact ⟨_, _, fun size => (putNumber_emits size _ _).bind (.pure _)⟩
  · split
    · exact ⟨_, _, fun size => (Emits.put _).bind (.pure _)⟩
    · split
      · exact ⟨_, _, fun size => (Emits.putAll _).bind (.pure _)⟩
      · exact ⟨_, _, fun size => (Emits.put _).bind (.pure _)⟩

theorem step_emits (ch : UInt8) (n : Nat) (p : Place) : ∃ m e, ∀ size, Emits size (step size v ch n p) m e := by
  cases p with
  | text =>
    simp only [step]
    split_ifs
    · exact ⟨_, _, fun size => .pure _⟩
    · exact ⟨_, _, fun size => (Emits.put _).bind (.pure _)⟩
  | conv first inWidth f =>
    simp only [step]
    split_ifs
    · exact ⟨_, _, fun size => (Emits.put _).bind (.pure _)⟩
    · exact ⟨_, _, fun size => .pure _⟩
    · exact convert_emits v f ch n

theorem render_emits {format : List UInt8} : ∀ {p : Place} (n : Nat), completes p format = true →
    ∃ e, ∀ size, Emits size (render size v p n format) () e := by
  induction format with
  | nil =>
    intro p n h
    cases p with
    | text => exact ⟨_, fun size => .pure ()⟩
    | conv => cases h
  | cons ch format ih =>
    intro p n h
    obtain ⟨m, e, hstep⟩ := step_emits v ch n p
    obtain ⟨e', hrest⟩ := ih m (p := p.next ch) (by cases p <;> exact h)
    refine ⟨e ++ e', fun size => ?_⟩
    cases p <;> exact Emits.bind (hstep size) (hrest size)

/-- What is stored, and how much of it counts. -/
theorem vsnprintf_truncates {format : List UInt8} {size : Nat} (buffer : Nat → UInt8) (hs : 1 ≤ size)
    (hc : completes .text format = true) : ∃ R, render none v .text 0 format [] = .ok ((), R) ∧
      vsnprintf buffer size format v = some
        (Function.update (fun k => (R.take (size - 1)).getD k (buffer k)) (min R.length (size - 1)) 0,
          min R.length size) := by
  obtain ⟨R, h⟩ := render_emits v 0 hc
  refine ⟨R, h none [] rfl, ?_⟩
  have hrun := h (some size) [] (by simp [full]; omega)
  have hout : vsnprintf buffer size format v = some (Function.update (fun k => (R.take size).getD k (buffer k))
      (if (R.take size).length < size then (R.take size).length else size - 1) 0, (R.take size).length) := by
    rw [vsnprintf, if_neg (by omega), hrun]
    cases hf : full (some size) ([] ++ R).length with
    | true => rfl
    | false =>
      have hlt : R.length < size := by simpa [full] using hf
      rw [List.take_of_length_le hlt.le]
      rfl
  rw [hout, List.length_take, Nat.min_comm]
  refine congrArg (fun b => some (b, _)) (funext fun k => ?_)
  simp only [Function.update_apply, List.getD_eq_getElem?_getD, List.getElem?_take]
  split_ifs <;> first | rfl | omega | exact congrArg (Option.getD · _) (List.getElem?_eq_none (by omega))

theorem vsnprintf_cut : ∃ R, render none ⟨fun _ => [], 0⟩ .text 0 ['%', 'd', '!'] [] = .ok ((), R) ∧
    ∃ b, vsnprintf 0 2 ['%', 'd', '!'] ⟨fun _ => [], 0⟩ = some (b, min R.length 2) :=
  (vsnprintf_truncates _ 0 (by decide) (by decide)).imp fun _ h => ⟨h.1, _, h.2⟩

end

/-! ## Output into a growing buffer -/

section
variable (format : List UInt8) (args : Args)

/-- An `int` as a `uint64_t`. -/
def ofInt (len : Nat) : Nat := if len < 2 ^ 31 then len else len + 2 ^ 64 - 2 ^ 32

/-- The length if all of the output has found room. -/
def printInto : VecProg (Option Nat) := do
  let v ← Prog.get
  let maxLen := v.capacity - v.size
  if maxLen = 0 then pure none
  else
    match vsnprintf (fun k => v.bytes (v.size + k)) maxLen format args with
    | none => Prog.trap .fault
    | some (buffer, len) =>
      Prog.modify fun v => { v with bytes := fun i => if i < v.size then v.bytes i else buffer (i - v.size) }
      if ofInt len < maxLen then
        Prog.modify fun v => { v with size := v.size + len }
        pure (some len)
      else pure none

/-- `none`: the loop has not ended. -/
def vecVsprintf (mem : Nat → Realloc) : (fuel : Nat) → VecProg (Option (Except Errno Nat))
  | 0 => pure none
  | fuel + 1 => do
    match ← printInto format args with
    | some len => pure (some (.ok len))
    | none =>
      match ← Vec.growCapacity (mem fuel) 0 with
      | .error e => pure (some (.error e))
      | .ok () => vecVsprintf mem fuel

variable {format args} {v w : Vec} {R : List UInt8}

structure Appended (v : Vec) (out : List UInt8) (w : Vec) : Prop where
  size : w.size = v.size + out.length
  old : ∀ i < v.size, w.bytes i = v.bytes i
  new : ∀ k < out.length, w.bytes (v.size + k) = out.getD k 0

theorem Appended.trans (h : Appended v [] w) {u : Vec} {out : List UInt8} (h' : Appended w out u) : Appended v out u := by
  have hs : w.size = v.size := h.size
  exact ⟨hs ▸ h'.size, fun i hi => (h'.old i (hs ▸ hi)).trans (h.old i hi), hs ▸ h'.new⟩

/-- The output and the zero behind it do not fit, or its length is no `int`. -/
def Vec.Short (w : Vec) (out : List UInt8) : Prop := w.capacity - w.size ≤ out.length ∨ 2 ^ 31 ≤ out.length

theorem printInto_yields (hc : completes .text format = true) (hR : render none args .text 0 format [] = .ok ((), R))
    (hv : v.Good) : Prog.Yields (printInto format args) v fun r w => w.Good ∧ w.capacity = v.capacity ∧
      match r with
      | some len => len = R.length ∧ Appended v R w
      | none => Appended v [] w ∧ Vec.Short w R := by
  have hle := hv.size
  have hlt := hv.capacity
  refine .get ?_
  dsimp only
  split_ifs with h0
  · exact .pure ⟨hv, rfl, ⟨rfl, fun _ _ => rfl, nofun⟩, .inl (by omega)⟩
  · obtain ⟨R', hR', hout⟩ := vsnprintf_truncates args (fun k => v.bytes (v.size + k)) (Nat.pos_of_ne_zero h0) hc
    cases hR.symm.trans hR'
    rw [hout]
    refine .modify_bind ?_
    split_ifs with hfit
    · have hlen : R.length < v.capacity - v.size := by
        unfold ofInt at hfit
        split_ifs at hfit <;> omega
      rw [Nat.min_eq_left hlen.le]
      refine .modify_bind (.pure ⟨⟨?_, hlt⟩, rfl, rfl, rfl, fun i hi => if_pos hi, fun k hk => ?_⟩)
      · dsimp only
        omega
      · rw [List.take_of_length_le (by omega)]
        simp [hk, show k ≠ min R.length (v.capacity - v.size - 1) by omega]
    · refine .pure ⟨⟨hle, hlt⟩, rfl, ⟨rfl, fun i hi => if_pos hi, nofun⟩, ?_⟩
      unfold Vec.Short
      unfold ofInt at hfit
      dsimp only
      split_ifs at hfit <;> omega

theorem vecVsprintf_exact (mem : Nat → Realloc) (hc : completes .text format = true) (hv : v.Good) {fuel : Nat}
    (hf : 2 ^ 32 ≤ v.capacity + fuel) : ∃ R, render none args .text 0 format [] = .ok ((), R) ∧
      ∃ r w, vecVsprintf format args mem fuel v = .ok (some r, w) ∧ w.Good ∧
        match r with
        | .ok len => len = R.length ∧ Appended v R w
        | .error _ => Appended v [] w ∧ Vec.Short w R ∧ ∃ k < fuel, Vec.Refuses (mem k) 0 w := by
  obtain ⟨R, h⟩ := render_emits args 0 hc
  have hR := h none [] rfl
  refine ⟨R, hR, ?_⟩
  induction fuel generalizing v with
  | zero =>
    have := hv.capacity
    omega
  | succ fuel ih =>
    obtain ⟨r, w, hw, hg, hcap, hr⟩ := printInto_yields hc hR hv
    rw [vecVsprintf, Prog.bind_run hw]
    cases r with
    | some len => exact ⟨.ok len, w, Prog.pure_run _, hg, hr⟩
    | none =>
      dsimp only
      obtain ⟨happ, hshort⟩ := hr
      obtain ⟨href, e, hgrow⟩ | ⟨-, u, hlt, hroom, hgrow⟩ := Vec.growCapacity_run (mem fuel) hg (by decide : 0 < 2 ^ 32)
      · exact ⟨.error e, w, (Prog.bind_run hgrow).trans (Prog.pure_run _), hg, happ, hshort, fuel, Nat.lt_succ_self _, href⟩
      · have hu : Appended v [] u := happ.trans ⟨hroom.size, fun i hi => ?_, nofun⟩
        · obtain ⟨r', x, hx, hgx, hrx⟩ := ih (hroom.good hg) (by omega)
          refine ⟨r', x, (Prog.bind_run hgrow).trans hx, hgx, ?_⟩
          cases r' with
          | ok len => exact ⟨hrx.1, hu.trans hrx.2⟩
          | error e =>
            obtain ⟨hax, hsx, k, hk, href⟩ := hrx
            exact ⟨hu.trans hax, hsx, k, Nat.lt_succ_of_lt hk, href⟩
        · cases hroom with
          | enough => rfl
          | grown => exact (if_neg (by omega)).trans (if_pos (hi.trans_le hg.size))

/-- A buffer with one byte and no room for more. -/
def oneByte : Vec := ⟨1, 1, fun _ => 'x'⟩

theorem vecVsprintf_grows : ∃ w, vecVsprintf ['a', 'b'] ⟨fun _ => [], 0⟩ (fun _ => some 0) (2 ^ 32) oneByte =
      .ok (some (.ok 2), w) ∧ w.capacity = PAGE_SIZE ∧ Appended oneByte ['a', 'b'] w := by
  have hv : oneByte.Good := ⟨le_rfl, by decide⟩
  have hrun : Prog.Yields (vecVsprintf ['a', 'b'] ⟨fun _ => [], 0⟩ (fun _ => some 0) (2 ^ 32)) oneByte
      fun r w => r.bind Except.toOption = some 2 ∧ w.capacity = PAGE_SIZE := by decide +kernel
  have hout : Prog.Yields (render none ⟨fun _ => [], 0⟩ .text 0 ['a', 'b']) [] fun _ R => R = ['a', 'b'] := by
    decide +kernel
  obtain ⟨R, hR, r, w, h, -, hr⟩ := @vecVsprintf_exact ['a', 'b'] ⟨fun _ => [], 0⟩ oneByte (fun _ => some 0)
    (by decide) hv (2 ^ 32) (Nat.le_add_left (2 ^ 32) 1)
  obtain ⟨hr2, hcap⟩ := hrun.ok h
  obtain rfl : R = ['a'.toUInt8, 'b'.toUInt8] := hout.ok hR
  cases r with
  | error e => cases hr2
  | ok len =>
    obtain ⟨rfl, happ⟩ := hr
    exact ⟨w, h, hcap, happ⟩

end

end Yagura.Printf
