import Yagura.Trans

/-!
# The line of a terminal

In canonical mode `on_char` (`console/tty.c`) collects records of two bytes in
`line_buf` until a byte commits or kills the line. Echoing and signals leave
the line alone; where committed records go is left out.
-/

namespace Yagura.Tty

open List Nat

structure AttrChar where
  ch : UInt8
  eol : Bool

structure Termios where
  iflag : Nat
  lflag : Nat
  cc : Nat → UInt8

def ISTRIP : Nat := 0o40
def INLCR : Nat := 0o100
def ICRNL : Nat := 0o400
def ISIG : Nat := 0o1
def ICANON : Nat := 0o2
def ECHOE : Nat := 0o20
def ECHOK : Nat := 0o40

def VINTR : Nat := 0
def VQUIT : Nat := 1
def VERASE : Nat := 2
def VKILL : Nat := 3
def VEOF : Nat := 4
def VSUSP : Nat := 10
def VEOL : Nat := 11

structure State where
  termios : Termios
  line : List AttrChar

def LINE_BUF : Nat := 1024

def sizeofAttrChar : Nat := 2

def has (flags bit : Nat) : Bool := flags &&& bit != 0

/-- `none` if the element written is behind the end of `line_buf`. -/
def appendChar (ch : UInt8) (eol : Bool) (s : State) : Option State :=
  if LINE_BUF * sizeofAttrChar ≤ s.line.length then some s
  else if s.line.length < LINE_BUF then some { s with line := s.line ++ [⟨ch, eol⟩] }
  else none

def commitLine (s : State) : State := { s with line := [] }

/-- The end of `on_char`, for a byte that sends no signal. -/
def onInput (io : Termios) (ch : UInt8) (s : State) : Option State :=
  if !has io.lflag ICANON then some s
  else if ch == io.cc VKILL && has io.lflag ECHOK then some { s with line := [] }
  else if ch == io.cc VERASE && has io.lflag ECHOE then some { s with line := s.line.dropLast }
  else if ch == io.cc VEOL then some (commitLine s)
  else if ch == io.cc VEOF then (appendChar 0 true s).map commitLine
  else if ch == 10 then (appendChar ch true s).map commitLine
  else if 0x20 ≤ ch && ch ≤ 0x7e then appendChar ch false s
  else (appendChar 94 false s).bind (appendChar (ch ||| 0x40) false)

def onStripped (io : Termios) (ch : UInt8) (s : State) : Option State :=
  if has io.lflag ISIG && (ch == io.cc VINTR || ch == io.cc VQUIT || ch == io.cc VSUSP) then some s
  else if ch == 13 && has io.iflag ICRNL then onInput io 10 s
  else if ch == 10 && has io.iflag INLCR then onInput io 13 s
  else onInput io ch s

def onChar (ch : UInt8) (s : State) : Option State :=
  onStripped s.termios (if has s.termios.lflag ISTRIP then ch &&& 0x7f else ch) s

inductive Event
  | typed (ch : UInt8)
  /-- `TCSETS` and `TCSETSW`, or `TCSETSF`, which flushes. -/
  | set (termios : Termios) (flush : Bool)

def exec (s : State) : Event → Option State
  | .typed ch => onChar ch s
  | .set termios flush => some (if flush then ⟨termios, []⟩ else { s with termios })

def Step (s : State) (e : Event) (s' : State) : Prop := exec s e = some s'

def start : State where
  termios := ⟨ICRNL, 0o10 ||| ICANON ||| ISIG ||| ECHOE ||| ECHOK ||| 0o100,
    fun i => ([3, 28, 127, 21, 4, 0, 1, 0, 17, 19, 26, 0] : List UInt8).getD i 0⟩
  line := []

/-! ## The end of the buffer -/

def Room (s : State) : Event → Prop
  | .typed _ => s.line.length + 2 ≤ LINE_BUF
  | .set _ _ => True

instance (s : State) : (e : Event) → Decidable (Room s e)
  | .typed _ => inferInstanceAs (Decidable (_ ≤ _))
  | .set .. => .isTrue trivial

def Inside (s : State) : Prop := s.line.length ≤ LINE_BUF

section
variable {s : State} {ch : UInt8}

theorem appendChar_room (ch : UInt8) (eol : Bool) (h : s.line.length < LINE_BUF) :
    appendChar ch eol s = some { s with line := s.line ++ [⟨ch, eol⟩] } := by
  unfold appendChar
  rw [if_neg (by simp only [LINE_BUF, sizeofAttrChar] at *; omega), if_pos h]

theorem onInput_room {io : Termios} (h : s.line.length + 2 ≤ LINE_BUF) : ∃ s', onInput io ch s = some s' ∧ Inside s' := by
  have happ (ch : UInt8) (eol : Bool) := appendChar_room (s := s) ch eol (by omega)
  have hlen : s.line.length ≤ LINE_BUF := by omega
  unfold onInput Inside
  split_ifs
  · exact ⟨_, rfl, hlen⟩
  · exact ⟨_, rfl, zero_le _⟩
  · exact ⟨_, rfl, s.line.dropLast_sublist.length_le.trans hlen⟩
  · exact ⟨_, rfl, zero_le _⟩
  · exact ⟨_, by rw [happ]; rfl, zero_le _⟩
  · exact ⟨_, by rw [happ]; rfl, zero_le _⟩
  · exact ⟨_, happ _ _, by simp only [length_append, length_singleton]; omega⟩
  · rw [happ, Option.bind_some, appendChar_room _ _ (by simp only [length_append, length_singleton]; omega)]
    exact ⟨_, rfl, by simp only [length_append, length_singleton]; omega⟩

theorem onStripped_room {io : Termios} (h : s.line.length + 2 ≤ LINE_BUF) :
    ∃ s', onStripped io ch s = some s' ∧ Inside s' := by
  unfold onStripped
  split_ifs
  · exact ⟨s, rfl, by unfold Inside; omega⟩
  all_goals exact onInput_room h

theorem exec_room {e : Event} (h : Inside s) (he : Room s e) : ∃ s', exec s e = some s' ∧ Inside s' := by
  cases e with
  | typed ch => exact onStripped_room he
  | set termios flush =>
    refine ⟨_, rfl, ?_⟩
    cases flush
    · exact h
    · exact zero_le _

/-- No byte is written behind the buffer if none is typed into a line without room. -/
theorem line_inside (h : Run Step Room start s) : Inside s ∧ ∀ e, Room s e → ∃ s', exec s e = some s' ∧ Inside s' := by
  have hs : Inside s := by
    refine h.invariant (zero_le _) fun s e s' hs hst he => ?_
    obtain ⟨t, ht, hin⟩ := exec_room hs he
    cases ht.symm.trans hst
    exact hin
  exact ⟨hs, fun e he => exec_room hs he⟩

theorem line_inside_keys : ∃ s, Run Step Room start s ∧ s.line.map AttrChar.ch = [97, 94, 65] ∧
      ∃ s', exec s (.typed 10) = some s' ∧ Inside s' := by
  obtain ⟨s, hr, hl, hro⟩ := exists_follow exec Room [.typed 97, .typed 98, .typed 127, .typed 1] start
    (fun s => s.line.map AttrChar.ch = [97, 94, 65] ∧ Room s (.typed 10)) (by decide +kernel)
  exact ⟨s, hr, hl, (line_inside hr).2 _ hro⟩

theorem onChar_letter (h : s.termios = start.termios) : onChar 97 s = appendChar 97 false s := by
  rw [onChar, h]
  rfl

end

/-- `append_char` compares the number of elements with the size in bytes. -/
theorem line_overrun : ∃ s, Run Step (fun _ _ => True) start s ∧ s.line.length = LINE_BUF ∧ exec s (.typed 97) = none := by
  have hfi (n : Nat) (hn : n ≤ LINE_BUF) :
      ∃ s, Run Step (fun _ _ => True) start s ∧ s.termios = start.termios ∧ s.line.length = n := by
    induction n with
    | zero => exact ⟨start, .refl start, rfl, rfl⟩
    | succ n ih =>
      obtain ⟨s, hr, ht, hl⟩ := ih (by omega)
      have hst : exec s (.typed 97) = _ := (onChar_letter ht).trans (appendChar_room 97 false (by omega))
      exact ⟨_, hr.tail hst trivial, ht, by simp [hl]⟩
  obtain ⟨s, hr, ht, hl⟩ := hfi LINE_BUF le_rfl
  refine ⟨s, hr, hl, (onChar_letter ht).trans ?_⟩
  rw [appendChar, hl, if_neg (by decide), if_neg (by decide)]

end Yagura.Tty
