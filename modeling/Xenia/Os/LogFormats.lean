import Mathlib.Data.List.Infix
import Xenia.Os.Log

/-!
# What the formatter of the log prints

A format is a list of pieces: bytes of text, `%%` and conversions with a field width, a precision and a length modifier, each with its
arguments. `Piece.shown` is what C99 prints for a piece, without padding; `Piece.written` is what a pass of `vpnprintf` appends for it
(`step_piece`). They differ for `%.*s` only, whose loop ends where the index of the output, and not that of the string, reaches the
precision.

`vpnprintf_formats`: every piece is printed as C99 says, up to the end of the buffer, exactly when no `%.*s` that prints anything ends
behind as many bytes of output as its precision, and no piece that prints anything is behind the part of the format whose length is an
`int`. Then the output, its NUL and the value returned are right.
-/

namespace Xenia.Log

open Fmt Cursor List Option

/-! ## Pieces of a format -/

/-- A string of the caller. -/
structure CString where
  address : UInt64
  text : List UInt8
  nonnull : address ≠ 0
  terminated : 0 ∉ text

/-- A length modifier. -/
inductive Modifier
  | none
  | h
  | l
  | ll
  | z
deriving DecidableEq, Repr

def Modifier.print : Modifier → List UInt8
  | none => []
  | h => [104]
  | l => [108]
  | ll => [108, 108]
  | z => [122]

/-- The flags that `parse_length_modifier` makes of it. -/
def Modifier.flags : Modifier → UInt32
  | none => 0
  | h => LMOD_SHORT
  | l => LMOD_LONG
  | ll => LMOD_LONG ||| LMOD_LONGLONG
  | z => LMOD_SIZET

/-- A number of the type that its modifier says, by its bits. -/
inductive Number
  | int (v : UInt32)
  | short (v : UInt16)
  | long (v : UInt64)
  | longlong (v : UInt64)
  | size (v : UInt64)

namespace Number

def modifier : Number → Modifier
  | int _ => .none
  | short _ => .h
  | long _ => .l
  | longlong _ => .ll
  | size _ => .z

/-- Its value as a signed number. -/
def signed : Number → ℤ
  | int v => v.toInt32.toInt
  | short v => v.toInt16.toInt
  | long v => v.toInt64.toInt
  | longlong v => v.toInt64.toInt
  | size v => v.toInt64.toInt

/-- Its value as an unsigned number. -/
def unsigned : Number → ℕ
  | int v => v.toNat
  | short v => v.toNat
  | long v => v.toNat
  | longlong v => v.toNat
  | size v => v.toNat

/-- The argument of a signed number; a `short` is promoted. -/
def signedPassed : Number → Arg
  | int v => .int v
  | short v => .int v.toInt16.toInt32.toUInt32
  | long v => .long v
  | longlong v => .long v
  | size v => .long v

/-- The argument of an unsigned number. -/
def unsignedPassed : Number → Arg
  | int v => .int v
  | short v => .int v.toUInt32
  | long v => .long v
  | longlong v => .long v
  | size v => .long v

end Number

/-- A field width: digits, of which there may be none, or an argument. -/
inductive Width
  | digits (ds : List UInt8) (h : ∀ d ∈ ds, isDigit d = true)
  | star (v : UInt32)

def Width.print : Width → List UInt8
  | digits ds _ => ds
  | star _ => [42]

def Width.passed : Width → List Arg
  | digits _ _ => []
  | star v => [.int v]

/-- A conversion with its argument. -/
inductive Conversion
  | string (s : CString)
  | limited (precision : Int32) (s : CString)
  | signed (i : Bool) (n : Number)
  | unsigned (n : Number)
  | hex (n : Number)
  | pointer (v : UInt64) (text : List UInt8)
  | char (v : UInt32)
  | percent

namespace Conversion

/-- The character of the conversion. -/
def letter : Conversion → UInt8
  | string _ => 115
  | limited _ _ => 115
  | signed i _ => if i then 105 else 100
  | unsigned _ => 117
  | hex _ => 120
  | pointer _ _ => 112
  | char _ => 99
  | percent => 37

def modifier : Conversion → Modifier
  | signed _ n => n.modifier
  | unsigned n => n.modifier
  | hex n => n.modifier
  | _ => .none

/-- The precision that is an argument. -/
def precision : Conversion → Option Int32
  | limited p _ => some p
  | _ => none

def passed : Conversion → List Arg
  | string s => [.pointer s.address s.text]
  | limited _ s => [.pointer s.address s.text]
  | signed _ n => [n.signedPassed]
  | unsigned n => [n.unsignedPassed]
  | hex n => [n.unsignedPassed]
  | pointer v text => [.pointer v text]
  | char v => [.int v]
  | percent => []

/-- What C99 prints for it; a negative precision is none. -/
def shown : Conversion → List UInt8
  | string s => s.text
  | limited p s => if p.toInt < 0 then s.text else s.text.take p.toInt.toNat
  | signed _ n => signedDigits n.signed
  | unsigned n => digits 10 n.unsigned
  | hex n => digits 16 n.unsigned
  | pointer v _ => 48 :: 120 :: digits 16 v.toNat
  | char v => [v.toUInt8]
  | percent => [37]

/-- What `vpnprintf` appends for it to `s_idx` bytes of output. -/
def written (size s_idx : ℕ) : Conversion → List UInt8
  | limited p s => s.text.take (min (size - 1 - s_idx) (p.toInt - s_idx).toNat)
  | conv => conv.shown.take (size - 1 - s_idx)

end Conversion

/-- The flag of a left-justified conversion. -/
def flag : Bool → List UInt8
  | true => [45]
  | false => []

/-- A precision in the format. -/
def dots : Option Int32 → List UInt8
  | some _ => [46, 42]
  | none => []

def dotsPassed : Option Int32 → List Arg
  | some p => [.int p.toUInt32]
  | none => []

/-- A byte of text or a conversion; `%%` is written without a width. -/
inductive Piece
  | text (c : UInt8) (zero : c ≠ 0) (percent : c ≠ 37)
  | conversion (minus : Bool) (width : Width) (conv : Conversion)

namespace Piece

def print : Piece → List UInt8
  | text c _ _ => [c]
  | conversion minus width conv =>
    37 :: (flag minus ++ (width.print ++ (dots conv.precision ++ (conv.modifier.print ++ [conv.letter]))))

def passed : Piece → List Arg
  | text _ _ _ => []
  | conversion _ width conv => width.passed ++ (dotsPassed conv.precision ++ conv.passed)

def shown : Piece → List UInt8
  | text c _ _ => [c]
  | conversion _ _ conv => conv.shown

def written (size s_idx : ℕ) : Piece → List UInt8
  | text c _ _ => [c]
  | conversion _ _ conv => conv.written size s_idx

end Piece

/-- The format of some pieces. -/
def format (ps : List Piece) : List UInt8 := ps.flatMap Piece.print

/-- Their arguments. -/
def passed (ps : List Piece) : List Arg := ps.flatMap Piece.passed

/-- What C99 prints for them. -/
def shown (ps : List Piece) : List UInt8 := ps.flatMap Piece.shown

/-! ## The parser of a conversion -/

variable {size : ℕ} {cur : Cursor} {pre tail rest : List UInt8} {E : ℤ} {c : UInt8}

theorem Cursor.Forward.left_le {a b : Cursor} (h : a.Forward b) : b.left ≤ a.left := by
  obtain ⟨n, rfl⟩ := h
  change a.left - n ≤ a.left
  omega

/-- The parser stands before `pre`, with `E` bytes from behind it on, or has come to the end of the format before that. -/
def Reaches (pre tail : List UInt8) (E : ℤ) (cur : Cursor) : Prop :=
  cur = ⟨pre ++ tail, E + pre.length⟩ ∨ E ≤ 0 ∧ cur.left ≤ 0

theorem Reaches.eq (h : Reaches pre tail E cur) (hE : 0 < E) : cur = ⟨pre ++ tail, E + pre.length⟩ :=
  h.resolve_right fun hend => absurd hend.1 (by omega)

/-- A part of the parser that does its work where it stands does nothing wrong behind the end. -/
theorem Reaches.part {pre' : List UInt8} {f : Cursor → Cursor} (h : Reaches pre tail E cur) (hforward : cur.Forward (f cur))
    (hpart : Reaches pre' tail E (f ⟨pre ++ tail, E + pre.length⟩)) : Reaches pre' tail E (f cur) := by
  rcases h with rfl | ⟨hE, hleft⟩
  · exact hpart
  · have := hforward.left_le
    exact .inr ⟨hE, by omega⟩

theorem Reaches.skip_absent (h : Reaches pre tail E cur) (hhead : (pre ++ tail).headD 0 ≠ c) :
    Reaches pre tail E (cur.skip c) := by
  apply h.part (forward_skip c cur)
  left
  exact if_neg hhead

theorem next_ahead : (⟨(c :: pre) ++ tail, E + (c :: pre).length⟩ : Cursor).next = ⟨pre ++ tail, E + pre.length⟩ := by
  unfold Cursor.next
  rw [cons_append, tail_cons, length_cons, Nat.cast_add_one, ← add_assoc, add_sub_cancel_right]

theorem Reaches.skip_present (h : Reaches (c :: pre) tail E cur) : Reaches pre tail E (cur.skip c) := by
  apply h.part (forward_skip c cur)
  left
  exact (if_pos rfl).trans next_ahead

theorem skipDigits_stop (hhead : isDigit (rest.headD 0) = false) (left : ℤ) : skipDigits rest left = ⟨rest, left⟩ := by
  cases rest with
  | nil => rfl
  | cons c rest =>
    rw [headD_cons] at hhead
    rw [skipDigits, hhead, Bool.and_false, if_neg Bool.false_ne_true]

theorem skipDigits_append {ds : List UInt8} (hds : ∀ d ∈ ds, isDigit d = true) (hhead : isDigit (rest.headD 0) = false) (left : ℤ) :
    skipDigits (ds ++ rest) left = ⟨rest, left - ds.length⟩ ∨ left - ds.length ≤ 0 ∧ (skipDigits (ds ++ rest) left).left ≤ 0 := by
  induction ds generalizing left with
  | nil =>
    left
    rw [nil_append, skipDigits_stop hhead, length_nil, Nat.cast_zero, sub_zero]
  | cons d ds ih =>
    rw [forall_mem_cons] at hds
    rw [cons_append, skipDigits, hds.1, Bool.and_true, length_cons, Nat.cast_add_one]
    split
    · have harith : left - 1 - ds.length = left - ((ds.length : ℤ) + 1) := by omega
      rw [← harith]
      exact ih hds.2 (left - 1)
    · rename_i hleft
      rw [decide_eq_true_eq] at hleft
      right
      constructor
      · omega
      · change left ≤ 0
        omega

theorem Reaches.skipDigits {ds : List UInt8} (h : Reaches (ds ++ pre) tail E cur) (hds : ∀ d ∈ ds, isDigit d = true)
    (hhead : isDigit ((pre ++ tail).headD 0) = false) : Reaches pre tail E (skipDigits cur.f cur.left) := by
  apply h.part (f := fun cur => Log.skipDigits cur.f cur.left) (forward_skipDigits cur.f cur.left)
  dsimp only
  have harith : E + (ds ++ pre).length - ds.length = E + pre.length := by
    rw [length_append, Nat.cast_add]
    omega
  have hstop := skipDigits_append hds hhead (E + (ds ++ pre).length)
  rw [harith] at hstop
  rw [append_assoc]
  rcases hstop with heq | ⟨hE, hleft⟩
  · left
    exact heq
  · right
    exact ⟨by omega, hleft⟩

/-- A modifier is parsed up to where it ends or the format does. -/
theorem parse_print (m : Modifier) (hc : c ≠ 104 ∧ c ≠ 108 ∧ c ≠ 122) (len : ℕ) :
    (m.print.length ≤ len → parse_length_modifier (m.print ++ c :: rest) len = (m.print.length, m.flags)) ∧
      (len < m.print.length → (parse_length_modifier (m.print ++ c :: rest) len).1 = len) := by
  have hstop : ∀ len idx lm, parseModifiers (c :: rest) len idx lm = (idx, lm) := by
    intro len idx lm
    cases len with
    | zero => rfl
    | succ len => rw [parseModifiers, if_neg hc.2.1, if_neg hc.1, if_neg hc.2.2]
  constructor
  · intro hlen
    cases m with
    | none => exact hstop len 0 0
    | ll =>
      obtain ⟨len, rfl⟩ : ∃ n, len = n + 2 := ⟨len - 2, by change 2 ≤ len at hlen; omega⟩
      exact hstop len 2 _
    | h | l | z =>
      obtain ⟨len, rfl⟩ : ∃ n, len = n + 1 := ⟨len - 1, by change 1 ≤ len at hlen; omega⟩
      exact hstop len 1 _
  · intro hlen
    cases m with
    | none => exact absurd hlen (Nat.not_lt_zero len)
    | ll =>
      change len < 2 at hlen
      rcases (by omega : len = 0 ∨ len = 1) with rfl | rfl <;> rfl
    | h | l | z =>
      change len < 1 at hlen
      obtain rfl : len = 0 := by omega
      rfl

theorem Reaches.lengthModifier {m : Modifier} (h : Reaches m.print (c :: rest) E cur) (hc : c ≠ 104 ∧ c ≠ 108 ∧ c ≠ 122) :
    Reaches [] (c :: rest) E (lengthModifier cur).2 ∧ (0 < E → (lengthModifier cur).1 = m.flags) := by
  have hread : ∀ left : ℤ, 0 < left → left = E + m.print.length → 0 ≤ E →
      Log.lengthModifier ⟨m.print ++ c :: rest, left⟩ = (m.flags, ⟨c :: rest, E⟩) := by
    intro left hpos hleft hE
    unfold Log.lengthModifier
    dsimp only
    rw [if_pos hpos, (parse_print m hc left.toNat).1 (by omega)]
    unfold advance
    dsimp only
    rw [drop_left, hleft, add_sub_cancel_right]
  constructor
  · apply h.part (f := fun cur => (Log.lengthModifier cur).2) (forward_lengthModifier cur)
    by_cases hpos : 0 < E + (m.print.length : ℤ)
    · by_cases hE : 0 ≤ E
      · left
        rw [hread _ hpos rfl hE, nil_append, length_nil, Nat.cast_zero, add_zero]
      · right
        refine ⟨by omega, ?_⟩
        unfold Log.lengthModifier
        dsimp only
        rw [if_pos hpos, (parse_print m hc _).2 (by omega)]
        unfold advance
        dsimp only
        omega
    · right
      unfold Log.lengthModifier
      dsimp only
      rw [if_neg hpos]
      dsimp only
      exact ⟨by omega, by omega⟩
  · intro hE
    rw [h.eq hE, hread _ (by omega) rfl (by omega)]

/-- No flag follows, no width, and no precision. -/
def NoFlag (x : UInt8) : Prop := x ≠ 35 ∧ x ≠ 45

def NoWidth (x : UInt8) : Prop := NoFlag x ∧ x ≠ 42 ∧ isDigit x = false

def NoDot (x : UInt8) : Prop := NoWidth x ∧ x ≠ 46

/-- Which bytes can be the character of a conversion. -/
def IsLetter (x : UInt8) : Prop := NoDot x ∧ x ≠ 104 ∧ x ≠ 108 ∧ x ≠ 122

theorem Conversion.isLetter (conv : Conversion) : IsLetter conv.letter := by
  have hmem : conv.letter ∈ ([115, 105, 100, 117, 120, 112, 99, 37] : List UInt8) := by
    cases conv with
    | signed i _ => cases i <;> exact elem_iff.1 rfl
    | _ => exact elem_iff.1 rfl
  have hall : ∀ x ∈ ([115, 105, 100, 117, 120, 112, 99, 37] : List UInt8), IsLetter x := by
    unfold IsLetter NoDot NoWidth NoFlag
    decide +kernel
  exact hall _ hmem

theorem headD_append {P : UInt8 → Prop} {a b : List UInt8} (ha : ∀ x ∈ a.head?, P x) (hb : P (b.headD 0)) : P ((a ++ b).headD 0) := by
  cases a with
  | nil => exact hb
  | cons x a => exact ha x rfl

theorem noDot_modifier (hc : IsLetter c) (m : Modifier) (rest : List UInt8) : NoDot ((m.print ++ c :: rest).headD 0) := by
  apply headD_append
  · unfold NoDot NoWidth NoFlag
    cases m <;> decide +kernel
  · exact hc.1

theorem noWidth_dots (precision : Option Int32) (h : NoDot (tail.headD 0)) : NoWidth ((dots precision ++ tail).headD 0) := by
  apply headD_append
  · cases precision with
    | none => exact fun x hx => nomatch hx
    | some p =>
      intro x hx
      obtain rfl := some.inj hx
      unfold NoWidth NoFlag
      decide
  · exact h.1

theorem noFlag_width (width : Width) (h : NoWidth (tail.headD 0)) : NoFlag ((width.print ++ tail).headD 0) := by
  apply headD_append
  · intro x hx
    cases width with
    | digits ds hds =>
      have hdigit := hds x (mem_of_mem_head? hx)
      constructor
      · rintro rfl
        exact absurd hdigit (by decide)
      · rintro rfl
        exact absurd hdigit (by decide)
    | star v =>
      obtain rfl := some.inj hx
      exact ⟨by decide, by decide⟩
  · exact h.1

theorem Reaches.skips {minus : Bool} (h : Reaches (flag minus ++ pre) tail E cur) (hhead : NoFlag ((pre ++ tail).headD 0)) :
    Reaches pre tail E ((cur.skip 35).skip 45) := by
  cases minus with
  | true =>
    have hsharp : Reaches (45 :: pre) tail E (cur.skip 35) := by
      apply h.skip_absent
      change (45 : UInt8) ≠ 35
      decide
    exact hsharp.skip_present
  | false =>
    have hsharp : Reaches pre tail E (cur.skip 35) := Reaches.skip_absent h hhead.1
    exact hsharp.skip_absent hhead.2

/-- The width is swallowed, with its argument. -/
theorem Reaches.fieldWidth {width : Width} (h : Reaches (width.print ++ pre) tail E cur) (hhead : NoWidth ((pre ++ tail).headD 0))
    (args : List Arg) :
    Reaches pre tail E (fieldWidth cur args).1 ∧ (0 < E → (fieldWidth cur (width.passed ++ args)).2 = args) := by
  have hforward := forward_fieldWidth cur args
  cases width with
  | star v =>
    constructor
    · apply h.part (f := fun cur => (Log.fieldWidth cur args).1) hforward
      left
      exact (congrArg Prod.fst (if_pos rfl)).trans next_ahead
    · intro hE
      rw [h.eq hE]
      exact congrArg Prod.snd (if_pos rfl)
  | digits ds hds =>
    have hstar : (ds ++ pre ++ tail).headD 0 ≠ 42 := by
      rw [append_assoc]
      apply headD_append (P := fun x => x ≠ 42)
      · rintro x hx rfl
        exact absurd (hds 42 (mem_of_mem_head? hx)) (by decide)
      · exact hhead.2.1
    have hwidth : ∀ left, Log.fieldWidth ⟨ds ++ pre ++ tail, left⟩ args = (Log.skipDigits (ds ++ pre ++ tail) left, args) :=
      fun left => if_neg hstar
    constructor
    · apply h.part (f := fun cur => (Log.fieldWidth cur args).1) hforward
      change Reaches pre tail E (Log.fieldWidth ⟨ds ++ pre ++ tail, E + (ds ++ pre).length⟩ args).1
      rw [hwidth]
      exact Reaches.skipDigits (.inl rfl) hds hhead.2.2
    · intro hE
      rw [h.eq hE]
      exact congrArg Prod.snd (hwidth _)

/-- The precision is read. -/
theorem Reaches.readPrecision {precision : Option Int32} (h : Reaches (dots precision ++ pre) tail E cur)
    (hhead : NoDot ((pre ++ tail).headD 0)) (size : ℕ) (args : List Arg) :
    Reaches pre tail E (readPrecision size cur args).2.1 ∧
      (0 < E → ∃ cur', readPrecision size cur (dotsPassed precision ++ args) = (precision.elim (size : ℤ) Int32.toInt, cur', args)) := by
  have hforward := forward_readPrecision size cur args
  cases precision with
  | none =>
    have hread : ∀ left, Log.readPrecision size ⟨pre ++ tail, left⟩ args = ((size : ℤ), (⟨pre ++ tail, left⟩ : Cursor), args) :=
      fun left => if_neg hhead.2
    constructor
    · apply h.part (f := fun cur => (Log.readPrecision size cur args).2.1) hforward
      left
      exact congrArg (fun r => r.2.1) (hread (E + pre.length))
    · intro hE
      rw [h.eq hE]
      exact ⟨_, hread _⟩
  | some p =>
    constructor
    · apply h.part (f := fun cur => (Log.readPrecision size cur args).2.1) hforward
      left
      have harith : E + ([46, 42] ++ pre).length - 1 - 1 = E + pre.length := by
        rw [length_append, length_cons, length_singleton]
        omega
      rw [← harith]
      rfl
    · intro hE
      rw [h.eq hE]
      exact ⟨_, rfl⟩

/-- **A conversion is parsed**: to its character, if that is in the part of the format that has an index, and behind it otherwise. -/
theorem directive_spec {conv : Conversion} {minus : Bool} {width : Width}
    (h : Reaches (flag minus ++ (width.print ++ (dots conv.precision ++ conv.modifier.print))) (conv.letter :: rest) E cur)
    (size : ℕ) (args : List Arg) :
    let dir := directive size cur (width.passed ++ (dotsPassed conv.precision ++ args))
    (0 < E → dir = ⟨conv.precision.elim (size : ℤ) Int32.toInt, conv.modifier.flags, ⟨conv.letter :: rest, E⟩, args⟩) ∧
      (E ≤ 0 → dir.cur.left ≤ 0) := by
  intro dir
  have hletter := conv.isLetter
  have hdot := noDot_modifier hletter conv.modifier rest
  have hwidth := noWidth_dots conv.precision hdot
  rw [← append_assoc] at hwidth
  have hflag := noFlag_width width hwidth
  rw [← append_assoc] at hflag
  -- Each part of the parser leaves the rest of the conversion to the next one.
  have hskips := h.skips hflag
  have hdots := fun args => (hskips.fieldWidth hwidth args).1
  have hpassed := (hskips.fieldWidth hwidth (dotsPassed conv.precision ++ args)).2
  have hmodifier := fun args args' => ((hdots args).readPrecision hdot size args').1
  have hread := ((hdots (width.passed ++ (dotsPassed conv.precision ++ args))).readPrecision hdot size args).2
  have hcur : dir.cur = (lengthModifier (readPrecision size (fieldWidth ((cur.skip 35).skip 45) _).1 (fieldWidth _ _).2).2.1).2 := rfl
  obtain ⟨hreach, hflags⟩ := (hmodifier (width.passed ++ (dotsPassed conv.precision ++ args))
    (fieldWidth ((cur.skip 35).skip 45) (width.passed ++ (dotsPassed conv.precision ++ args))).2).lengthModifier hletter.2
  constructor
  · intro hE
    obtain ⟨cur', hprec⟩ := hread hE
    have hfin := hreach.eq hE
    have hlm := hflags hE
    rw [length_nil, Nat.cast_zero, add_zero] at hfin
    rw [hpassed hE] at hfin hlm
    have hdir : dir = directive size cur (width.passed ++ (dotsPassed conv.precision ++ args)) := rfl
    unfold directive at hdir
    dsimp only at hdir
    rw [hpassed hE, hfin, hlm, hprec] at hdir
    exact hdir
  · intro hE
    rw [hcur]
    rcases hreach with heq | ⟨-, hleft⟩
    · rw [heq]
      change E + (([] : List UInt8).length : ℤ) ≤ 0
      rw [length_nil]
      omega
    · exact hleft

/-! ## What is written -/

variable {out : List UInt8} {args : List Arg}

theorem emit_eq (size : ℕ) (out number : List UInt8) : emit size out number = out ++ number.take (size - 1 - out.length) := by
  induction number generalizing out with
  | nil => rw [emit, take_nil, append_nil]
  | cons c number ih =>
    rw [emit]
    split
    · obtain ⟨room, hroom⟩ : ∃ room, size - 1 - out.length = room + 1 := ⟨size - 1 - out.length - 1, by omega⟩
      have hrest : size - 1 - (out ++ [c]).length = room := by
        rw [length_append, length_singleton]
        omega
      rw [ih, hroom, hrest, append_assoc]
      rfl
    · rename_i hfull
      rw [Nat.sub_eq_zero_of_le (by omega), take_zero, append_nil]

theorem emit_emit (size : ℕ) (out a b : List UInt8) : emit size (emit size out a) b = emit size out (a ++ b) := by
  induction a generalizing out with
  | nil => rfl
  | cons c a ih =>
    rw [emit, cons_append, emit]
    split
    · exact ih (out ++ [c])
    · rename_i hfull
      rw [emit_eq, Nat.sub_eq_zero_of_le (by omega), take_zero, append_nil]

/-- The loop of `%s` ends where the output, not the string, has the length of the precision. -/
theorem emitString_eq (size : ℕ) (precision : ℤ) (out s : List UInt8) :
    emitString size precision out s = out ++ s.take (min (size - 1 - out.length) (precision - out.length).toNat) := by
  induction s generalizing out with
  | nil => rw [emitString, take_nil, append_nil]
  | cons c s ih =>
    rw [emitString]
    split
    · obtain ⟨room, hroom⟩ : ∃ room, min (size - 1 - out.length) (precision - out.length).toNat = room + 1 :=
        ⟨min (size - 1 - out.length) (precision - out.length).toNat - 1, by omega⟩
      have hrest : min (size - 1 - (out ++ [c]).length) (precision - (out ++ [c]).length).toNat = room := by
        rw [length_append, length_singleton]
        omega
      rw [ih, hroom, hrest, append_assoc]
      rfl
    · rename_i hfull
      have hzero : min (size - 1 - out.length) (precision - out.length).toNat = 0 := by omega
      rw [hzero, take_zero, append_nil]

/-- Whether the argument has 64 bits. -/
def Modifier.wide : Modifier → Bool
  | none => false
  | h => false
  | l => true
  | ll => true
  | z => true

theorem unsignedArg_wide (m : Modifier) (args : List Arg) :
    unsignedArg m.flags args = if m.wide then vaLong args else ((vaInt args).1.toUInt64, (vaInt args).2) := by
  cases m with
  | none | h => exact (if_neg (by decide)).trans ((if_neg (by decide)).trans (if_neg (by decide)))
  | l => exact (if_neg (by decide)).trans (if_pos (by decide))
  | ll => exact if_pos (by decide)
  | z => exact (if_neg (by decide)).trans ((if_neg (by decide)).trans (if_pos (by decide)))

theorem signedArg_wide (m : Modifier) (args : List Arg) :
    signedArg m.flags args =
      if m.wide then ((vaLong args).1.toInt64, (vaLong args).2) else ((vaInt args).1.toInt32.toInt64, (vaInt args).2) := by
  cases m with
  | none | h => exact (if_neg (by decide)).trans ((if_neg (by decide)).trans (if_neg (by decide)))
  | l => exact (if_neg (by decide)).trans (if_pos (by decide))
  | ll => exact if_pos (by decide)
  | z => exact (if_neg (by decide)).trans ((if_neg (by decide)).trans (if_pos (by decide)))

/-- The number that was passed is read. -/
theorem unsignedArg_spec (n : Number) (args : List Arg) :
    (unsignedArg n.modifier.flags (n.unsignedPassed :: args)).1.toNat = n.unsigned ∧
      (unsignedArg n.modifier.flags (n.unsignedPassed :: args)).2 = args := by
  rw [unsignedArg_wide]
  cases n <;> exact ⟨rfl, rfl⟩

theorem signedArg_spec (n : Number) (args : List Arg) :
    (signedArg n.modifier.flags (n.signedPassed :: args)).1.toInt = n.signed ∧
      (signedArg n.modifier.flags (n.signedPassed :: args)).2 = args := by
  rw [signedArg_wide]
  cases n with
  | int v => exact ⟨Int32.toInt_toInt64 v.toInt32, rfl⟩
  | short v => exact ⟨(Int32.toInt_toInt64 _).trans (Int16.toInt_toInt32 _), rfl⟩
  | long v | longlong v | size v => exact ⟨rfl, rfl⟩

/-- **A conversion is written** into a buffer that is not full. -/
theorem convert_spec (conv : Conversion) (hroom : out.length < size - 1) (args : List Arg) :
    convert size conv.letter (conv.precision.elim (size : ℤ) Int32.toInt) conv.modifier.flags out (conv.passed ++ args) =
      (out ++ conv.written size out.length, args) := by
  have hroom' : size - 1 - out.length = (size - 1 - out.length - 1) + 1 := by omega
  cases conv with
  | string s =>
    have hconvert : convert size 115 size 0 out (.pointer s.address s.text :: args) =
        (if s.address ≠ 0 then emitString size size out s.text else out, args) := rfl
    have hmin : min (size - 1 - out.length) ((size : ℤ) - out.length).toNat = size - 1 - out.length := by omega
    refine hconvert.trans ?_
    rw [if_pos s.nonnull, emitString_eq, hmin]
    rfl
  | limited p s =>
    have hconvert : convert size 115 p.toInt 0 out (.pointer s.address s.text :: args) =
        (if s.address ≠ 0 then emitString size p.toInt out s.text else out, args) := rfl
    refine hconvert.trans ?_
    rw [if_pos s.nonnull, emitString_eq]
    rfl
  | signed i n =>
    obtain ⟨hval, hrest⟩ := signedArg_spec n args
    have hconvert : convert size (if i then 105 else 100) size n.modifier.flags out (n.signedPassed :: args) =
        (emit size out (FormatInt64 (signedArg n.modifier.flags (n.signedPassed :: args)).1),
          (signedArg n.modifier.flags (n.signedPassed :: args)).2) := by cases i <;> rfl
    refine hconvert.trans ?_
    rw [hrest, FormatInt64_spec, hval, emit_eq]
    rfl
  | unsigned n =>
    obtain ⟨hval, hrest⟩ := unsignedArg_spec n args
    have hconvert : convert size 117 size n.modifier.flags out (n.unsignedPassed :: args) =
        (emit size out (FormatUInt64 (unsignedArg n.modifier.flags (n.unsignedPassed :: args)).1),
          (unsignedArg n.modifier.flags (n.unsignedPassed :: args)).2) := rfl
    refine hconvert.trans ?_
    rw [hrest, FormatUInt64_spec, hval, emit_eq]
    rfl
  | hex n =>
    obtain ⟨hval, hrest⟩ := unsignedArg_spec n args
    have hconvert : convert size 120 size n.modifier.flags out (n.unsignedPassed :: args) =
        (emit size out (FormatUInt64Hex (unsignedArg n.modifier.flags (n.unsignedPassed :: args)).1),
          (unsignedArg n.modifier.flags (n.unsignedPassed :: args)).2) := rfl
    refine hconvert.trans ?_
    rw [hrest, (FormatUInt64Hex_spec _).1, hval, emit_eq]
    rfl
  | pointer v text =>
    have hconvert : convert size 112 size 0 out (.pointer v text :: args) =
        (emit size (emit size (out ++ [48]) [120]) (FormatUInt64Hex v), args) := rfl
    have hall : emit size (emit size (out ++ [48]) [120]) (FormatUInt64Hex v) = emit size out (48 :: 120 :: FormatUInt64Hex v) := by
      have hfirst : emit size out [48] = out ++ [48] := if_pos hroom
      rw [← hfirst, emit_emit, emit_emit]
      rfl
    refine hconvert.trans ?_
    rw [hall, emit_eq, (FormatUInt64Hex_spec _).1]
    rfl
  | char v =>
    have hconvert : convert size 99 size 0 out (.int v :: args) = (emit size out [v.toUInt8], args) := rfl
    refine hconvert.trans ?_
    rw [emit_eq]
    rfl
  | percent =>
    have hconvert : convert size 37 size 0 out args = (out ++ [37], args) := rfl
    refine hconvert.trans ?_
    change _ = (out ++ [37].take (size - 1 - out.length), args)
    rw [hroom', take_succ_cons, take_nil]

/-! ## A pass of the loop -/

variable {p : Piece} {ps : List Piece} {st : State}

/-- **A pass of the loop**: with room in the buffer it writes the piece if all of it is in the part of the format that has an index, and
leaves the loop otherwise. -/
theorem step_piece (hf : st.cur.f = p.print ++ rest) (hargs : st.args = p.passed ++ args) (hleft : 0 < st.cur.left)
    (hroom : st.out.length < size - 1) :
    step size st =
      if p.print.length ≤ st.cur.left then
        some ⟨⟨rest, st.cur.left - p.print.length⟩, st.out ++ p.written size st.out.length, args⟩
      else none := by
  obtain ⟨⟨f, left⟩, out, passed⟩ := st
  dsimp only at hf hargs hleft hroom ⊢
  subst hf hargs
  unfold step
  rw [if_pos ⟨hleft, hroom⟩]
  cases p with
  | text c zero percent =>
    have hfits : ((Piece.text c zero percent).print.length : ℤ) ≤ left := by
      change (1 : ℤ) ≤ left
      omega
    rw [if_pos hfits]
    exact if_pos percent
  | conversion minus width conv =>
    refine (if_neg (not_not_intro rfl)).trans ?_
    -- Before the character of the conversion stands the part that `directive` reads.
    obtain ⟨pre, hpre⟩ : ∃ pre, pre = flag minus ++ (width.print ++ (dots conv.precision ++ conv.modifier.print)) := ⟨_, rfl⟩
    obtain ⟨E, hE⟩ : ∃ E : ℤ, left - 1 = E + pre.length := ⟨left - 1 - pre.length, by omega⟩
    have hprint : (Piece.conversion minus width conv).print = 37 :: (pre ++ [conv.letter]) := by
      rw [hpre]
      simp only [Piece.print, append_assoc]
    have hlen : ((Piece.conversion minus width conv).print.length : ℤ) = pre.length + 2 := by
      rw [hprint, length_cons, length_append, length_singleton]
      omega
    have hnext : Cursor.next ⟨(Piece.conversion minus width conv).print ++ rest, left⟩ = ⟨pre ++ conv.letter :: rest, E + pre.length⟩ := by
      rw [hprint, ← hE]
      unfold Cursor.next
      rw [cons_append, append_assoc]
      rfl
    have hargs : (Piece.conversion minus width conv).passed ++ args = width.passed ++ (dotsPassed conv.precision ++ (conv.passed ++ args)) := by
      simp only [Piece.passed, append_assoc]
    have hreach : Reaches pre (conv.letter :: rest) E ⟨pre ++ conv.letter :: rest, E + pre.length⟩ := .inl rfl
    rw [hpre] at hreach
    have hdir := directive_spec hreach size (conv.passed ++ args)
    rw [← hpre] at hdir
    rw [hnext, hargs, hlen]
    by_cases hpos : 0 < E
    · rw [hdir.1 hpos, if_neg (by dsimp only; omega), if_pos (by omega)]
      have hconvert := convert_spec conv hroom args
      have hleft' : left - ((pre.length : ℤ) + 2) = E - 1 := by omega
      have hhere : Cursor.here ⟨conv.letter :: rest, E⟩ = conv.letter := rfl
      rw [hleft', hhere, hconvert]
      rfl
    · rw [if_pos (hdir.2 (by omega)), if_neg (by omega)]

/-! ## The whole format -/

def Piece.precision : Piece → Option Int32
  | text _ _ _ => none
  | conversion _ _ conv => conv.precision

/-- What there is room for of the piece `k`. -/
def cut (size : ℕ) (ps : List Piece) (k : ℕ) (p : Piece) : List UInt8 := p.shown.take (size - 1 - (shown (ps.take k)).length)

/-- **When a piece is printed as C99 says**: there is no room or nothing to print, or it stands in the part of the format whose length
is an `int`, and a precision that is an argument is not below the number of bytes from the start of the output to its end. -/
def PieceFits (size : ℕ) (ps : List Piece) (k : ℕ) : Prop :=
  ∀ p, ps[k]? = some p → (shown (ps.take k)).length < size - 1 → cut size ps k p = [] ∨
    (format (ps.take (k + 1))).length ≤ toInt (format ps).length ∧
      ∀ q, p.precision = some q → (shown (ps.take k)).length + (cut size ps k p).length ≤ q.toInt

/-- All pieces are. -/
def Fits (size : ℕ) (ps : List Piece) : Prop := ∀ k, PieceFits size ps k

/-- **The output of C99**, up to the end of the buffer: that of each piece wherever it stands, then the NUL inside the buffer, and the
length as the value. -/
structure Formats (size : ℕ) (ps : List Piece) : Prop where
  pieces : ∀ k ≤ ps.length, (after size (format ps) (passed ps) k).out = (shown (ps.take k)).take (size - 1)
  output : (vpnprintf size (format ps) (passed ps)).1 = (shown ps).take (size - 1) ++ [0]
  inside : (vpnprintf size (format ps) (passed ps)).1.length ≤ size
  value : (vpnprintf size (format ps) (passed ps)).2 = ((shown ps).take (size - 1)).length

theorem Conversion.written_iff {s_idx : ℕ} (conv : Conversion) :
    conv.written size s_idx = conv.shown.take (size - 1 - s_idx) ↔
      conv.shown.take (size - 1 - s_idx) = [] ∨
        ∀ q, conv.precision = some q → s_idx + (conv.shown.take (size - 1 - s_idx)).length ≤ q.toInt := by
  cases conv with
  | limited p s =>
    change s.text.take _ = (if p.toInt < 0 then s.text else s.text.take p.toInt.toNat).take _ ↔
      (if p.toInt < 0 then s.text else s.text.take p.toInt.toNat).take _ = [] ∨
        ∀ q, some p = some q → s_idx + ((if p.toInt < 0 then s.text else s.text.take p.toInt.toNat).take _).length ≤ q.toInt
    have hq : ∀ n : ℕ, (∀ q, some p = some q → s_idx + (n : ℤ) ≤ q.toInt) ↔ s_idx + (n : ℤ) ≤ p.toInt := by
      intro n
      constructor
      · exact fun h => h p rfl
      · intro h q heq
        rwa [← some.inj heq]
    rw [hq, ← length_eq_zero_iff]
    split
    · -- A negative precision keeps everything back.
      rw [take_eq_take_iff, length_take]
      omega
    · rw [take_take, take_eq_take_iff, length_take]
      omega
  | _ =>
    constructor
    · exact fun _ => .inr fun q hq => nomatch hq
    · exact fun _ => rfl

theorem Piece.written_iff {s_idx : ℕ} (p : Piece) (hroom : s_idx < size - 1) :
    p.written size s_idx = p.shown.take (size - 1 - s_idx) ↔
      p.shown.take (size - 1 - s_idx) = [] ∨ ∀ q, p.precision = some q → s_idx + (p.shown.take (size - 1 - s_idx)).length ≤ q.toInt := by
  cases p with
  | text c zero percent =>
    obtain ⟨room, hroom'⟩ : ∃ room, size - 1 - s_idx = room + 1 := ⟨size - 1 - s_idx - 1, by omega⟩
    have htake : [c].take (room + 1) = [c] := by rw [take_succ_cons, take_nil]
    rw [hroom']
    exact iff_of_true htake.symm (.inr fun q hq => nomatch hq)
  | conversion minus width conv => exact conv.written_iff

/-- The state after some pieces: their output is right, and the buffer is full, or the loop stands behind them, or it has been left and
their format is longer than its part with an index. -/
structure Tracks (size : ℕ) (ps : List Piece) (k : ℕ) (st : State) : Prop where
  out : st.out = (shown (ps.take k)).take (size - 1)
  stands : size - 1 ≤ st.out.length ∨
    st = ⟨⟨format (ps.drop k), toInt (format ps).length - (format (ps.take k)).length⟩, st.out, passed (ps.drop k)⟩ ∨
    step size st = none ∧ toInt (format ps).length < (format (ps.take k)).length

theorem step_full (h : size - 1 ≤ st.out.length) : step size st = none := by
  apply if_neg
  omega

variable {k : ℕ}

/-- The next piece of a format. -/
theorem take_piece (hk : ps[k]? = some p) :
    shown (ps.take (k + 1)) = shown (ps.take k) ++ p.shown ∧
      format (ps.take (k + 1)) = format (ps.take k) ++ p.print ∧
      format (ps.drop k) = p.print ++ format (ps.drop (k + 1)) ∧ passed (ps.drop k) = p.passed ++ passed (ps.drop (k + 1)) := by
  obtain ⟨hlt, rfl⟩ := List.getElem?_eq_some_iff.1 hk
  have htake : ps.take (k + 1) = ps.take k ++ [ps[k]] := (take_append_getElem hlt).symm
  have hdrop : ps.drop k = ps[k] :: ps.drop (k + 1) := drop_eq_getElem_cons hlt
  refine ⟨?_, ?_, ?_, ?_⟩
  · rw [htake, shown, flatMap_append, flatMap_singleton]
    rfl
  · rw [htake, format, flatMap_append, flatMap_singleton]
    rfl
  · rw [hdrop, format]
    rfl
  · rw [hdrop, passed]
    rfl

theorem Piece.print_pos (p : Piece) : 0 < p.print.length := by
  cases p with
  | text => exact one_pos
  | conversion => exact Nat.succ_pos _

theorem pieceFits_iff (hk : ps[k]? = some p) :
    PieceFits size ps k ↔ ((shown (ps.take k)).length < size - 1 → cut size ps k p = [] ∨
      (format (ps.take (k + 1))).length ≤ toInt (format ps).length ∧
        ∀ q, p.precision = some q → (shown (ps.take k)).length + (cut size ps k p).length ≤ q.toInt) := by
  constructor
  · exact fun hfits => hfits p hk
  · intro hfits q hq
    obtain rfl := some.inj (hk.symm.trans hq)
    exact hfits

/-- A pass of the loop: it leaves the right output exactly when its piece fits, and then the loop goes on behind it. -/
def Onward (size : ℕ) (ps : List Piece) (k : ℕ) (st : State) : Prop :=
  (st.out = (shown (ps.take (k + 1))).take (size - 1) ↔ PieceFits size ps k) ∧ (PieceFits size ps k → Tracks size ps (k + 1) st)

section

variable (h : Tracks size ps k st)
include h

/-- In a full buffer nothing more is written. -/
theorem Tracks.onward_full (hk : ps[k]? = some p) (hfull : size - 1 ≤ (shown (ps.take k)).length) :
    Onward size ps k (next size st) := by
  have hlen : size - 1 ≤ st.out.length := by
    rw [h.out, length_take]
    omega
  have hright : st.out = (shown (ps.take (k + 1))).take (size - 1) := by
    rw [(take_piece hk).1, take_append_of_le_length hfull]
    exact h.out
  unfold Onward
  rw [next_of_none (step_full hlen), pieceFits_iff hk]
  exact ⟨iff_of_true hright fun hlt => absurd hlt (by omega), fun _ => ⟨hright, .inl hlen⟩⟩

/-- With room, the right output is that of the piece behind what there was. -/
theorem Tracks.target (hk : ps[k]? = some p) (hroom : (shown (ps.take k)).length < size - 1) :
    st.out = shown (ps.take k) ∧ (shown (ps.take (k + 1))).take (size - 1) = st.out ++ cut size ps k p := by
  have hout := h.out
  rw [take_of_length_le (by omega)] at hout
  refine ⟨hout, ?_⟩
  rw [(take_piece hk).1, take_append, take_of_length_le (by omega), hout]
  rfl

/-- A piece that is not read is printed right if it prints nothing. -/
theorem Tracks.onward_unread (hk : ps[k]? = some p) (hroom : (shown (ps.take k)).length < size - 1)
    (hnone : step size st = none) (hbehind : toInt (format ps).length < (format (ps.take (k + 1))).length) :
    Onward size ps k (next size st) := by
  obtain ⟨-, htarget⟩ := h.target hk hroom
  have hempty : PieceFits size ps k ↔ cut size ps k p = [] := by
    rw [pieceFits_iff hk]
    constructor
    · exact fun hfits => (hfits hroom).resolve_right fun hread => absurd hread.1 (by omega)
    · exact fun hempty _ => .inl hempty
  unfold Onward
  rw [next_of_none hnone, htarget, hempty]
  constructor
  · exact self_eq_append_right
  · intro hcut
    refine ⟨?_, .inr (.inr ⟨hnone, hbehind⟩)⟩
    rw [htarget, hcut, append_nil]

/-- A piece that is read is printed right if its precision allows it. -/
theorem Tracks.onward_read (hk : ps[k]? = some p) (hroom : (shown (ps.take k)).length < size - 1)
    (hread : (format (ps.take (k + 1))).length ≤ toInt (format ps).length)
    (hstep : step size st = some ⟨⟨format (ps.drop (k + 1)), toInt (format ps).length - (format (ps.take (k + 1))).length⟩,
      st.out ++ p.written size st.out.length, passed (ps.drop (k + 1))⟩) :
    Onward size ps k (next size st) := by
  obtain ⟨hout, htarget⟩ := h.target hk hroom
  have hwritten : st.out ++ p.written size st.out.length = st.out ++ cut size ps k p ↔ PieceFits size ps k := by
    rw [append_cancel_left_eq, pieceFits_iff hk, hout]
    unfold cut
    rw [p.written_iff hroom]
    constructor
    · exact fun hfits _ => hfits.imp_right fun hq => ⟨hread, hq⟩
    · exact fun hfits => (hfits hroom).imp_right fun hq => hq.2
  unfold Onward
  rw [next_of_some hstep, htarget]
  refine ⟨hwritten, fun hfits => ⟨?_, .inr (.inl rfl)⟩⟩
  rw [htarget]
  exact hwritten.2 hfits

/-- **One piece** of the format. -/
theorem Tracks.onward (hk : ps[k]? = some p) : Onward size ps k (next size st) := by
  obtain ⟨-, hformat, hdrop, hpassed⟩ := take_piece hk
  by_cases hfull : size - 1 ≤ (shown (ps.take k)).length
  · exact h.onward_full hk hfull
  have hroom : (shown (ps.take k)).length < size - 1 := by omega
  obtain ⟨hout, -⟩ := h.target hk hroom
  have hlonger : (format (ps.take (k + 1))).length = (format (ps.take k)).length + p.print.length := by
    rw [hformat, length_append]
  have hpos := p.print_pos
  rcases h.stands with hlen | hst | ⟨hnone, hbehind⟩
  · rw [hout] at hlen
    exact absurd hroom (by omega)
  · by_cases hleft : 0 < toInt (format ps).length - ((format (ps.take k)).length : ℤ)
    · have hf : st.cur.f = p.print ++ format (ps.drop (k + 1)) := by
        rw [hst, ← hdrop]
      have hargs : st.args = p.passed ++ passed (ps.drop (k + 1)) := by
        rw [hst, ← hpassed]
      have hcur : st.cur.left = toInt (format ps).length - (format (ps.take k)).length := by rw [hst]
      have hstep := step_piece hf hargs (by rwa [hcur]) (by rwa [hout])
      rw [hcur] at hstep
      split at hstep
      · rename_i hfits
        apply h.onward_read hk hroom (by omega)
        rw [hstep, hlonger, Nat.cast_add, sub_sub]
      · rename_i hbehind
        apply h.onward_unread hk hroom hstep
        omega
    · apply h.onward_unread hk hroom
      · rw [hst]
        exact if_neg fun hcond => hleft hcond.1
      · omega
  · exact h.onward_unread hk hroom hnone (by omega)

end

/-- The loop stands before the first piece. -/
theorem tracks_start (size : ℕ) (ps : List Piece) : Tracks size ps 0 (after size (format ps) (passed ps) 0) := by
  refine ⟨take_nil.symm, .inr (.inl ?_)⟩
  rw [take_zero]
  have hnil : ((format []).length : ℤ) = 0 := rfl
  rw [hnil, sub_zero]
  rfl

/-- **All pieces before the piece `k` fit**: the loop has come to it. -/
theorem tracks_after (hk : k ≤ ps.length) (hfits : ∀ j < k, PieceFits size ps j) :
    Tracks size ps k (after size (format ps) (passed ps) k) := by
  induction k with
  | zero => exact tracks_start size ps
  | succ k ih =>
    have hbefore := ih (by omega) fun j hj => hfits j (by omega)
    rw [after_succ]
    exact (hbefore.onward (getElem?_eq_getElem (by omega))).2 (hfits k (by omega))

/-- Behind the last piece the loop is left. -/
theorem Tracks.ended (h : Tracks size ps ps.length st) : step size st = none := by
  rcases h.stands with hfull | hst | ⟨hnone, -⟩
  · exact step_full hfull
  · rw [hst]
    apply if_neg
    rintro ⟨hleft, -⟩
    dsimp only at hleft
    have := toInt_le (format ps).length
    rw [take_length] at hleft
    omega
  · exact hnone

theorem length_le_format (ps : List Piece) : ps.length ≤ (format ps).length := by
  induction ps with
  | nil => exact Nat.zero_le _
  | cons p ps ih =>
    have hpos := p.print_pos
    rw [format, flatMap_cons, length_append, length_cons]
    unfold format at ih
    omega

/-- An output that is right for every piece says that the pieces fit. -/
theorem Formats.fits (h : Formats size ps) : Fits size ps := by
  intro k
  induction k using Nat.strong_induction_on with
  | _ k ih =>
    rcases hk : ps[k]? with _ | p
    · intro q hq
      rw [hk] at hq
      exact nomatch hq
    · obtain ⟨hlt, -⟩ := List.getElem?_eq_some_iff.1 hk
      have honward := (tracks_after (le_of_lt hlt) ih).onward hk
      rw [← after_succ] at honward
      exact honward.1.1 (h.pieces (k + 1) hlt)

/-- If all pieces fit, the loop prints them one after the other. -/
theorem Fits.formats (hsize : 1 ≤ size) (h : Fits size ps) : Formats size ps := by
  have htracks : ∀ k ≤ ps.length, Tracks size ps k (after size (format ps) (passed ps) k) :=
    fun k hk => tracks_after hk fun j _ => h j
  have hlast := htracks ps.length (le_refl _)
  have hend := after_of_ended hlast.ended (length_le_format ps)
  have hout : (after size (format ps) (passed ps) (format ps).length).out = (shown ps).take (size - 1) := by
    rw [hend, hlast.out, take_length]
  refine ⟨fun k hk => (htracks k hk).out, ?_, ?_, ?_⟩
  · unfold vpnprintf
    rw [hout]
  · unfold vpnprintf
    rw [hout, length_append, length_take, length_singleton]
    omega
  · unfold vpnprintf
    rw [hout]

/-- **The formatter of the log**: the output is that of C99 exactly when all pieces fit. -/
theorem vpnprintf_formats (size : ℕ) (hsize : 1 ≤ size) (ps : List Piece) : Formats size ps ↔ Fits size ps :=
  ⟨Formats.fits, Fits.formats hsize⟩

/-- `"a%.*s"` with the precision one and the string `"b"`. -/
def behindText : List Piece :=
  [.text 97 (by decide) (by decide), .conversion false (.digits [] (by decide +kernel)) (.limited 1 ⟨16, [98], by decide, by decide⟩)]

/-- C99 prints `"ab"`, and `vpnprintf` prints `"a"`. -/
theorem behindText_printed :
    shown behindText = [97, 98] ∧ vpnprintf 8 (format behindText) (passed behindText) = ([97, 0], 1) ∧ ¬Formats 8 behindText := by
  have hprinted : vpnprintf 8 (format behindText) (passed behindText) = ([97, 0], 1) := by decide +kernel
  refine ⟨by decide +kernel, hprinted, fun h => ?_⟩
  have houtput := h.output
  exact absurd houtput (by decide +kernel)

theorem behindText_formats : 1 ≤ 8 ∧ (Formats 8 behindText ↔ Fits 8 behindText) :=
  ⟨by decide, vpnprintf_formats 8 (by decide) behindText⟩

end Xenia.Log
