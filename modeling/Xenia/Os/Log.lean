import Xenia.Os.Fmt

/-!
# The formatter of the log

`vpnprintf` is the `snprintf` of the log in a signal handler: one loop over the format, with an index into it and an index into the
output, and a precision for `%.*s`. `step` is one pass of the loop, `vpnprintf` is the whole call. The conversions are parsed by
`directive` and written by `convert`.
-/

namespace Xenia.Log

open Fmt

/-! ## Arguments -/

/-- An argument of a variadic call: an `int`, a 64 bit number, a pointer with the bytes that it points to up to their NUL, or a
`double` with the text that `FormatDouble` makes of it. -/
inductive Arg
  | int (v : UInt32)
  | long (v : UInt64)
  | pointer (v : UInt64) (text : List UInt8)
  | double (text : List UInt8)
deriving DecidableEq, Repr

/-- `va_arg!int` and `va_arg!uint`; an argument of another type is undefined behaviour, and read as zero. -/
def vaInt : List Arg → UInt32 × List Arg
  | .int v :: args => (v, args)
  | _ :: args => (0, args)
  | [] => (0, [])

/-- `va_arg!long`, `va_arg!ulong` and those of `size_t` and `ssize_t`. -/
def vaLong : List Arg → UInt64 × List Arg
  | .long v :: args => (v, args)
  | _ :: args => (0, args)
  | [] => (0, [])

/-- `va_arg!(char*)` and `va_arg!(void*)`, with the bytes there. -/
def vaPointer : List Arg → (UInt64 × List UInt8) × List Arg
  | .pointer v text :: args => ((v, text), args)
  | _ :: args => ((0, []), args)
  | [] => ((0, []), [])

def vaDouble : List Arg → List UInt8 × List Arg
  | .double text :: args => (text, args)
  | _ :: args => ([], args)
  | [] => ([], [])

/-! ## The format -/

/-- Where the loop stands: the format from `f_idx` on, and `f_len - f_idx`. -/
structure Cursor where
  f : List UInt8
  left : ℤ
deriving DecidableEq, Repr

namespace Cursor

/-- `f[f_idx]`; behind the last byte stands the NUL. -/
def here (cur : Cursor) : UInt8 := cur.f.headD 0

/-- `f_idx++`. -/
def next (cur : Cursor) : Cursor := ⟨cur.f.tail, cur.left - 1⟩

/-- `f_idx += n`. -/
def advance (cur : Cursor) (n : ℕ) : Cursor := ⟨cur.f.drop n, cur.left - n⟩

/-- `if (f[f_idx] == c) f_idx++`. -/
def skip (c : UInt8) (cur : Cursor) : Cursor := if cur.here = c then cur.next else cur

end Cursor

/-- `f[f_idx] >= '0' && f[f_idx] <= '9'`. -/
def isDigit (c : UInt8) : Bool := 48 ≤ c && c ≤ 57

/-- `while (f_idx < f_len && …) f_idx++`. -/
def skipDigits : List UInt8 → ℤ → Cursor
  | [], left => ⟨[], left⟩
  | c :: f, left => if 0 < left && isDigit c then skipDigits f (left - 1) else ⟨c :: f, left⟩

def LMOD_LONG : UInt32 := 0x1
def LMOD_LONGLONG : UInt32 := 0x2
def LMOD_SHORT : UInt32 := 0x4
def LMOD_SIZET : UInt32 := 0x8

/-- The loop of `parse_length_modifier`: the number of bytes and the flags; a combination that cannot be is reported as a bug, and then
nothing is parsed and the flags of the caller stay zero. -/
def parseModifiers : (format : List UInt8) → (len idx : ℕ) → (length_modifier : UInt32) → ℕ × UInt32
  | _, 0, idx, length_modifier => (idx, length_modifier)
  | [], _, idx, length_modifier => (idx, length_modifier)
  | c :: format, len + 1, idx, length_modifier =>
    if c = 108 then
      if length_modifier &&& LMOD_SHORT ≠ 0 then (0, 0)
      else if length_modifier &&& LMOD_LONG ≠ 0 then parseModifiers format len (idx + 1) (length_modifier ||| LMOD_LONGLONG)
      else parseModifiers format len (idx + 1) (length_modifier ||| LMOD_LONG)
    else if c = 104 then
      if length_modifier &&& (LMOD_LONG ||| LMOD_LONGLONG) ≠ 0 then (0, 0)
      else parseModifiers format len (idx + 1) (length_modifier ||| LMOD_SHORT)
    else if c = 122 then parseModifiers format len (idx + 1) (length_modifier ||| LMOD_SIZET)
    else (idx, length_modifier)

def parse_length_modifier (format : List UInt8) (len : ℕ) : ℕ × UInt32 := parseModifiers format len 0 0

/-- The minimum field width, which is swallowed. -/
def fieldWidth (cur : Cursor) (args : List Arg) : Cursor × List Arg :=
  if cur.here = 42 then (cur.next, (vaInt args).2) else (skipDigits cur.f cur.left, args)

/-- The precision, which is the size of the buffer when the format has none; digits are swallowed. -/
def readPrecision (size : ℕ) (cur : Cursor) (args : List Arg) : ℤ × Cursor × List Arg :=
  if cur.here = 46 then
    if cur.next.here = 42 then ((vaInt args).1.toInt32.toInt, cur.next.next, (vaInt args).2)
    else (size, skipDigits cur.next.f cur.next.left, args)
  else (size, cur, args)

/-- The length modifiers. -/
def lengthModifier (cur : Cursor) : UInt32 × Cursor :=
  if 0 < cur.left then
    ((parse_length_modifier cur.f cur.left.toNat).2, cur.advance (parse_length_modifier cur.f cur.left.toNat).1)
  else (0, cur)

/-- What stands between the `%` and the character of the conversion. -/
structure Directive where
  precision : ℤ
  length_modifier : UInt32
  cur : Cursor
  args : List Arg
deriving DecidableEq, Repr

/-- A conversion from behind its `%` to its character. -/
def directive (size : ℕ) (cur : Cursor) (args : List Arg) : Directive :=
  let width := fieldWidth ((cur.skip 35).skip 45) args
  let prec := readPrecision size width.1 width.2
  let modifier := lengthModifier prec.2.1
  ⟨prec.1, modifier.1, modifier.2, prec.2.2⟩

/-! ## The output -/

/-- `for (i = 0; i < p_len && s_idx < size - 1; i++) string[s_idx++] = number[i]`. -/
def emit (size : ℕ) (out : List UInt8) : (number : List UInt8) → List UInt8
  | [] => out
  | c :: number => if out.length < size - 1 then emit size (out ++ [c]) number else out

/-- The loop of `%s`, which compares the precision with the index of the output. -/
def emitString (size : ℕ) (precision : ℤ) (out : List UInt8) : (string_arg : List UInt8) → List UInt8
  | [] => out
  | c :: string_arg =>
    if out.length < size - 1 ∧ (out.length : ℤ) < precision then emitString size precision (out ++ [c]) string_arg else out

/-- The argument of `%u` and `%x`. -/
def unsignedArg (length_modifier : UInt32) (args : List Arg) : UInt64 × List Arg :=
  if length_modifier &&& LMOD_LONGLONG ≠ 0 then vaLong args
  else if length_modifier &&& LMOD_LONG ≠ 0 then vaLong args
  else if length_modifier &&& LMOD_SIZET ≠ 0 then vaLong args
  else ((vaInt args).1.toUInt64, (vaInt args).2)

/-- The argument of `%d` and `%i`. -/
def signedArg (length_modifier : UInt32) (args : List Arg) : Int64 × List Arg :=
  if length_modifier &&& LMOD_LONGLONG ≠ 0 then ((vaLong args).1.toInt64, (vaLong args).2)
  else if length_modifier &&& LMOD_LONG ≠ 0 then ((vaLong args).1.toInt64, (vaLong args).2)
  else if length_modifier &&& LMOD_SIZET ≠ 0 then ((vaLong args).1.toInt64, (vaLong args).2)
  else ((vaInt args).1.toInt32.toInt64, (vaInt args).2)

/-- The `switch` over the character of the conversion. -/
def convert (size : ℕ) (c : UInt8) (precision : ℤ) (length_modifier : UInt32) (out : List UInt8) (args : List Arg) :
    List UInt8 × List Arg :=
  if c = 115 then -- 's', with nothing for a null pointer
    let arg := vaPointer args
    (if arg.1.1 ≠ 0 then emitString size precision out arg.1.2 else out, arg.2)
  else if c = 117 then -- 'u'
    let arg := unsignedArg length_modifier args
    (emit size out (FormatUInt64 arg.1), arg.2)
  else if c = 105 ∨ c = 100 then -- 'i', 'd'
    let arg := signedArg length_modifier args
    (emit size out (FormatInt64 arg.1), arg.2)
  else if c = 112 then -- 'p', whose first byte needs no check: the loop has made it
    let arg := vaPointer args
    (emit size (emit size (out ++ [48]) [120]) (FormatUInt64Hex arg.1.1), arg.2)
  else if c = 120 ∨ c = 88 then -- 'x', 'X'
    let arg := unsignedArg length_modifier args
    (emit size out (FormatUInt64Hex arg.1), arg.2)
  else if c = 102 then -- 'f'
    let arg := vaDouble args
    (emit size out arg.1, arg.2)
  else if c = 99 then -- 'c'
    (emit size out [(vaInt args).1.toUInt8], (vaInt args).2)
  else if c = 37 then (out ++ [37], args) -- '%'
  else (emit size (out ++ [37]) [c], (vaPointer args).2)

/-! ## The loop -/

/-- The variables of the loop; `s_idx` is the length of the output. -/
structure State where
  cur : Cursor
  out : List UInt8
  args : List Arg
deriving DecidableEq, Repr

/-- One pass of the loop; `none` when the loop is left, by its condition or by the `break`. -/
def step (size : ℕ) (st : State) : Option State :=
  if 0 < st.cur.left ∧ st.out.length < size - 1 then
    if st.cur.here ≠ 37 then some ⟨st.cur.next, st.out ++ [st.cur.here], st.args⟩
    else
      let dir := directive size st.cur.next st.args
      if dir.cur.left ≤ 0 then none
      else
        let result := convert size dir.cur.here dir.precision dir.length_modifier st.out dir.args
        some ⟨dir.cur.next, result.1, result.2⟩
  else none

/-- One pass if there is one. -/
def next (size : ℕ) (st : State) : State := (step size st).getD st

/-- `cast(int)`. -/
def toInt (n : ℕ) : ℤ := Int.bmod n (2 ^ 32)

/-- The state before the loop, with `f_len = cast(int)strlen_sigsafe(f)`. -/
def start (f : List UInt8) (args : List Arg) : State := ⟨⟨f, toInt f.length⟩, [], args⟩

/-- The state after `k` passes. -/
def after (size : ℕ) (f : List UInt8) (args : List Arg) (k : ℕ) : State := (next size)^[k] (start f args)

/-- The bytes that the call stores from `string[0]` on and the value that it returns. Every pass takes a byte of the format, so it has no
more passes than bytes (`vpnprintf_ended`). -/
def vpnprintf (size : ℕ) (f : List UInt8) (args : List Arg) : List UInt8 × ℕ :=
  ((after size f args f.length).out ++ [0], (after size f args f.length).out.length)

/-! ## The loop ends -/

variable {size : ℕ} {cur : Cursor} {st st' : State}

namespace Cursor

theorem next_eq (cur : Cursor) : cur.next = cur.advance 1 := by
  cases cur
  unfold next advance
  rw [List.drop_one, Nat.cast_one]

theorem advance_advance (cur : Cursor) (m n : ℕ) : (cur.advance m).advance n = cur.advance (m + n) := by
  unfold advance
  rw [List.drop_drop, Nat.cast_add, sub_sub]

/-- A part of the loop moves the index forward. -/
def Forward (cur cur' : Cursor) : Prop := ∃ n, cur' = cur.advance n

theorem Forward.refl (cur : Cursor) : cur.Forward cur := ⟨0, by unfold advance; rw [List.drop_zero, Nat.cast_zero, sub_zero]⟩

theorem Forward.trans {a b c : Cursor} (hab : a.Forward b) (hbc : b.Forward c) : a.Forward c := by
  obtain ⟨m, rfl⟩ := hab
  obtain ⟨n, rfl⟩ := hbc
  exact ⟨m + n, advance_advance a m n⟩

theorem forward_next (cur : Cursor) : cur.Forward cur.next := ⟨1, next_eq cur⟩

theorem forward_skip (c : UInt8) (cur : Cursor) : cur.Forward (cur.skip c) := by
  unfold skip
  split
  · exact forward_next cur
  · exact Forward.refl cur

end Cursor

open Cursor

theorem forward_skipDigits (f : List UInt8) (left : ℤ) : Forward ⟨f, left⟩ (skipDigits f left) := by
  induction f generalizing left with
  | nil => exact Forward.refl _
  | cons c f ih =>
    rw [skipDigits]
    split
    · exact (forward_next ⟨c :: f, left⟩).trans (ih (left - 1))
    · exact Forward.refl _

theorem forward_fieldWidth (cur : Cursor) (args : List Arg) : cur.Forward (fieldWidth cur args).1 := by
  unfold fieldWidth
  split
  · exact forward_next cur
  · exact forward_skipDigits cur.f cur.left

theorem forward_readPrecision (size : ℕ) (cur : Cursor) (args : List Arg) : cur.Forward (readPrecision size cur args).2.1 := by
  unfold readPrecision
  split
  · apply (forward_next cur).trans
    split
    · exact forward_next cur.next
    · exact forward_skipDigits cur.next.f cur.next.left
  · exact Forward.refl cur

theorem forward_lengthModifier (cur : Cursor) : cur.Forward (lengthModifier cur).2 := by
  unfold lengthModifier
  split
  · exact ⟨_, rfl⟩
  · exact Forward.refl cur

/-- The format is not left behind its end. -/
def Inside (cur : Cursor) : Prop := cur.left ≤ cur.f.length

theorem bmod_le (n m : ℕ) : Int.bmod n m ≤ n := by
  have hmod : (n : ℤ) % m ≤ n := by exact_mod_cast Nat.mod_le n m
  unfold Int.bmod
  dsimp only
  split
  · exact hmod
  · omega

theorem toInt_le (n : ℕ) : toInt n ≤ n := by
  apply bmod_le

theorem next_of_none (h : step size st = none) : next size st = st := by
  unfold next
  rw [h]
  rfl

theorem next_of_some (h : step size st = some st') : next size st = st' := by
  unfold next
  rw [h]
  rfl

theorem after_succ (size : ℕ) (f : List UInt8) (args : List Arg) (k : ℕ) :
    after size f args (k + 1) = next size (after size f args k) := Function.iterate_succ_apply' _ _ _

/-- Once the loop is left, nothing changes. -/
theorem after_of_ended {f : List UInt8} {args : List Arg} {k m : ℕ} (h : step size (after size f args k) = none) (hle : k ≤ m) :
    after size f args m = after size f args k := by
  induction m, hle using Nat.le_induction with
  | base => rfl
  | succ m _ ih => rw [after_succ, ih, next_of_none h]

end Xenia.Log
