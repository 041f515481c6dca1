import Mathlib.Tactic.Linarith
import Mathlib.Tactic.Ring

/-!
# Numbers as text, without the C library

`FormatUInt64`, `FormatInt64` and `FormatUInt64Hex` write a number into a buffer of the caller. All of them first count the digits, with a
divisor that grows until the number is below it or the buffer is full, and then write the digits from the last one to the first.
`FormatUInt64_spec`, `FormatInt64_spec` and `FormatUInt64Hex_spec`: what stands in the buffer is the number, for all 64 bit numbers. In the
last pass the divisor may overflow; it is not used then (`countDigits_spec`, `writeDigits_eq`).
-/

namespace Xenia.Fmt

open List

/-! ## The functions -/

/-- The first loop: `len < most && num / divisor`, with `room` as `most - len`. -/
def countDigits (base num : UInt64) : (room : ℕ) → (divisor : UInt64) → (len : ℕ) → ℕ
  | 0, _, len => len
  | room + 1, divisor, len =>
    if num / divisor ≠ 0 then countDigits base num room (divisor * base) (len + 1)
    else len

/-- The second loop: `string[i - 1]` is written for `i` from `len` down to one; `rest` is what stands behind it. -/
def writeDigits (base num : UInt64) (digit : UInt64 → UInt8) : (i : ℕ) → (divisor : UInt64) → (rest : List UInt8) → List UInt8
  | 0, _, rest => rest
  | i + 1, divisor, rest => writeDigits base num digit i (divisor * base) (digit (num / divisor % base) :: rest)

/-- The bytes before the NUL that a number of at most `most` digits leaves in `string`. -/
def formatDigits (base : UInt64) (most : ℕ) (digit : UInt64 → UInt8) (num : UInt64) : List UInt8 :=
  writeDigits base num digit (countDigits base num (most - 1) base 1) 1 []

/-- `'0' + …`. -/
def decimalDigit (val : UInt64) : UInt8 := (48 + val).toUInt8

/-- `'0' + val` or `'a' + val - 10`. -/
def hexDigit (val : UInt64) : UInt8 := if val < 10 then (48 + val).toUInt8 else (97 + val - 10).toUInt8

def FormatUInt64 (num : UInt64) : List UInt8 := formatDigits 10 20 decimalDigit num

def FormatUInt64Hex (num : UInt64) : List UInt8 := formatDigits 16 16 hexDigit num

def FormatInt64 (num : Int64) : List UInt8 :=
  if num < 0 then 45 :: FormatUInt64 (num * -1).toUInt64 else FormatUInt64 num.toUInt64

/-! ## What stands in the buffer -/

/-- A natural number as text. -/
def digits (base n : ℕ) : List UInt8 := (Nat.toDigits base n).map fun c => c.toNat.toUInt8

/-- An integer as text. -/
def signedDigits (z : ℤ) : List UInt8 := if z < 0 then 45 :: digits 10 z.natAbs else digits 10 z.natAbs

/-- The last `i` digits of a number. -/
def lastDigits (base : ℕ) : (i n : ℕ) → List ℕ
  | 0, _ => []
  | i + 1, n => lastDigits base i (n / base) ++ [n % base]

variable {base num : UInt64} {most : ℕ} {digit : UInt64 → UInt8}

theorem length_lastDigits (b i n : ℕ) : (lastDigits b i n).length = i := by
  induction i generalizing n with
  | zero => rfl
  | succ i ih => rw [lastDigits, length_append, ih, length_singleton]

/-- As many digits as a number has are its text. -/
theorem lastDigits_toDigits {b r n : ℕ} (hb : 1 < b) (hr : 0 < r) (hlt : n < b ^ r) (hge : r = 1 ∨ b ^ (r - 1) ≤ n) :
    (lastDigits b r n).map Nat.digitChar = Nat.toDigits b n := by
  induction r generalizing n with
  | zero => omega
  | succ r ih =>
    rw [lastDigits, map_append]
    rcases Nat.eq_zero_or_pos r with rfl | hr
    · rw [pow_one] at hlt
      rw [Nat.toDigits_of_lt_base hlt, Nat.mod_eq_of_lt hlt]
      rfl
    · have hpow : b ^ (r + 1 - 1) ≤ n := by
        apply hge.resolve_left
        omega
      have hle : b ≤ n := by
        calc b = b ^ 1 := (pow_one b).symm
          _ ≤ b ^ r := Nat.pow_le_pow_right (by omega) hr
          _ ≤ n := hpow
      rw [Nat.toDigits_of_base_le hb hle, ih hr]
      · rfl
      · rw [pow_succ] at hlt
        exact Nat.div_lt_of_lt_mul (by rwa [mul_comm])
      · right
        rw [Nat.le_div_iff_mul_le (by omega), ← pow_succ]
        rwa [Nat.sub_add_cancel hr]

variable {d : UInt64}

theorem pow_toNat {k : ℕ} (hd : d.toNat = base.toNat ^ k) (hlt : base.toNat ^ (k + 1) < 2 ^ 64) :
    (d * base).toNat = base.toNat ^ (k + 1) := by
  rw [UInt64.toNat_mul, hd, ← pow_succ, Nat.mod_eq_of_lt hlt]

theorem div_ne_zero_iff (hd : 0 < d.toNat) : num / d ≠ 0 ↔ d.toNat ≤ num.toNat := by
  rw [Ne, ← UInt64.toNat_inj, UInt64.toNat_div, UInt64.toNat_zero, Nat.div_eq_zero_iff]
  omega

/-- **The count of the digits**: the divisor is `base` to the power `len` as long as it is compared with the number. -/
theorem countDigits_spec (hb : 1 < base.toNat) (hmost : base.toNat ^ (most - 1) < 2 ^ 64) (hall : num.toNat < base.toNat ^ most)
    {room len : ℕ} (hlen : 0 < len) (hroom : len + room = most) (hd : room ≠ 0 → d.toNat = base.toNat ^ len)
    (hge : len = 1 ∨ base.toNat ^ (len - 1) ≤ num.toNat) :
    let r := countDigits base num room d len
    0 < r ∧ r ≤ most ∧ num.toNat < base.toNat ^ r ∧ (r = 1 ∨ base.toNat ^ (r - 1) ≤ num.toNat) := by
  induction room generalizing len d with
  | zero =>
    obtain rfl : len = most := by omega
    exact ⟨hlen, le_refl _, hall, hge⟩
  | succ room ih =>
    have hpow := hd (by omega)
    have hpos : 0 < base.toNat ^ len := Nat.pow_pos (by omega)
    rw [countDigits]
    split
    · rename_i hdiv
      rw [div_ne_zero_iff (by omega), hpow] at hdiv
      apply ih (by omega) (by omega)
      · intro hne
        apply pow_toNat hpow
        calc base.toNat ^ (len + 1) ≤ base.toNat ^ (most - 1) := Nat.pow_le_pow_right (by omega) (by omega)
          _ < 2 ^ 64 := hmost
      · right
        exact hdiv
    · rename_i hdiv
      rw [div_ne_zero_iff (by omega)] at hdiv
      exact ⟨hlen, by omega, by omega, hge⟩

/-- The digits, written from the last one. -/
theorem writeDigits_eq (hb : 1 < base.toNat) {i k : ℕ} (hlt : base.toNat ^ (i + k - 1) < 2 ^ 64)
    (hd : i ≠ 0 → d.toNat = base.toNat ^ k) (rest : List UInt8) :
    writeDigits base num digit i d rest =
      (lastDigits base.toNat i (num.toNat / base.toNat ^ k)).map (fun v => digit (UInt64.ofNat v)) ++ rest := by
  induction i generalizing k d rest with
  | zero => rfl
  | succ i ih =>
    have hpow := hd (by omega)
    have hnext : i ≠ 0 → (d * base).toNat = base.toNat ^ (k + 1) := by
      intro hi
      apply pow_toNat hpow
      calc base.toNat ^ (k + 1) ≤ base.toNat ^ (i + 1 + k - 1) := Nat.pow_le_pow_right (by omega) (by omega)
        _ < 2 ^ 64 := hlt
    have hval : num / d % base = UInt64.ofNat (num.toNat / base.toNat ^ k % base.toNat) := by
      apply UInt64.toNat_inj.1
      have hmod := Nat.mod_lt (num.toNat / base.toNat ^ k) (show 0 < base.toNat by omega)
      rw [UInt64.toNat_mod, UInt64.toNat_div, hpow, UInt64.toNat_ofNat_of_lt' (lt_trans hmod base.toNat_lt_size)]
    have hshift : i + (k + 1) - 1 = i + 1 + k - 1 := by omega
    rw [writeDigits, ih (by rwa [hshift]) hnext, lastDigits, map_append, append_assoc, hval, Nat.div_div_eq_div_mul]
    rfl

theorem mem_lastDigits {b i n v : ℕ} (hb : 0 < b) (hv : v ∈ lastDigits b i n) : v < b := by
  induction i generalizing n with
  | zero => exact absurd hv not_mem_nil
  | succ i ih =>
    rw [lastDigits, mem_append, mem_singleton] at hv
    rcases hv with hv | rfl
    · exact ih hv
    · exact Nat.mod_lt n hb

/-- **A number in a base**: its digits, whatever it is, when `most` digits are enough and `most - 1` of them stay below `2 ^ 64`. -/
theorem formatDigits_spec (hb : 1 < base.toNat) (hpos : 0 < most) (hmost : base.toNat ^ (most - 1) < 2 ^ 64)
    (hall : 2 ^ 64 ≤ base.toNat ^ most)
    (hdigit : ∀ v < base.toNat, digit (UInt64.ofNat v) = (Nat.digitChar v).toNat.toUInt8) :
    formatDigits base most digit num = digits base.toNat num.toNat ∧ (formatDigits base most digit num).length ≤ most := by
  have hnum := num.toNat_lt
  have hfits : num.toNat < base.toNat ^ most := by omega
  have hroom : 1 + (most - 1) = most := by omega
  have hcount := countDigits_spec hb hmost hfits Nat.one_pos hroom (fun _ => (pow_one _).symm) (.inl rfl)
  unfold formatDigits
  generalize countDigits base num (most - 1) base 1 = r at hcount
  obtain ⟨hr, hle, hlt, hge⟩ := hcount
  have hsmall : base.toNat ^ (r + 0 - 1) < 2 ^ 64 := by
    calc base.toNat ^ (r + 0 - 1) ≤ base.toNat ^ (most - 1) := Nat.pow_le_pow_right (by omega) (by omega)
      _ < 2 ^ 64 := hmost
  rw [writeDigits_eq hb hsmall (fun _ => rfl), pow_zero, Nat.div_one, append_nil]
  constructor
  · unfold digits
    rw [← lastDigits_toDigits hb hr hlt hge, map_map]
    apply map_congr_left
    intro v hv
    exact hdigit v (mem_lastDigits (by omega) hv)
  · rw [length_map, length_lastDigits]
    exact hle

theorem FormatUInt64_digits (num : UInt64) : FormatUInt64 num = digits 10 num.toNat ∧ (FormatUInt64 num).length ≤ 20 :=
  formatDigits_spec (by decide) (by decide) (by decide) (by decide) (by decide)

/-- **Unsigned numbers** are written in decimal. -/
theorem FormatUInt64_spec (num : UInt64) : FormatUInt64 num = digits 10 num.toNat := (FormatUInt64_digits num).1

/-- **Hexadecimal numbers** are written with small letters. -/
theorem FormatUInt64Hex_spec (num : UInt64) : FormatUInt64Hex num = digits 16 num.toNat ∧ (FormatUInt64Hex num).length ≤ 16 :=
  formatDigits_spec (by decide) (by decide) (by decide) (by decide) (by decide)

/-- The wrapping product with `-1` is the amount of a negative number, as an unsigned one. -/
theorem neg_toNat {num : Int64} (h : num < 0) : (num * -1).toUInt64.toNat = num.toInt.natAbs := by
  have hneg : num.toBitVec.toInt < 0 := Int64.lt_iff_toInt_lt.1 h
  have hint : num.toInt = num.toBitVec.toInt := rfl
  have hmul : (num * -1).toUInt64.toNat = (-num.toBitVec).toNat := by
    have hone : num.toBitVec * -1 = -num.toBitVec := (BitVec.mul_comm _ _).trans (BitVec.neg_eq_neg_one_mul _).symm
    exact congrArg BitVec.toNat hone
  rw [BitVec.toInt_eq_toNat_cond] at hneg hint
  rw [hmul, BitVec.toNat_neg]
  split at hneg
  · omega
  · rename_i hbig
    omega

theorem toNat_nonneg {num : Int64} (h : ¬num < 0) : num.toUInt64.toNat = num.toInt.natAbs := by
  have hpos : ¬num.toBitVec.toInt < 0 := fun hneg => h (Int64.lt_iff_toInt_lt.2 hneg)
  have hint : num.toInt = num.toBitVec.toInt := rfl
  have hnat : num.toUInt64.toNat = num.toBitVec.toNat := rfl
  rw [BitVec.toInt_eq_toNat_cond] at hpos hint
  rw [hnat, hint]
  split at hpos
  · rename_i hsmall
    rw [if_pos hsmall, Int.natAbs_natCast]
  · omega

/-- **Signed numbers** are written in decimal, the least one too. -/
theorem FormatInt64_spec (num : Int64) : FormatInt64 num = signedDigits num.toInt := by
  have hzero : num < 0 ↔ num.toInt < 0 := Int64.lt_iff_toInt_lt
  unfold FormatInt64 signedDigits
  split
  · rename_i h
    rw [if_pos (hzero.1 h), FormatUInt64_spec, neg_toNat h]
  · rename_i h
    rw [if_neg fun hneg => h (hzero.2 hneg), FormatUInt64_spec, toNat_nonneg h]

end Xenia.Fmt
