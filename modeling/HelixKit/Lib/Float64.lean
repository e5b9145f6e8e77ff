/-
Purpose: The double that is nearest to a number, the shortest decimal that is read as a double, and
  the double that an integer is converted to.
Trusted boundary: none
-/
import Mathlib.Algebra.Order.Floor.Ring
import Mathlib.Data.Rat.Floor

namespace HelixKit.Float64

/-- To the nearest integer, and between two of them to the even one. -/
def roundHalfEven (q : ℚ) : ℤ :=
  let low := q.floor
  let rest := q - low
  if rest < 1 / 2 then low
  else if 1 / 2 < rest then low + 1
  else if low % 2 = 0 then low
  else low + 1

/-- A power of an integer, with any exponent. -/
def power (base : ℕ) (exponent : ℤ) : ℚ :=
  if 0 ≤ exponent then (base ^ exponent.toNat : ℕ) else 1 / (base ^ (-exponent).toNat : ℕ)

/-- The exponent of the greatest power of two that a positive number reaches. -/
def log2 (q : ℚ) : ℤ :=
  let guess : ℤ := q.num.toNat.log2 - q.den.log2
  if q < power 2 guess then guess - 1 else guess

/-- The exponent of the greatest power of ten that a positive number reaches. -/
def log10 (q : ℚ) : ℤ :=
  let guess : ℤ := (Nat.toDigits 10 q.num.toNat).length - (Nat.toDigits 10 q.den).length
  if q < power 10 guess then guess - 1 else guess

/-- The multiple of this power that is nearest to the number. -/
def roundTo (base : ℕ) (exponent : ℤ) (q : ℚ) : ℚ :=
  roundHalfEven (q / power base exponent) * power base exponent

/-- The double that is nearest to the number; none, where that is out of range. -/
def parseFloat (q : ℚ) : Option ℚ :=
  if q = 0 then some 0
  else
    let size := roundTo 2 (max (log2 |q| - 52) (-1074)) |q|
    if power 2 1024 ≤ size then none
    else some (if q < 0 then -size else size)

/-- The decimal with the fewest digits that is read as the double. -/
def shortest (double : ℚ) : ℚ :=
  if double = 0 then 0
  else
    let decimals := (List.range 17).map fun digits => roundTo 10 (log10 |double| - digits) |double|
    match decimals.find? fun decimal => parseFloat decimal = some |double| with
    | none => double
    | some decimal => if double < 0 then -decimal else decimal

/-! ### Integers -/

/-- The natural number that is nearest, of those with 53 binary digits and then zeros; between two
of them, the even one. -/
def nearest (n : ℕ) : ℕ :=
  let unit := 2 ^ (n.log2 - 52)
  let low := n / unit
  let rest := n % unit
  if 2 * rest < unit ∨ 2 * rest = unit ∧ low % 2 = 0 then low * unit else (low + 1) * unit

/-- The double that an integer of 64 bits is converted to. -/
def ofInt (i : ℤ) : ℤ :=
  if i < 0 then -(nearest i.natAbs : ℤ) else nearest i.natAbs

theorem div_unit_lt (n : ℕ) : n / 2 ^ (n.log2 - 52) < 2 ^ 53 := by
  rw [Nat.div_lt_iff_lt_mul (Nat.two_pow_pos _), ← Nat.pow_add]
  exact Nat.lt_of_lt_of_le Nat.lt_log2_self (Nat.pow_le_pow_right (by decide) (by omega))

theorem le_nearest (n : ℕ) : n / 2 ^ (n.log2 - 52) * 2 ^ (n.log2 - 52) ≤ nearest n := by
  unfold nearest
  dsimp only
  split
  · exact Nat.le_refl _
  · exact Nat.mul_le_mul_right _ (Nat.le_succ _)

theorem nearest_le (n : ℕ) : nearest n ≤ (n / 2 ^ (n.log2 - 52) + 1) * 2 ^ (n.log2 - 52) := by
  unfold nearest
  dsimp only
  split
  · exact Nat.mul_le_mul_right _ (Nat.le_succ _)
  · exact Nat.le_refl _

/-- Up to 53 binary digits, nothing is rounded. -/
theorem nearest_eq {n : ℕ} (small : n < 2 ^ 53) : nearest n = n := by
  have fits : n.log2 - 52 = 0 := by
    rcases Nat.eq_zero_or_pos n with rfl | positive
    · decide
    · have := (Nat.log2_lt (by omega)).2 small
      omega
  simp [nearest, fits, Nat.mod_one]

/-- The next power of two is not passed. -/
theorem nearest_le_pow {n : ℕ} : nearest n ≤ 2 ^ (n.log2 + 1) := by
  by_cases small : n < 2 ^ 53
  · rw [nearest_eq small]
    exact Nat.le_of_lt Nat.lt_log2_self
  · have long : 53 ≤ n.log2 := (Nat.le_log2 (by omega)).2 (by omega)
    calc nearest n ≤ (n / 2 ^ (n.log2 - 52) + 1) * 2 ^ (n.log2 - 52) := nearest_le n
      _ ≤ 2 ^ 53 * 2 ^ (n.log2 - 52) := Nat.mul_le_mul_right _ (div_unit_lt n)
      _ = 2 ^ (n.log2 + 1) := by rw [← Nat.pow_add]; congr 1; omega

theorem pow_le_nearest {n : ℕ} (positive : n ≠ 0) : 2 ^ n.log2 ≤ nearest n := by
  by_cases small : n < 2 ^ 53
  · rw [nearest_eq small]
    exact Nat.log2_self_le positive
  · have long : 53 ≤ n.log2 := (Nat.le_log2 positive).2 (by omega)
    have split : 2 ^ n.log2 = 2 ^ 52 * 2 ^ (n.log2 - 52) := by rw [← Nat.pow_add]; congr 1; omega
    have enough : 2 ^ 52 ≤ n / 2 ^ (n.log2 - 52) := by
      rw [Nat.le_div_iff_mul_le (Nat.two_pow_pos _), ← split]
      exact Nat.log2_self_le positive
    rw [split]
    exact Nat.le_trans (Nat.mul_le_mul_right _ enough) (le_nearest n)

theorem nearest_mono {n m : ℕ} (le : n ≤ m) : nearest n ≤ nearest m := by
  rcases Nat.eq_zero_or_pos n with rfl | positive
  · rw [nearest_eq (by decide)]
    exact Nat.zero_le _
  have logs : n.log2 ≤ m.log2 :=
    (Nat.le_log2 (by omega)).2 (Nat.le_trans (Nat.log2_self_le (by omega)) le)
  rcases Nat.lt_or_eq_of_le logs with shorter | same
  · calc nearest n ≤ 2 ^ (n.log2 + 1) := nearest_le_pow
      _ ≤ 2 ^ m.log2 := Nat.pow_le_pow_right (by decide) shorter
      _ ≤ nearest m := pow_le_nearest (by omega)
  · -- both are rounded to multiples of one power
    have lows : n / 2 ^ (m.log2 - 52) ≤ m / 2 ^ (m.log2 - 52) := Nat.div_le_div_right le
    rcases Nat.lt_or_eq_of_le lows with lower | equal
    · have upper := nearest_le n
      rw [same] at upper
      exact Nat.le_trans upper (Nat.le_trans (Nat.mul_le_mul_right _ lower) (le_nearest m))
    · have rests : n % 2 ^ (m.log2 - 52) ≤ m % 2 ^ (m.log2 - 52) := by
        have whole := Nat.div_add_mod n (2 ^ (m.log2 - 52))
        have whole' := Nat.div_add_mod m (2 ^ (m.log2 - 52))
        rw [equal] at whole
        omega
      unfold nearest
      dsimp only
      rw [same, equal]
      split
      · split
        · exact Nat.le_refl _
        · exact Nat.mul_le_mul_right _ (Nat.le_succ _)
      · rw [if_neg (by omega)]

theorem ofInt_mono {i j : ℤ} (le : i ≤ j) : ofInt i ≤ ofInt j := by
  unfold ofInt
  by_cases neg : j < 0
  · rw [if_pos (by omega), if_pos neg]
    have := nearest_mono (n := j.natAbs) (m := i.natAbs) (by omega)
    omega
  rw [if_neg neg]
  split
  · omega
  · exact Int.ofNat_le.2 (nearest_mono (by omega))

end HelixKit.Float64
