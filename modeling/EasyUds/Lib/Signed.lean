import Mathlib.Data.UInt

/-! # Signed arithmetic with a visible overflow

Every operation of a 64-bit signed integer gives the exact value, or `none` where the exact value does
not fit and the program has no meaning.
-/

namespace EasyUds.Lib.Signed

def checked (value : Int) : Option Int64 :=
  if -2 ^ 63 ≤ value ∧ value < 2 ^ 63 then some (.ofInt value) else none

def add (a b : Int64) : Option Int64 := checked (a.toInt + b.toInt)
def sub (a b : Int64) : Option Int64 := checked (a.toInt - b.toInt)
def mul (a b : Int64) : Option Int64 := checked (a.toInt * b.toInt)

def div (a b : Int64) : Option Int64 := if b = 0 then none else checked (a.toInt.tdiv b.toInt)

theorem checked_eq_some {value : Int} {result : Int64} : checked value = some result ↔ result.toInt = value := by
  unfold checked
  constructor
  · intro hSome
    split at hSome
    · rename_i hFits
      cases hSome
      exact Int64.toInt_ofInt_of_le hFits.1 hFits.2
    · cases hSome
  · rintro rfl
    rw [if_pos ⟨Int64.le_toInt result, Int64.toInt_lt result⟩, Int64.ofInt_toInt]

theorem exists_toInt (value : Int) (hLow : -2 ^ 63 ≤ value) (hHigh : value < 2 ^ 63) :
    ∃ result : Int64, result.toInt = value :=
  ⟨.ofInt value, Int64.toInt_ofInt_of_le hLow hHigh⟩

theorem toInt_min (a b : Int64) : (min a b).toInt = min a.toInt b.toInt := by
  change (if a ≤ b then a else b).toInt = _
  split
  all_goals
    rename_i hLe
    rw [Int64.le_iff_toInt_le] at hLe
    omega

variable {a b result : Int64}

theorem add_eq_some : add a b = some result ↔ result.toInt = a.toInt + b.toInt := checked_eq_some

theorem sub_eq_some : sub a b = some result ↔ result.toInt = a.toInt - b.toInt := checked_eq_some

theorem mul_eq_some : mul a b = some result ↔ result.toInt = a.toInt * b.toInt := checked_eq_some

theorem div_eq_some (hb : b ≠ 0) : div a b = some result ↔ result.toInt = a.toInt.tdiv b.toInt := by
  rw [div, if_neg hb]
  exact checked_eq_some

/-! Where nothing overflows, the operations are those that wrap around. -/

theorem eq_of_bmod {value : Int} {wrapped : Int64} (hWrapped : wrapped.toInt = value.bmod (2 ^ 64))
    (hResult : result.toInt = value) : wrapped = result := by
  apply Int64.toInt_inj.mp
  rw [hWrapped, ← hResult]
  exact Int64.toInt_bmod result

theorem add_wraps (h : add a b = some result) : a + b = result := eq_of_bmod (Int64.toInt_add a b) (add_eq_some.mp h)

theorem sub_wraps (h : sub a b = some result) : a - b = result := eq_of_bmod (Int64.toInt_sub a b) (sub_eq_some.mp h)

theorem mul_wraps (h : mul a b = some result) : a * b = result := eq_of_bmod (Int64.toInt_mul a b) (mul_eq_some.mp h)

theorem div_wraps (hb : b ≠ 0) (h : div a b = some result) : a / b = result :=
  eq_of_bmod (Int64.toInt_div a b) ((div_eq_some hb).mp h)

end EasyUds.Lib.Signed
