import QwidNode.Lib.Word

/-!
# Numbers of two words

Products and sums of 64-bit words kept in an upper and a lower word, and the division of
such a number by one word. The division is partial: it has a result exactly when the
quotient fits in one word.
-/
namespace QwidNode.Lib.Wide

def value (hi lo : UInt64) : Nat := hi.toNat * 2 ^ 64 + lo.toNat

def mul64 (x y : UInt64) : UInt64 × UInt64 :=
  (.ofNat (x.toNat * y.toNat / 2 ^ 64), .ofNat (x.toNat * y.toNat % 2 ^ 64))

def add64 (x y carry : UInt64) : UInt64 × UInt64 :=
  (x + y + carry, .ofNat ((x.toNat + y.toNat + carry.toNat) / 2 ^ 64))

/-- Quotient and remainder; undefined for a zero divisor and for a quotient overflow. -/
def div64 (hi lo y : UInt64) : Option (UInt64 × UInt64) :=
  if y ≤ hi then none
  else some (.ofNat (value hi lo / y.toNat), .ofNat (value hi lo % y.toNat))

theorem toNat_ofNat_of_lt {n : Nat} (small : n < 2 ^ 64) : (UInt64.ofNat n).toNat = n := by
  rw [UInt64.toNat_ofNat']
  exact Nat.mod_eq_of_lt small

theorem value_mul64 (x y : UInt64) :
    value (mul64 x y).1 (mul64 x y).2 = x.toNat * y.toNat := by
  have bound : x.toNat * y.toNat < 2 ^ 64 * 2 ^ 64 :=
    Nat.mul_lt_mul'' x.toNat_lt y.toNat_lt
  have upper : (mul64 x y).1.toNat = x.toNat * y.toNat / 2 ^ 64 :=
    toNat_ofNat_of_lt (Nat.div_lt_of_lt_mul bound)
  have lower : (mul64 x y).2.toNat = x.toNat * y.toNat % 2 ^ 64 :=
    toNat_ofNat_of_lt (Nat.mod_lt _ (by decide))
  rw [value, upper, lower]
  exact Nat.div_add_mod' _ _

theorem value_add64 (hi lo y : UInt64) (fits : value hi lo + y.toNat < 2 ^ 128) :
    value (hi + (add64 lo y 0).2) (add64 lo y 0).1 = value hi lo + y.toNat := by
  have low := lo.toNat_lt
  have added := y.toNat_lt
  have zero : (0 : UInt64).toNat = 0 := rfl
  have carry : (add64 lo y 0).2.toNat = (lo.toNat + y.toNat) / 2 ^ 64 := by
    rw [add64, zero, Nat.add_zero]
    exact toNat_ofNat_of_lt (by omega)
  have sum : (add64 lo y 0).1.toNat = (lo.toNat + y.toNat) % 2 ^ 64 := by
    rw [add64, UInt64.toNat_add, UInt64.toNat_add, zero, Nat.add_zero, Nat.mod_mod]
  have upper : (hi + (add64 lo y 0).2).toNat = hi.toNat + (lo.toNat + y.toNat) / 2 ^ 64 := by
    rw [UInt64.toNat_add, carry]
    refine Nat.mod_eq_of_lt ?_
    rw [value] at fits
    omega
  rw [value, value, upper, sum]
  omega

theorem div64_of_lt {hi lo y : UInt64} (fits : value hi lo < y.toNat * 2 ^ 64) :
    div64 hi lo y =
      some (.ofNat (value hi lo / y.toNat), .ofNat (value hi lo % y.toNat)) := by
  rw [div64, if_neg]
  intro overflow
  have large : y.toNat * 2 ^ 64 ≤ hi.toNat * 2 ^ 64 :=
    Nat.mul_le_mul_right _ (UInt64.le_iff_toNat_le.mp overflow)
  rw [value] at fits
  omega

end QwidNode.Lib.Wide
