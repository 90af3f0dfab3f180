import Mathlib.Data.UInt

/-!
# Deadlines on a wrapping clock

The clock counts modulo `2 ^ 32`. The time since a moment is a difference of
two clock values; a test that adds the span to the moment instead compares two
values that may have wrapped or not, and is right as long as both have or
neither has.
-/

namespace AoaBoard.Library.Clock

def Exceeds (since span now : UInt32) : Prop := span < now - since

/-- The sum `since + span` and the clock have wrapped alike. -/
def Aligned (since span now : UInt32) : Prop := since.toNat + span.toNat < 2 ^ 32 ↔ since ≤ now

instance (since span now : UInt32) : Decidable (Exceeds since span now) :=
  inferInstanceAs (Decidable (_ < _))

instance (since span now : UInt32) : Decidable (Aligned since span now) :=
  inferInstanceAs (Decidable (_ ↔ _))

theorem exceeds_iff_toNat (since span now : UInt32) :
    Exceeds since span now ↔ span.toNat < (2 ^ 32 - since.toNat + now.toNat) % 2 ^ 32 := by
  rw [Exceeds, UInt32.lt_iff_toNat_lt, UInt32.toNat_sub]

/-- The test by addition agrees with the elapsed time exactly where the two are aligned. -/
theorem sum_lt_iff_exceeds_iff (since span now : UInt32) :
    ((since + span < now) ↔ Exceeds since span now) ↔ Aligned since span now := by
  have hsince := since.toNat_lt
  have hspan := span.toNat_lt
  have hnow := now.toNat_lt
  rw [exceeds_iff_toNat, Aligned, UInt32.lt_iff_toNat_lt, UInt32.toNat_add, UInt32.le_iff_toNat_le]
  by_cases hwrap : since.toNat + span.toNat < 2 ^ 32
  · rw [Nat.mod_eq_of_lt hwrap, iff_true_left hwrap]
    omega
  · have hsum : (since.toNat + span.toNat) % 2 ^ 32 = since.toNat + span.toNat - 2 ^ 32 := by
      omega
    rw [hsum, iff_false_left hwrap]
    omega

theorem exceeds_zero (span now : UInt32) : Exceeds 0 span now ↔ span < now := by
  rw [Exceeds, UInt32.sub_zero]

end AoaBoard.Library.Clock
