import CodeReview.Proofs.Decimal.Shortest
import CodeReview.Report.Measure

/-!
Metrics stay within bounds that do not depend on the code.
-/

namespace CodeReview.Metrics

open Decimal (Small)

/-- Counts have 64 bits, so the estimate of the work is far from the largest floats. -/
theorem small_debt (lines paths : UInt64) : Small 79 (debt lines paths) := by
  have hten : Small 4 10.0 := by decide +kernel
  have hhalf : Small 0 0.5 := by decide +kernel
  have hhundredth : Small 0 0.01 := by decide +kernel
  have hpaths : Small 68 ((paths.toFloat - 10.0) * 0.5) :=
    (Decimal.small_toFloat.sub (hten.mono (by decide)) (by decide)).mul hhalf (by decide)
  have hsize : Small 68 ((lines.toNat - 50).toUInt64.toFloat * 0.01) :=
    (Decimal.small_toFloat.mul hhundredth (by decide)).mono (by decide)
  have htotal := hpaths.add hsize (by decide)
  have hhours : Small 70 (if 0.0 < (paths.toFloat - 10.0) * 0.5 +
      (lines.toNat - 50).toUInt64.toFloat * 0.01 then (paths.toFloat - 10.0) * 0.5 +
      (lines.toNat - 50).toUInt64.toFloat * 0.01 else 0.0) := by
    split
    · exact htotal
    · decide +kernel
  have htenths := Decimal.roundToNat_lt .up (hhours.mul hten (by decide))
  exact (Decimal.small_ofNat htenths (by decide) (by decide)).div (by decide +kernel)
    (by decide +kernel) (by decide)

end CodeReview.Metrics
