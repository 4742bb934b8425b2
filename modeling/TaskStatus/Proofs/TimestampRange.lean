import TaskStatus.Instant.Rfc3339

/-!
# Which instants have a timestamp

A timestamp is written for the years `-262143` to `262142` of the calendar. Here this is said of the
seconds of an instant, without the calendar. The step between the two is that finding the year of a
day is adjoint to counting the days before a year (`le_yearOfDay_iff`): both are monotone, and a day
lies in its year.
-/

namespace TaskStatus

theorem daysBeforeYear_mono {y z : Int} (h : y ≤ z) : daysBeforeYear y ≤ daysBeforeYear z := by
  unfold daysBeforeYear
  omega

/-- **Days and years**: a year has begun on a day exactly if the days before it have passed. -/
theorem le_yearOfDay_iff {y n : Int} : y ≤ yearOfDay n ↔ daysBeforeYear y ≤ n := by
  constructor
  · intro h
    exact Int.le_trans (daysBeforeYear_mono h) (daysBeforeYear_yearOfDay_le n)
  · intro h
    refine Int.not_lt.1 fun hlt ↦ ?_
    have hsucc : daysBeforeYear (yearOfDay n + 1) ≤ daysBeforeYear y :=
      daysBeforeYear_mono (by omega)
    have hday := lt_daysBeforeYear_yearOfDay_succ n
    omega

namespace Instant

/-- The first second that has a timestamp, the first one of the year `-262143`. -/
def firstSecond : Int := -8334601228800

/-- The last second that has a timestamp, the last one of the year `262142`. -/
def lastSecond : Int := 8210266876799

/-- An instant is **out of range** if no timestamp is written for it. -/
def OutOfRange (t : Instant) : Prop := t.seconds < firstSecond ∨ lastSecond < t.seconds

instance (t : Instant) : Decidable t.OutOfRange := by unfold OutOfRange; infer_instance

theorem firstYear_le_year_iff (t : Instant) : firstYear ≤ t.date.year ↔ firstSecond ≤ t.seconds := by
  have hdays : daysBeforeYear firstYear = -95746130 := by decide
  show firstYear ≤ yearOfDay (t.seconds / daySeconds + epochDay) ↔ _
  rw [le_yearOfDay_iff, hdays]
  simp only [firstSecond, daySeconds, epochDay]
  omega

theorem year_le_lastYear_iff (t : Instant) : t.date.year ≤ lastYear ↔ t.seconds ≤ lastSecond := by
  -- the last year is not over as long as the next one has not begun
  have hdays : daysBeforeYear (lastYear + 1) = 95745399 := by decide
  have hyear : lastYear + 1 ≤ t.date.year ↔
      95745399 ≤ t.seconds / daySeconds + epochDay := by
    rw [← hdays]
    exact le_yearOfDay_iff
  simp only [lastSecond, daySeconds, epochDay] at hyear ⊢
  rw [← Int.not_lt, ← Int.not_lt]
  refine not_congr ?_
  show lastYear + 1 ≤ t.date.year ↔ _
  rw [hyear]
  omega

/-- **The range of timestamps** in seconds. -/
theorem rfc3339?_eq_none_iff {t : Instant} : t.rfc3339? = none ↔ t.OutOfRange := by
  have hfirst := firstYear_le_year_iff t
  have hlast := year_le_lastYear_iff t
  rw [rfc3339?, OutOfRange]
  split
  · simp only [reduceCtorEq, false_iff]
    omega
  · simp only [true_iff]
    omega

end Instant

end TaskStatus
