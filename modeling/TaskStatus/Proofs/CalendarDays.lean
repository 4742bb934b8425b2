import TaskStatus.Proofs.TimestampRange

/-!
# Counting the days of the calendar

The date of a day is found by arithmetic: the year by an estimate, the month by the lengths of the
months before it. Here it is tied to the calendar itself, in which a date is followed by the next
one (`Date.next`) and days are counted one after the other, forwards and backwards from the first of
January 1970 (`Date.IsDay`). The date that is found for a day is the one that is counted, for every
day (`Date.isDay_iff`).

Two facts carry this. Dates and days correspond to each other (`Date.toDays_ofDays`,
`Date.ofDays_toDays`), and the next date is one day later (`Date.Valid.next`), whether it lies in
the same month, in the next one or in the next year.
-/

namespace TaskStatus

/-! ### Months -/

/-- Months that have passed, one of them more. -/
theorem totalDays_take_succ {lens : List Nat} {k len : Nat} (h : lens[k]? = some len) :
    totalDays (lens.take (k + 1)) = totalDays (lens.take k) + len := by
  induction lens generalizing k with
  | nil => cases h
  | cons l lens ih =>
    cases k with
    | zero =>
      obtain rfl : l = len := Option.some.inj h
      simp [totalDays]
    | succ k =>
      rw [List.getElem?_cons_succ] at h
      rw [List.take_succ_cons, List.take_succ_cons, totalDays, totalDays, ih h, Nat.add_assoc]

/-- A day of a month is found in this month. -/
theorem splitMonths_eq {lens : List Nat} {k len r : Nat} (h : lens[k]? = some len) (hr : r < len) :
    splitMonths lens (totalDays (lens.take k) + r) = (k, r) := by
  induction lens generalizing k with
  | nil => cases h
  | cons l lens ih =>
    cases k with
    | zero =>
      obtain rfl : l = len := Option.some.inj h
      simp [totalDays, splitMonths, hr]
    | succ k =>
      rw [List.getElem?_cons_succ] at h
      have hpast : ¬ l + totalDays (lens.take k) + r < l := by omega
      have hrest : l + totalDays (lens.take k) + r - l = totalDays (lens.take k) + r := by omega
      rw [List.take_succ_cons, totalDays, splitMonths, if_neg hpast, hrest, ih h]

theorem length_monthLengths (y : Int) : (monthLengths y).length = 12 := rfl

/-- A month has a first day and at most 31 days. -/
theorem bounds_of_mem_monthLengths {y : Int} {len : Nat} (h : len ∈ monthLengths y) :
    0 < len ∧ len ≤ 31 := by
  have hfebruary :
      0 < (if isLeapYear y then 29 else 28) ∧ (if isLeapYear y then 29 else 28) ≤ 31 := by
    split <;> decide
  revert len
  simpa [monthLengths] using hfebruary

theorem totalDays_take_le (lens : List Nat) (k : Nat) :
    totalDays (lens.take k) ≤ totalDays lens := by
  induction lens generalizing k with
  | nil => simp [totalDays]
  | cons l lens ih =>
    cases k with
    | zero => simp [totalDays]
    | succ k =>
      rw [List.take_succ_cons, totalDays, totalDays]
      exact Nat.add_le_add_left (ih k) l

namespace Date

/-! ### Dates -/

/-- A date **is valid**: its month is one of the twelve, and its day one of those of this month. -/
def Valid (d : Date) : Prop :=
  1 ≤ d.month ∧ 1 ≤ d.day ∧ ∃ len, (monthLengths d.year)[d.month - 1]? = some len ∧ d.day ≤ len

/-- The date that follows another one. -/
def next (d : Date) : Date :=
  if (monthLengths d.year)[d.month - 1]? ≠ some d.day then ⟨d.year, d.month, d.day + 1⟩
  else if d.month < 12 then ⟨d.year, d.month + 1, 1⟩
  else ⟨d.year + 1, 1, 1⟩

/-- **The days of the calendar**, counted from the first of January 1970, which is day zero. -/
inductive IsDay : Int → Date → Prop where
  | epoch : IsDay 0 ⟨1970, 1, 1⟩
  | next {n : Int} {d : Date} : IsDay n d → IsDay (n + 1) d.next
  | previous {n : Int} {d : Date} : d.Valid → IsDay (n + 1) d.next → IsDay n d

theorem Valid.bounds {d : Date} (h : d.Valid) : d.month ≤ 12 ∧ d.day ≤ 31 := by
  obtain ⟨hmonth, hday, len, hlen, hle⟩ := h
  have hin : d.month - 1 < 12 := (List.getElem?_eq_some_iff.1 hlen).1
  have hlong := (bounds_of_mem_monthLengths (List.mem_of_getElem? hlen)).2
  exact ⟨by omega, Nat.le_trans hle hlong⟩

/-! ### Dates and days correspond -/

/-- What there is of a year before a day is less than a year. -/
theorem dayOfYear_lt (n : Int) :
    (n - daysBeforeYear (yearOfDay n)).toNat < totalDays (monthLengths (yearOfDay n)) := by
  have hlow := daysBeforeYear_yearOfDay_le n
  have hhigh := lt_daysBeforeYear_yearOfDay_succ n
  rw [daysBeforeYear_succ] at hhigh
  omega

theorem valid_ofDays (n : Int) : (ofDays n).Valid := by
  obtain ⟨len, hlen, hlt⟩ := splitMonths_lt (dayOfYear_lt (n + epochDay))
  exact ⟨Nat.le_add_left 1 _, Nat.le_add_left 1 _, len, hlen, hlt⟩

/-- The days up to the date of a day are as many as were counted. -/
theorem toDays_ofDays (n : Int) : (ofDays n).toDays = n := by
  have hlow := daysBeforeYear_yearOfDay_le (n + epochDay)
  have hsplit := totalDays_take_splitMonths (monthLengths (yearOfDay (n + epochDay)))
    (n + epochDay - daysBeforeYear (yearOfDay (n + epochDay))).toNat
  simp only [ofDays, toDays, Nat.add_sub_cancel]
  omega

/-- The days of a year that lie before a valid date of it are less than a year. -/
theorem Valid.totalDays_lt {d : Date} (h : d.Valid) :
    totalDays ((monthLengths d.year).take (d.month - 1)) + (d.day - 1) <
      totalDays (monthLengths d.year) := by
  obtain ⟨hmonth, hday, len, hlen, hle⟩ := h
  have htake := totalDays_take_succ hlen
  have hall := totalDays_take_le (monthLengths d.year) (d.month - 1 + 1)
  omega

/-- **A valid date is found again** by the days up to it. -/
theorem ofDays_toDays {d : Date} (h : d.Valid) : ofDays d.toDays = d := by
  have hlt := h.totalDays_lt
  obtain ⟨hmonth, hday, len, hlen, hle⟩ := h
  have hcount : d.toDays + epochDay = daysBeforeYear d.year +
      (totalDays ((monthLengths d.year).take (d.month - 1)) + (d.day - 1) : Nat) := by
    simp only [toDays]
    omega
  have hyear : yearOfDay (d.toDays + epochDay) = d.year := by
    have hsucc := daysBeforeYear_succ d.year
    have hlow : d.year ≤ yearOfDay (d.toDays + epochDay) := le_yearOfDay_iff.2 (by omega)
    have hhigh : ¬ d.year + 1 ≤ yearOfDay (d.toDays + epochDay) := by
      rw [le_yearOfDay_iff]
      omega
    omega
  have hrest : (d.toDays + epochDay - daysBeforeYear d.year).toNat =
      totalDays ((monthLengths d.year).take (d.month - 1)) + (d.day - 1) := by omega
  have hsplit := splitMonths_eq hlen (r := d.day - 1) (by omega)
  simp only [ofDays, hyear, hrest, hsplit, Nat.sub_add_cancel hmonth, Nat.sub_add_cancel hday]

/-- **One day later**: the date that follows a valid one is valid, and one day after it. -/
theorem Valid.next {d : Date} (h : d.Valid) : d.next.Valid ∧ d.next.toDays = d.toDays + 1 := by
  obtain ⟨hmonth, hday, len, hlen, hle⟩ := h
  rw [Date.next]
  split
  · next hne =>
    -- in the same month
    have hlt : d.day ≠ len := fun heq ↦ hne (heq ▸ hlen)
    refine ⟨⟨hmonth, Nat.le_add_left 1 _, len, hlen, by show d.day + 1 ≤ len; omega⟩, ?_⟩
    simp only [toDays]
    omega
  · next heq =>
    obtain rfl : len = d.day := Option.some.inj (hlen.symm.trans (Classical.not_not.1 heq))
    have htake := totalDays_take_succ hlen
    rw [Nat.sub_add_cancel hmonth] at htake
    split
    · next hlast =>
      -- in the next month
      have hin : d.month < (monthLengths d.year).length := hlast
      refine ⟨⟨Nat.le_add_left 1 _, Nat.le_refl 1, _, List.getElem?_eq_getElem hin,
        (bounds_of_mem_monthLengths (List.getElem_mem hin)).1⟩, ?_⟩
      simp only [toDays, Nat.add_sub_cancel, htake]
      omega
    · next hlast =>
      -- in the next year
      have hin : d.month - 1 < (monthLengths d.year).length := (List.getElem?_eq_some_iff.1 hlen).1
      have hdecember : d.month = 12 := by
        rw [length_monthLengths] at hin
        omega
      have hall :
          totalDays ((monthLengths d.year).take d.month) = totalDays (monthLengths d.year) := by
        rw [hdecember]
        rfl
      refine ⟨⟨Nat.le_refl 1, Nat.le_refl 1, 31, rfl, Nat.le_add_left 1 30⟩, ?_⟩
      have hsucc := daysBeforeYear_succ d.year
      simp only [toDays, Nat.sub_self, List.take_zero, totalDays]
      omega

/-! ### The days of the calendar -/

theorem ofDays_succ (n : Int) : ofDays (n + 1) = (ofDays n).next := by
  obtain ⟨hvalid, hnext⟩ := (valid_ofDays n).next
  rw [toDays_ofDays] at hnext
  rw [← hnext, ofDays_toDays hvalid]

/-- Every day is counted: forwards from the first one, and backwards. -/
theorem isDay_ofDays (n : Int) : IsDay n (ofDays n) := by
  have hforwards (k : Nat) : IsDay k (ofDays k) := by
    induction k with
    | zero => exact .epoch
    | succ k ih =>
      rw [Int.natCast_succ, ofDays_succ]
      exact .next ih
  have hbackwards (k : Nat) : IsDay (-k) (ofDays (-k)) := by
    induction k with
    | zero => exact .epoch
    | succ k ih =>
      refine .previous (valid_ofDays _) ?_
      rw [← ofDays_succ]
      have hsucc : (-(k + 1 : Nat) : Int) + 1 = -k := by omega
      rwa [hsucc]
  rcases Int.le_total 0 n with h | h
  · obtain ⟨k, rfl⟩ := Int.eq_ofNat_of_zero_le h
    exact hforwards k
  · obtain ⟨k, hk⟩ := Int.eq_ofNat_of_zero_le (Int.neg_nonneg_of_nonpos h)
    obtain rfl : n = -k := by omega
    exact hbackwards k

/-- **The date that is found for a day is the one that is counted**, and no other date is. -/
theorem isDay_iff {n : Int} {d : Date} : IsDay n d ↔ d = ofDays n := by
  constructor
  · intro h
    induction h with
    | epoch => rfl
    | next _ ih => rw [ih, ofDays_succ]
    | @previous n d hvalid _ ih =>
      have hnext := hvalid.next.2
      rw [ih, toDays_ofDays] at hnext
      rw [show n = d.toDays by omega, ofDays_toDays hvalid]
  · rintro rfl
    exact isDay_ofDays n

theorem IsDay.valid {n : Int} {d : Date} (h : IsDay n d) : d.Valid := by
  rw [isDay_iff.1 h]
  exact valid_ofDays n

/-- A date is that of one day only. -/
theorem IsDay.unique {m n : Int} {d : Date} (hm : IsDay m d) (hn : IsDay n d) : m = n := by
  rw [← toDays_ofDays m, ← isDay_iff.1 hm, isDay_iff.1 hn, toDays_ofDays]

end Date

end TaskStatus
