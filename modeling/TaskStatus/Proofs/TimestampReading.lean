import TaskStatus.Proofs.CalendarDays
import TaskStatus.Proofs.NumeralReading

/-!
# What a timestamp says

A timestamp is read by its form alone: decimal fields for the date and the time of day, and a
fraction of a second with as few digits as are needed of three, six and nine (`TimestampText`). A
text has one reading at most (`TimestampText.unique`), and that of the timestamp of an instant is
the time of the calendar that denotes this instant (`CivilTime.Denotes`), to the nanosecond.

What a time of the calendar denotes is not said by the arithmetic that the timestamp was made with:
days are counted along the calendar (`Date.IsDay`).
-/

namespace TaskStatus

/-! ### Times of the calendar -/

/-- A date and a time of day. -/
structure CivilTime where
  /-- The date. -/
  date : Date
  /-- The hour. -/
  hour : Nat
  /-- The minute of the hour. -/
  minute : Nat
  /-- The second of the minute. -/
  second : Nat
  /-- The nanoseconds after this second. -/
  nanos : Nat
  deriving DecidableEq, Repr

namespace CivilTime

/-- The fields of a time lie in the ranges of the calendar and of the clock. -/
structure Valid (c : CivilTime) : Prop where
  /-- The date is one of the calendar. -/
  date : c.date.Valid
  /-- There are 24 hours. -/
  hour : c.hour < 24
  /-- There are 60 minutes. -/
  minute : c.minute < 60
  /-- There are 60 seconds. -/
  second : c.second < 60
  /-- The nanoseconds make less than a second. -/
  nanos : c.nanos < 1000000000

/-- **The instant that a time denotes** in UTC: all days up to its date have passed, and of its own
day the hours, minutes and seconds. -/
def Denotes (c : CivilTime) (t : Instant) : Prop :=
  ∃ day, Date.IsDay day c.date ∧
    t.seconds = day * 86400 + c.hour * 3600 + c.minute * 60 + c.second ∧ t.nanos = c.nanos

/-- A time denotes one instant only. -/
theorem Denotes.unique {c : CivilTime} {t u : Instant} (ht : c.Denotes t) (hu : c.Denotes u) :
    t = u := by
  obtain ⟨day, hday, hseconds, hnanos⟩ := ht
  obtain ⟨day', hday', hseconds', hnanos'⟩ := hu
  cases t
  cases u
  simp_all [hday.unique hday']

end CivilTime

/-- The time that an instant is in UTC. -/
def Instant.civil (t : Instant) : CivilTime :=
  ⟨t.date, t.secondOfDay / 3600, t.secondOfDay / 60 % 60, t.secondOfDay % 60, t.nanos⟩

theorem Instant.date_eq (t : Instant) : t.date = Date.ofDays (t.seconds / 86400) := by
  rw [date, daySeconds, show ((86400 : Nat) : Int) = 86400 from rfl]

/-- **Every instant is one time of the calendar** in UTC, and no other. -/
theorem Instant.denotes_iff {t : Instant} {c : CivilTime} :
    c.Valid ∧ c.Denotes t ↔ c = t.civil := by
  have hday : t.secondOfDay = t.seconds - t.seconds / 86400 * 86400 := by
    simp only [secondOfDay, daySeconds]
    omega
  constructor
  · rintro ⟨⟨-, hhour, hminute, hsecond, -⟩, day, hdate, hseconds, hnanos⟩
    have hdiv : day = t.seconds / 86400 := by omega
    have hdate' : c.date = t.date := by rw [Date.isDay_iff.1 hdate, hdiv, t.date_eq]
    obtain ⟨date, hour, minute, second, nanos⟩ := c
    simp only [civil, CivilTime.mk.injEq] at *
    refine ⟨hdate', ?_, ?_, ?_, hnanos.symm⟩ <;> omega
  · rintro rfl
    have hdate : Date.IsDay (t.seconds / 86400) t.date := Date.isDay_iff.2 t.date_eq
    refine ⟨⟨hdate.valid, ?_, ?_, ?_, t.nanos_lt⟩, t.seconds / 86400, hdate, ?_, rfl⟩ <;>
      simp only [civil] <;> omega

/-! ### The form of a timestamp -/

/-- A field of a timestamp: so many decimal digits, and the number that they write. -/
def Field (width : Nat) (cs : List Char) (n : Nat) : Prop :=
  cs.length = width ∧ (∀ c ∈ cs, c.isDigit = true) ∧ Nat.ofDigitChars 10 cs 0 = n

/-- A year outside the years 0 to 9999, behind its sign: at least four digits, and no zero in front
of more than four. -/
def LongYear (cs : List Char) (n : Nat) : Prop :=
  ∃ width, Field width cs n ∧ (width = 4 ∨ 4 < width ∧ Nat.pow 10 (width - 1) ≤ n)

/-- A year: four digits, or a sign and at least four if it is none of the years 0 to 9999. -/
inductive YearText : List Char → Int → Prop where
  | plain {cs : List Char} {n : Nat} : Field 4 cs n → YearText cs n
  | negative {cs : List Char} {n : Nat} : LongYear cs n → 0 < n → YearText ('-' :: cs) (-n)
  | positive {cs : List Char} {n : Nat} : LongYear cs n → 9999 < n → YearText ('+' :: cs) n

/-- A fraction of a second, in nanoseconds: none if it is zero, and else behind a point three, six
or nine digits, the fewest of these that are exact. -/
inductive SubsecondText : List Char → Nat → Prop where
  | none : SubsecondText [] 0
  | millis {cs : List Char} {n : Nat} :
      Field 3 cs n → n ≠ 0 → SubsecondText ('.' :: cs) (n * 1000000)
  | micros {cs : List Char} {n : Nat} :
      Field 6 cs n → n % 1000 ≠ 0 → SubsecondText ('.' :: cs) (n * 1000)
  | nanos {cs : List Char} {n : Nat} :
      Field 9 cs n → n % 1000 ≠ 0 → SubsecondText ('.' :: cs) n

/-- **The text of a time** in UTC: the fields of the date, a `T`, those of the time of day, the
fraction of a second, and an offset of zero. -/
inductive TimestampText : List Char → CivilTime → Prop where
  | mk {year month day hour minute second fraction : List Char} {c : CivilTime} :
      YearText year c.date.year → Field 2 month c.date.month → Field 2 day c.date.day →
      Field 2 hour c.hour → Field 2 minute c.minute → Field 2 second c.second →
      SubsecondText fraction c.nanos →
      TimestampText (year ++ '-' :: (month ++ '-' :: (day ++ 'T' :: (hour ++ ':' :: (minute ++
        ':' :: (second ++ (fraction ++ ['+', '0', '0', ':', '0', '0']))))))) c

/-! ### A text has one reading -/

theorem Field.unique {width width' : Nat} {cs : List Char} {m n : Nat} (hm : Field width cs m)
    (hn : Field width' cs n) : m = n :=
  hm.2.2.symm.trans hn.2.2

/-- Fields of one width end in one place. -/
theorem Field.cut {width : Nat} {cs ds rest rest' : List Char} {m n : Nat} (hcs : Field width cs m)
    (hds : Field width ds n) (h : cs ++ rest = ds ++ rest') : m = n ∧ rest = rest' := by
  obtain ⟨rfl, hrest⟩ := List.append_inj h (hcs.1.trans hds.1.symm)
  exact ⟨hcs.unique hds, hrest⟩

/-- Behind the first character of a year all are digits. -/
theorem YearText.exists_cons {cs : List Char} {y : Int} (h : YearText cs y) :
    ∃ c ds, cs = c :: ds ∧ ∀ d ∈ ds, d.isDigit = true := by
  cases h with
  | plain hfield =>
    obtain ⟨hlength, hdigits, -⟩ := hfield
    obtain ⟨c, ds, rfl⟩ := List.exists_cons_of_length_eq_add_one hlength
    exact ⟨c, ds, rfl, fun d hd ↦ hdigits d (List.mem_cons_of_mem c hd)⟩
  | negative hlong =>
    obtain ⟨_, ⟨-, hdigits, -⟩, -⟩ := hlong
    exact ⟨_, _, rfl, hdigits⟩
  | positive hlong =>
    obtain ⟨_, ⟨-, hdigits, -⟩, -⟩ := hlong
    exact ⟨_, _, rfl, hdigits⟩

theorem YearText.unique {cs : List Char} {y z : Int} (hy : YearText cs y) (hz : YearText cs z) :
    y = z := by
  have hsign {c : Char} {ds : List Char} {n : Nat} (h : Field 4 (c :: ds) n) : c.isDigit = true :=
    h.2.1 c List.mem_cons_self
  have hlong {ds : List Char} {m n : Nat} (hm : LongYear ds m) (hn : LongYear ds n) : m = n := by
    obtain ⟨_, hm, -⟩ := hm
    obtain ⟨_, hn, -⟩ := hn
    exact hm.unique hn
  cases hy with
  | plain h =>
    cases hz with
    | plain h' => rw [h.unique h']
    | negative => exact absurd (hsign h) (by decide)
    | positive => exact absurd (hsign h) (by decide)
  | negative h =>
    cases hz with
    | plain h' => exact absurd (hsign h') (by decide)
    | negative h' => rw [hlong h h']
  | positive h =>
    cases hz with
    | plain h' => exact absurd (hsign h') (by decide)
    | positive h' => rw [hlong h h']

/-- A year ends in front of the first character behind it that is no digit. -/
theorem YearText.cut {cs ds rest rest' : List Char} {y z : Int} (hy : YearText cs y)
    (hz : YearText ds z) (h : cs ++ '-' :: rest = ds ++ '-' :: rest') : y = z ∧ rest = rest' := by
  obtain ⟨c, cs, rfl, hcs⟩ := hy.exists_cons
  obtain ⟨d, ds, rfl, hds⟩ := hz.exists_cons
  obtain ⟨rfl, htail⟩ : c = d ∧ cs ++ '-' :: rest = ds ++ '-' :: rest' := List.cons.inj h
  have hstop (rest : List Char) : Json.NoDigit ('-' :: rest) := Json.noDigit_cons.2 (by decide)
  have htake := congrArg (List.takeWhile Char.isDigit) htail
  rw [Json.takeWhile_isDigit_append hcs (hstop _),
    Json.takeWhile_isDigit_append hds (hstop _)] at htake
  subst htake
  exact ⟨hy.unique hz, (List.cons.inj (List.append_cancel_left htail)).2⟩

theorem SubsecondText.unique {cs : List Char} {m n : Nat} (hm : SubsecondText cs m)
    (hn : SubsecondText cs n) : m = n := by
  -- digits of different numbers of them are different
  have hwidth {v w : Nat} {ds : List Char} {k l : Nat} (hk : Field v ds k) (hl : Field w ds l) :
      v = w := hk.1.symm.trans hl.1
  cases hm with
  | none => cases hn with | none => rfl
  | millis h =>
    cases hn with
    | millis h' => rw [h.unique h']
    | micros h' => exact absurd (hwidth h h') (by decide)
    | nanos h' => exact absurd (hwidth h h') (by decide)
  | micros h =>
    cases hn with
    | millis h' => exact absurd (hwidth h h') (by decide)
    | micros h' => rw [h.unique h']
    | nanos h' => exact absurd (hwidth h h') (by decide)
  | nanos h =>
    cases hn with
    | millis h' => exact absurd (hwidth h h') (by decide)
    | micros h' => exact absurd (hwidth h h') (by decide)
    | nanos h' => rw [h.unique h']

/-- **A text is that of one time at most.** -/
theorem TimestampText.unique {cs ds : List Char} {c d : CivilTime} (hc : TimestampText cs c)
    (hd : TimestampText ds d) (h : cs = ds) : c = d := by
  cases hc with
  | mk hyear hmonth hday hhour hminute hsecond hfraction =>
    cases hd with
    | mk hyear' hmonth' hday' hhour' hminute' hsecond' hfraction' =>
      obtain ⟨hy, htail⟩ := hyear.cut hyear' h
      obtain ⟨hm, htail⟩ := hmonth.cut hmonth' htail
      obtain ⟨hd, htail⟩ := hday.cut hday' (List.cons.inj htail).2
      obtain ⟨hh, htail⟩ := hhour.cut hhour' (List.cons.inj htail).2
      obtain ⟨hmin, htail⟩ := hminute.cut hminute' (List.cons.inj htail).2
      obtain ⟨hs, htail⟩ := hsecond.cut hsecond' (List.cons.inj htail).2
      obtain rfl := List.append_cancel_right htail
      have hn := hfraction.unique hfraction'
      obtain ⟨⟨_, _, _⟩, _, _, _, _⟩ := c
      obtain ⟨⟨_, _, _⟩, _, _, _, _⟩ := d
      simp_all

/-! ### Timestamps have the form -/

/-- The digits that a field is padded to. -/
theorem field_paddedDigits (width n : Nat) :
    Field (max width (Nat.toDigits 10 n).length) (paddedDigits width n) n := by
  have hzeros (k : Nat) : Nat.ofDigitChars 10 (List.replicate k '0') 0 = 0 := by
    induction k with
    | zero => rfl
    | succ k ih => exact ih
  refine ⟨List.length_leftpad, fun c hc ↦ ?_, ?_⟩
  · rcases List.mem_append.1 hc with hzero | hdigit
    · rw [List.eq_of_mem_replicate hzero]
      decide
    · exact (Json.digits_toDigits n).2 c hdigit
  · rw [paddedDigits, List.leftpad, Nat.ofDigitChars_append, hzeros,
      Nat.ofDigitChars_toDigits (by decide) (by decide)]

/-- A number that fits into a field fills it. -/
theorem field_paddedDigits_of_lt {width n : Nat} (hwidth : 0 < width) (h : n < Nat.pow 10 width) :
    Field width (paddedDigits width n) n := by
  have hlength : (Nat.toDigits 10 n).length ≤ width :=
    (Nat.length_toDigits_le_iff (by decide) hwidth).2 h
  have hfield := field_paddedDigits width n
  rwa [Nat.max_eq_left hlength] at hfield

theorem longYear_paddedDigits (n : Nat) : LongYear (paddedDigits 4 n) n := by
  refine ⟨_, field_paddedDigits 4 n, ?_⟩
  by_cases hfits : (Nat.toDigits 10 n).length ≤ 4
  · exact .inl (Nat.max_eq_left hfits)
  · refine .inr ⟨by omega, Nat.not_lt.1 fun hlt ↦ ?_⟩
    have hshort := (Nat.length_toDigits_le_iff (b := 10) (by decide) (by omega)).2 hlt
    omega

theorem yearText_yearChars (y : Int) : YearText (yearChars y) y := by
  rw [yearChars]
  split
  · next hneg =>
    have htext := YearText.negative (longYear_paddedDigits y.natAbs) (by omega)
    rwa [show -(y.natAbs : Int) = y by omega] at htext
  · split
    · next hlong =>
      have htext := YearText.positive (longYear_paddedDigits y.natAbs) (by omega)
      rwa [show (y.natAbs : Int) = y by omega] at htext
    · have htext := YearText.plain
        (field_paddedDigits_of_lt (by decide) (by omega : y.natAbs < 10000))
      rwa [show (y.natAbs : Int) = y by omega] at htext

theorem subsecondText_fractionChars {nanos : Nat} (h : nanos < 1000000000) :
    SubsecondText (fractionChars nanos) nanos := by
  rw [fractionChars]
  split
  · next hzero =>
    rw [hzero]
    exact .none
  · split
    · next hne hexact =>
      have htext := SubsecondText.millis
        (field_paddedDigits_of_lt (by decide) (by omega : nanos / 1000000 < 1000))
        (by omega)
      rwa [show nanos / 1000000 * 1000000 = nanos by omega] at htext
    · split
      · next hne hinexact hexact =>
        have htext := SubsecondText.micros
          (field_paddedDigits_of_lt (by decide) (by omega : nanos / 1000 < 1000000))
          (by omega)
        rwa [show nanos / 1000 * 1000 = nanos by omega] at htext
      · next hinexact => exact .nanos (field_paddedDigits_of_lt (by decide) h) hinexact

namespace Instant

/-- **A timestamp has the form of the time** that its instant is. -/
theorem timestampText_timestampChars (t : Instant) : TimestampText t.timestampChars t.civil := by
  obtain ⟨hvalid, -⟩ := denotes_iff.2 (rfl : t.civil = t.civil)
  obtain ⟨hmonth, hday⟩ := hvalid.date.bounds
  have hfield {n : Nat} (hn : n < 100) : Field 2 (paddedDigits 2 n) n :=
    field_paddedDigits_of_lt (by decide) hn
  have htext : TimestampText _ t.civil :=
    .mk (yearText_yearChars t.date.year) (hfield (Nat.lt_of_le_of_lt hmonth (by decide)))
      (hfield (Nat.lt_of_le_of_lt hday (by decide))) (hfield (Nat.lt_trans hvalid.hour (by decide)))
      (hfield (Nat.lt_trans hvalid.minute (by decide)))
      (hfield (Nat.lt_trans hvalid.second (by decide)))
      (subsecondText_fractionChars t.nanos_lt)
  simpa only [timestampChars, civil, List.append_assoc, List.cons_append] using htext

/-- **Timestamps are exact**, for every instant. It is one time of the calendar, and

* it has no timestamp exactly if the year of this time lies outside `-262143` to `262142`;
* its timestamp has the form of this time, and of no other;
* instants with one timestamp are the same. -/
theorem timestamp_exact (t : Instant) :
    ∃ c : CivilTime, (∀ d : CivilTime, d.Valid ∧ d.Denotes t ↔ d = c) ∧
      (t.rfc3339? = none ↔ c.date.year < -262143 ∨ 262142 < c.date.year) ∧
      (∀ text, t.rfc3339? = some text → ∀ d, TimestampText text.toList d ↔ d = c) ∧
      ∀ u : Instant, t.rfc3339? ≠ none → u.rfc3339? = t.rfc3339? → u = t := by
  have hform {t : Instant} {text : String} (h : t.rfc3339? = some text) :
      TimestampText text.toList t.civil := by
    rw [rfc3339?] at h
    split at h
    · rw [← Option.some.inj h, String.toList_ofList]
      exact t.timestampText_timestampChars
    · cases h
  refine ⟨t.civil, fun d ↦ denotes_iff, ?_, fun text htext d ↦ ?_, fun u hne hu ↦ ?_⟩
  · show t.rfc3339? = none ↔ t.date.year < firstYear ∨ lastYear < t.date.year
    rw [rfc3339?]
    split
    · simp only [reduceCtorEq, false_iff]
      omega
    · simp only [true_iff]
      omega
  · constructor
    · intro hd
      exact hd.unique (hform htext) rfl
    · rintro rfl
      exact hform htext
  · obtain ⟨text, htext⟩ := Option.ne_none_iff_exists'.1 hne
    have hcivil : u.civil = t.civil := (hform (hu.trans htext)).unique (hform htext) rfl
    have hdenotes (v : Instant) : v.civil.Denotes v := (denotes_iff.2 rfl).2
    exact (hcivil ▸ hdenotes u).unique (hdenotes t)

/-- The last nanosecond before 1970, and a leap day before year zero. -/
example : (Instant.mk (-1) 999999999).rfc3339? = some "1969-12-31T23:59:59.999999999+00:00" ∧
    (Instant.mk (-62288352000) 5000000).rfc3339? = some "-0004-02-29T00:00:00.005+00:00" := by
  decide

end Instant

end TaskStatus
