import TaskStatus.Json.Numeral
import TaskStatus.Proofs.Grammar

/-!
# How numbers are read

The readers of a numeral call each other along its parts: sign, integer part, fraction, exponent.
Each of them is *local* (`Local`): what it succeeds on begins with a text of its form, and that
text alone decides on the number, whatever follows that does not continue a numeral. So the digits
of a numeral, which are scanned as far as they go, never reach into the text behind it.

The main statements are `local_readNumber`, which says this of whole numerals, and
`reads_integerChars`: the decimal digits of an integer that fits into 64 bits are read as
this integer.
-/

namespace TaskStatus.Json

/-- What does not continue a numeral: the end of the text, or a character that stands in none of its
parts. -/
def Stops (cs : List Char) : Prop :=
  ∀ c ∈ cs.head?, c.isDigit = false ∧ c ≠ '.' ∧ c ≠ 'e' ∧ c ≠ 'E'

@[simp] theorem stops_nil : Stops [] := fun _ h ↦ absurd h (Option.not_mem_none _)

theorem stops_cons {c : Char} {cs : List Char} :
    Stops (c :: cs) ↔ c.isDigit = false ∧ c ≠ '.' ∧ c ≠ 'e' ∧ c ≠ 'E' := by
  simp [Stops]

/-- A text is read as a number whatever follows that does not continue a numeral. -/
def Reads (reader : List Char → Reading Number) (cs : List Char) (n : Number) : Prop :=
  ∀ rest, Stops rest → reader (cs ++ rest) = .ok (n, rest)

/-- **A local reader**: what it succeeds on begins with a text of some form, and this text is read
as the same number whatever follows. -/
def Local (reader : List Char → Reading Number) (form : List Char → Prop) : Prop :=
  ∀ cs n left, reader cs = .ok (n, left) → ∃ t, cs = t ++ left ∧ form t ∧ Reads reader t n

/-! ### Runs of digits -/

/-- The text does not begin with a digit. -/
def NoDigit (cs : List Char) : Prop := ∀ c ∈ cs.head?, c.isDigit = false

theorem noDigit_cons {c : Char} {cs : List Char} : NoDigit (c :: cs) ↔ c.isDigit = false := by
  simp [NoDigit]

theorem Stops.noDigit {cs : List Char} (h : Stops cs) : NoDigit cs := fun c hc ↦ (h c hc).1

theorem takeWhile_isDigit_append {ds cs : List Char} (hds : ∀ c ∈ ds, c.isDigit = true)
    (hcs : NoDigit cs) : (ds ++ cs).takeWhile Char.isDigit = ds := by
  rw [List.takeWhile_append_of_pos hds]
  cases cs with
  | nil => simp
  | cons c cs => rw [List.takeWhile_cons_of_neg (by simp [noDigit_cons.1 hcs]), List.append_nil]

theorem dropWhile_isDigit_append {ds cs : List Char} (hds : ∀ c ∈ ds, c.isDigit = true)
    (hcs : NoDigit cs) : (ds ++ cs).dropWhile Char.isDigit = cs := by
  rw [List.dropWhile_append_of_pos hds]
  cases cs with
  | nil => rfl
  | cons c cs => rw [List.dropWhile_cons_of_neg (by simp [noDigit_cons.1 hcs])]

theorem noDigit_dropWhile (cs : List Char) : NoDigit (cs.dropWhile Char.isDigit) := by
  induction cs with
  | nil => exact fun _ h ↦ absurd h (Option.not_mem_none _)
  | cons c cs ih =>
    rw [List.dropWhile_cons]
    split
    · exact ih
    · next h => exact noDigit_cons.2 (by simpa using h)

/-- Every text is a run of digits and something that does not begin with a digit. -/
theorem exists_digits_append (cs : List Char) :
    ∃ ds rest, cs = ds ++ rest ∧ (∀ c ∈ ds, c.isDigit = true) ∧ NoDigit rest :=
  ⟨_, _, List.takeWhile_append_dropWhile.symm,
    fun c hc ↦ List.all_eq_true.1 List.all_takeWhile c hc, noDigit_dropWhile cs⟩

/-- Digits have a first one. -/
theorem Digits.exists_cons {cs : List Char} (h : Digits cs) :
    ∃ c ds, cs = c :: ds ∧ c.isDigit = true := by
  cases cs with
  | nil => exact absurd rfl h.1
  | cons c ds => exact ⟨c, ds, rfl, h.2 c List.mem_cons_self⟩

/-! ### Exponents -/

variable {negative : Bool} {significand : Nat} {exponent : Int}

/-- Scaling takes nothing from the text. -/
theorem local_scaled : Local (scaled negative significand exponent) (· = []) := by
  intro cs n left h
  by_cases he : 0 ≤ exponent
  · rcases hs : scaleUp? (Float.ofNat significand) exponent.toNat with - | g
    · simp [scaled, he, hs, failAt] at h
    · simp only [scaled, he, hs, if_true] at h
      obtain ⟨rfl, rfl⟩ := Reading.ok_inj h
      refine ⟨[], rfl, rfl, fun rest _ ↦ ?_⟩
      simp only [scaled, he, hs, if_true, List.nil_append]
  · simp only [scaled, he, if_false] at h
    obtain ⟨rfl, rfl⟩ := Reading.ok_inj h
    refine ⟨[], rfl, rfl, fun rest _ ↦ ?_⟩
    simp only [scaled, he, if_false, List.nil_append]

theorem readExponentDigits_append {down : Bool} {ds cs : List Char} (hds : Digits ds)
    (hcs : NoDigit cs) :
    readExponentDigits negative significand exponent down (ds ++ cs) =
      if (absorb maxExponent 0 ds).2 = ds.length then
        scaled negative significand
          (if down then exponent - (absorb maxExponent 0 ds).1
            else exponent + (absorb maxExponent 0 ds).1) cs
      else if significand ≠ 0 ∧ ¬ down then
        failAt .numberOutOfRange (ds.drop ((absorb maxExponent 0 ds).2 + 1) ++ cs)
      else .ok (signed negative 0, cs) := by
  have htake := takeWhile_isDigit_append hds.2 hcs
  have hdrop := dropWhile_isDigit_append hds.2 hcs
  obtain ⟨d, ds, rfl, hd⟩ := hds.exists_cons
  rw [List.cons_append] at htake hdrop ⊢
  rw [readExponentDigits, if_neg (by simp [hd])]
  simp only [htake, hdrop]

/-- The digits of an exponent. -/
theorem local_readExponentDigits {down : Bool} :
    Local (readExponentDigits negative significand exponent down) Digits := by
  intro cs n left h
  obtain ⟨ds, rest, rfl, hall, hrest⟩ := exists_digits_append cs
  have hds : Digits ds := by
    refine ⟨?_, hall⟩
    rintro rfl
    rcases rest with - | ⟨c, cs⟩
    · simp [readExponentDigits, failAt] at h
    · simp [readExponentDigits, noDigit_cons.1 hrest, failPast] at h
  rw [readExponentDigits_append hds hrest] at h
  split at h
  · next htaken =>
    obtain ⟨t, rfl, rfl, hreads⟩ := local_scaled _ _ _ h
    refine ⟨ds, rfl, hds, fun rest hstops ↦ ?_⟩
    rw [readExponentDigits_append hds hstops.noDigit, if_pos htaken]
    exact hreads rest hstops
  · next htaken =>
    split at h
    · simp [failAt] at h
    · next hvanishes =>
      obtain ⟨rfl, rfl⟩ := Reading.ok_inj h
      refine ⟨ds, rfl, hds, fun rest hstops ↦ ?_⟩
      rw [readExponentDigits_append hds hstops.noDigit, if_neg htaken, if_neg hvanishes]

/-- What follows the letter of an exponent: a sign, which need not be there, and digits. -/
def SignedDigits (cs : List Char) : Prop :=
  ∃ sign ds, (sign = [] ∨ sign = ['+'] ∨ sign = ['-']) ∧ Digits ds ∧ cs = sign ++ ds

/-- Digits without a sign are read as those of an exponent that is not negative. -/
theorem readExponent_of_digits {ds rest : List Char} (h : Digits ds) :
    readExponent negative significand exponent (ds ++ rest) =
      readExponentDigits negative significand exponent false (ds ++ rest) := by
  obtain ⟨d, ds, rfl, hd⟩ := h.exists_cons
  rw [List.cons_append, readExponent]
  · rintro cs hcs
    rw [(List.cons.inj hcs).1] at hd
    exact absurd hd (by decide)
  · rintro cs hcs
    rw [(List.cons.inj hcs).1] at hd
    exact absurd hd (by decide)

theorem local_readExponent : Local (readExponent negative significand exponent) SignedDigits := by
  intro cs n left h
  rw [readExponent.eq_def] at h
  split at h
  · obtain ⟨ds, rfl, hds, hreads⟩ := local_readExponentDigits _ _ _ h
    exact ⟨'-' :: ds, rfl, ⟨['-'], ds, by simp, hds, rfl⟩, hreads⟩
  · obtain ⟨ds, rfl, hds, hreads⟩ := local_readExponentDigits _ _ _ h
    exact ⟨'+' :: ds, rfl, ⟨['+'], ds, by simp, hds, rfl⟩, hreads⟩
  · obtain ⟨ds, rfl, hds, hreads⟩ := local_readExponentDigits _ _ _ h
    refine ⟨ds, rfl, ⟨[], ds, by simp, hds, rfl⟩, fun rest hstops ↦ ?_⟩
    rw [readExponent_of_digits hds]
    exact hreads rest hstops

theorem SignedDigits.exponentText {e : Char} {cs : List Char} (he : e = 'e' ∨ e = 'E')
    (h : SignedDigits cs) : ExponentText (e :: cs) := by
  obtain ⟨sign, ds, hsign, hds, rfl⟩ := h
  exact .digits he hsign hds

/-- Behind an exponent, and before what follows the numeral, there is no digit. -/
theorem ExponentText.noDigit_append {cs rest : List Char} (h : ExponentText cs)
    (hstops : Stops rest) : NoDigit (cs ++ rest) := by
  cases h with
  | absent => exact hstops.noDigit
  | digits he => rcases he with rfl | rfl <;> exact noDigit_cons.2 (by decide)

/-- Without an exponent nothing is read. -/
theorem readScale_of_stops {cs : List Char} (h : Stops cs) :
    readScale negative significand exponent cs = scaled negative significand exponent cs := by
  rw [readScale.eq_def]
  split
  · exact absurd rfl (stops_cons.1 h).2.2.1
  · exact absurd rfl (stops_cons.1 h).2.2.2
  · rfl

theorem local_readScale : Local (readScale negative significand exponent) ExponentText := by
  intro cs n left h
  rw [readScale.eq_def] at h
  split at h
  · obtain ⟨t, rfl, ht, hreads⟩ := local_readExponent _ _ _ h
    exact ⟨'e' :: t, rfl, ht.exponentText (.inl rfl), hreads⟩
  · obtain ⟨t, rfl, ht, hreads⟩ := local_readExponent _ _ _ h
    exact ⟨'E' :: t, rfl, ht.exponentText (.inr rfl), hreads⟩
  · obtain ⟨t, rfl, rfl, hreads⟩ := local_scaled _ _ _ h
    refine ⟨[], rfl, .absent, fun rest hstops ↦ ?_⟩
    rw [List.nil_append, readScale_of_stops hstops]
    exact hreads rest hstops

/-! ### Fractions -/

theorem readFraction_append {ds cs : List Char} (hds : Digits ds) (hcs : NoDigit cs) :
    readFraction negative significand exponent (ds ++ cs) =
      readScale negative (absorb maxSignificand significand ds).1
        (exponent - (absorb maxSignificand significand ds).2) cs := by
  have htake := takeWhile_isDigit_append hds.2 hcs
  have hdrop := dropWhile_isDigit_append hds.2 hcs
  obtain ⟨d, ds, rfl, hd⟩ := hds.exists_cons
  simp only [readFraction, htake, hdrop]

/-- What follows the point of a numeral: digits, and the exponent. -/
def PointText (cs : List Char) : Prop :=
  ∃ ds exponent, Digits ds ∧ ExponentText exponent ∧ cs = ds ++ exponent

theorem local_readFraction : Local (readFraction negative significand exponent) PointText := by
  intro cs n left h
  obtain ⟨ds, rest, rfl, hall, hrest⟩ := exists_digits_append cs
  have hds : Digits ds := by
    refine ⟨?_, hall⟩
    rintro rfl
    have htake := takeWhile_isDigit_append hall hrest
    have hdrop := dropWhile_isDigit_append hall hrest
    simp only [readFraction, htake, hdrop] at h
    split at h <;> simp_all [failAt, failPast]
  rw [readFraction_append hds hrest] at h
  obtain ⟨t, rfl, ht, hreads⟩ := local_readScale _ _ _ h
  refine ⟨ds ++ t, (List.append_assoc _ _ _).symm, ⟨ds, t, hds, ht, rfl⟩, fun rest hstops ↦ ?_⟩
  rw [List.append_assoc, readFraction_append hds (ht.noDigit_append hstops)]
  exact hreads rest hstops

/-! ### Numerals -/

/-- What follows the integer part of a numeral: the fraction and the exponent. -/
def TailText (cs : List Char) : Prop :=
  ∃ fraction exponent, FractionText fraction ∧ ExponentText exponent ∧ cs = fraction ++ exponent

theorem ExponentText.tailText {cs : List Char} (h : ExponentText cs) : TailText cs :=
  ⟨[], cs, .absent, h, rfl⟩

theorem PointText.tailText {cs : List Char} (h : PointText cs) : TailText ('.' :: cs) := by
  obtain ⟨ds, exponent, hds, hexponent, rfl⟩ := h
  exact ⟨'.' :: ds, exponent, .digits hds, hexponent, rfl⟩

theorem TailText.noDigit_append {cs rest : List Char} (h : TailText cs) (hstops : Stops rest) :
    NoDigit (cs ++ rest) := by
  obtain ⟨fraction, exponent, hfraction, hexponent, rfl⟩ := h
  cases hfraction with
  | absent => exact hexponent.noDigit_append hstops
  | digits => exact noDigit_cons.2 (by decide)

/-- A text that does not continue a numeral ends an integer. -/
theorem readTail_of_stops {cs : List Char} (h : Stops cs) :
    readTail negative significand cs = .ok (integral negative significand, cs) := by
  rw [readTail.eq_def]
  split
  · exact absurd rfl (stops_cons.1 h).2.1
  · exact absurd rfl (stops_cons.1 h).2.2.1
  · exact absurd rfl (stops_cons.1 h).2.2.2
  · rfl

theorem local_readTail : Local (readTail negative significand) TailText := by
  intro cs n left h
  rw [readTail.eq_def] at h
  split at h
  · obtain ⟨t, rfl, ht, hreads⟩ := local_readFraction _ _ _ h
    exact ⟨'.' :: t, rfl, ht.tailText, hreads⟩
  · obtain ⟨t, rfl, ht, hreads⟩ := local_readExponent _ _ _ h
    exact ⟨'e' :: t, rfl, (ht.exponentText (.inl rfl)).tailText, hreads⟩
  · obtain ⟨t, rfl, ht, hreads⟩ := local_readExponent _ _ _ h
    exact ⟨'E' :: t, rfl, (ht.exponentText (.inr rfl)).tailText, hreads⟩
  · obtain ⟨rfl, rfl⟩ := Reading.ok_inj h
    refine ⟨[], rfl, ExponentText.absent.tailText, fun rest hstops ↦ ?_⟩
    exact readTail_of_stops hstops

theorem readUnsigned_zero {cs : List Char} (h : NoDigit cs) :
    readUnsigned negative ('0' :: cs) = readTail negative 0 cs := by
  cases cs with
  | nil => rfl
  | cons c cs => simp [readUnsigned, noDigit_cons.1 h]

/-- What is read behind an integer part of which some digits were dropped. -/
def readDropped (negative : Bool) (significand dropped : Nat) : List Char → Reading Number
  | '.' :: cs => readFraction negative significand dropped cs
  | cs => readScale negative significand dropped cs

theorem readDropped_of_exponentText {dropped : Nat} {cs rest : List Char} (h : ExponentText cs)
    (hstops : Stops rest) :
    readDropped negative significand dropped (cs ++ rest) =
      readScale negative significand dropped (cs ++ rest) := by
  rw [readDropped]
  intro ds hds
  cases h with
  | absent =>
    rw [List.nil_append] at hds
    exact (stops_cons.1 (hds ▸ hstops)).2.1 rfl
  | digits he => rcases he with rfl | rfl <;> exact absurd (List.cons.inj hds).1 (by decide)

theorem local_readDropped {dropped : Nat} :
    Local (readDropped negative significand dropped) TailText := by
  intro cs n left h
  rw [readDropped.eq_def] at h
  split at h
  · obtain ⟨t, rfl, ht, hreads⟩ := local_readFraction _ _ _ h
    exact ⟨'.' :: t, rfl, ht.tailText, hreads⟩
  · obtain ⟨t, rfl, ht, hreads⟩ := local_readScale _ _ _ h
    refine ⟨t, rfl, ht.tailText, fun rest hstops ↦ ?_⟩
    rw [readDropped_of_exponentText ht hstops]
    exact hreads rest hstops

/-- What is read behind the digits of an integer part, all of which may fit into 64 bits or not. -/
def readBehind (negative : Bool) (ds : List Char) : List Char → Reading Number :=
  if (absorb maxSignificand 0 ds).2 = ds.length then
    readTail negative (absorb maxSignificand 0 ds).1
  else
    readDropped negative (absorb maxSignificand 0 ds).1
      (ds.length - (absorb maxSignificand 0 ds).2)

theorem local_readBehind {ds : List Char} : Local (readBehind negative ds) TailText := by
  unfold readBehind
  split
  · exact local_readTail
  · exact local_readDropped

theorem readUnsigned_append {c : Char} {ds cs : List Char} (hc : c ≠ '0')
    (hds : Digits (c :: ds)) (hcs : NoDigit cs) :
    readUnsigned negative (c :: (ds ++ cs)) = readBehind negative (c :: ds) cs := by
  have htake := takeWhile_isDigit_append hds.2 hcs
  have hdrop := dropWhile_isDigit_append hds.2 hcs
  have hdigit : c.isDigit = true := hds.2 c List.mem_cons_self
  rw [List.cons_append] at htake hdrop
  rw [readUnsigned.eq_def]
  split
  · next h => exact absurd h (List.cons_ne_nil _ _)
  · next h => exact absurd (List.cons.inj h).1 hc
  · next h =>
    obtain ⟨rfl, rfl⟩ := List.cons.inj h
    rw [if_neg (by simp [hdigit])]
    simp only [htake, hdrop, readBehind]
    split <;> rfl

/-- The integer part of a numeral and what follows it. -/
def UnsignedText (cs : List Char) : Prop :=
  ∃ whole tail, WholeText whole ∧ TailText tail ∧ cs = whole ++ tail

theorem local_readUnsigned : Local (readUnsigned negative) UnsignedText := by
  intro cs n left h
  rcases cs with - | ⟨c, cs⟩
  · simp [readUnsigned, failAt] at h
  by_cases hzero : c = '0'
  · subst hzero
    have hcs : NoDigit cs := by
      rcases cs with - | ⟨d, cs⟩
      · exact stops_nil.noDigit
      · refine noDigit_cons.2 (Bool.eq_false_iff.2 fun hd ↦ ?_)
        simp [readUnsigned, hd, failPast] at h
    rw [readUnsigned_zero hcs] at h
    obtain ⟨t, rfl, ht, hreads⟩ := local_readTail _ _ _ h
    refine ⟨'0' :: t, rfl, ⟨['0'], t, .zero, ht, rfl⟩, fun rest hstops ↦ ?_⟩
    rw [List.cons_append, readUnsigned_zero (ht.noDigit_append hstops)]
    exact hreads rest hstops
  · have hdigit : c.isDigit = true := by
      by_cases hd : c.isDigit = true
      · exact hd
      · simp [readUnsigned, hd, failPast] at h
    obtain ⟨ds, rest, rfl, hall, hrest⟩ := exists_digits_append cs
    have hds : Digits (c :: ds) := ⟨List.cons_ne_nil _ _, List.forall_mem_cons.2 ⟨hdigit, hall⟩⟩
    rw [readUnsigned_append hzero hds hrest] at h
    obtain ⟨t, rfl, ht, hreads⟩ := local_readBehind _ _ _ h
    refine ⟨c :: ds ++ t, by simp, ⟨c :: ds, t, .digits hzero hds, ht, rfl⟩, fun rest hstops ↦ ?_⟩
    -- the same digits are found before every tail, so the same reader goes on behind them
    rw [List.append_assoc, List.cons_append,
      readUnsigned_append hzero hds (ht.noDigit_append hstops)]
    exact hreads rest hstops

theorem UnsignedText.exists_cons {cs : List Char} (h : UnsignedText cs) :
    ∃ c ds, cs = c :: ds ∧ c.isDigit = true := by
  obtain ⟨whole, tail, hwhole, -, rfl⟩ := h
  cases hwhole with
  | zero => exact ⟨'0', tail, rfl, by decide⟩
  | @digits c cs _ hds => exact ⟨c, cs ++ tail, rfl, hds.2 c List.mem_cons_self⟩

theorem UnsignedText.numeralText {sign cs : List Char} (hsign : sign = [] ∨ sign = ['-'])
    (h : UnsignedText cs) : NumeralText (sign ++ cs) := by
  obtain ⟨whole, tail, hwhole, ⟨fraction, exponent, hfraction, hexponent, rfl⟩, rfl⟩ := h
  exact .mk hsign hwhole hfraction hexponent

/-- A numeral that begins with a digit has no sign. -/
theorem readNumber_of_isDigit {c : Char} (h : c.isDigit = true) (cs : List Char) :
    readNumber (c :: cs) = readUnsigned false (c :: cs) := by
  rw [readNumber]
  rintro ds hds
  rw [(List.cons.inj hds).1] at h
  exact absurd h (by decide)

/-- **Numerals are read locally**: what a number is read from begins with a numeral, and this
numeral is read as the same number whatever follows that does not continue it. -/
theorem local_readNumber : Local readNumber NumeralText := by
  intro cs n left h
  rw [readNumber.eq_def] at h
  split at h
  · obtain ⟨t, rfl, ht, hreads⟩ := local_readUnsigned _ _ _ h
    exact ⟨'-' :: t, rfl, ht.numeralText (.inr rfl), hreads⟩
  · obtain ⟨t, rfl, ht, hreads⟩ := local_readUnsigned _ _ _ h
    refine ⟨t, rfl, ht.numeralText (.inl rfl), fun rest hstops ↦ ?_⟩
    obtain ⟨c, ds, rfl, hc⟩ := ht.exists_cons
    rw [List.cons_append, readNumber_of_isDigit hc]
    exact hreads rest hstops

/-- A numeral begins with its sign or its first digit. -/
theorem NumeralText.exists_cons {cs : List Char} (h : NumeralText cs) :
    ∃ c ds, cs = c :: ds ∧ (c = '-' ∨ c.isDigit = true) := by
  obtain ⟨hsign, hwhole, hfraction, hexponent⟩ := h
  rcases hsign with rfl | rfl
  · have hunsigned : UnsignedText _ := ⟨_, _, hwhole, ⟨_, _, hfraction, hexponent, rfl⟩, rfl⟩
    obtain ⟨c, ds, hcons, hc⟩ := hunsigned.exists_cons
    exact ⟨c, ds, hcons, .inr hc⟩
  · exact ⟨'-', _, rfl, .inl rfl⟩

/-- A numeral, and the number that it is read as. -/
def NumeralOf (cs : List Char) (n : Number) : Prop :=
  NumeralText cs ∧ readNumber cs = .ok (n, [])

theorem NumeralOf.reads {cs : List Char} {n : Number} (h : NumeralOf cs n) :
    Reads readNumber cs n := by
  obtain ⟨t, ht, -, hreads⟩ := local_readNumber cs n [] h.2
  rwa [ht, List.append_nil]

theorem Reads.numeralOf {cs : List Char} {n : Number} (h : Reads readNumber cs n) :
    NumeralOf cs n := by
  have hread : readNumber cs = .ok (n, []) := by simpa using h [] stops_nil
  obtain ⟨t, ht, htext, -⟩ := local_readNumber cs n [] hread
  rw [List.append_nil] at ht
  exact ⟨ht ▸ htext, hread⟩

/-- A number is read exactly at a numeral. -/
theorem exists_numeralOf {cs left : List Char} {n : Number} (h : readNumber cs = .ok (n, left)) :
    ∃ t, cs = t ++ left ∧ NumeralOf t n := by
  obtain ⟨t, ht, -, hreads⟩ := local_readNumber cs n left h
  exact ⟨t, ht, hreads.numeralOf⟩

/-! ### Integers -/

theorem le_ofDigitChars (cs : List Char) (n : Nat) : n ≤ Nat.ofDigitChars 10 cs n := by
  induction cs generalizing n with
  | nil => exact Nat.le_refl n
  | cons c cs ih =>
    rw [Nat.ofDigitChars_cons]
    have hstep : n ≤ 10 * n + (c.toNat - '0'.toNat) := by omega
    exact Nat.le_trans hstep (ih _)

/-- Digits whose value does not exceed the bound are taken to the last one. -/
theorem absorb_eq {bound : Nat} {cs : List Char} {n : Nat}
    (h : Nat.ofDigitChars 10 cs n ≤ bound) :
    absorb bound n cs = (Nat.ofDigitChars 10 cs n, cs.length) := by
  induction cs generalizing n with
  | nil => rfl
  | cons c cs ih =>
    have hstep : n * 10 + digitValue c = 10 * n + (c.toNat - '0'.toNat) := by
      rw [Nat.mul_comm, digitValue]
    rw [Nat.ofDigitChars_cons] at h ⊢
    rw [absorb, hstep, if_pos (Nat.le_trans (le_ofDigitChars cs _) h), ih h]
    rfl

/-- The digits of a positive number do not begin with a zero. -/
theorem exists_toDigits_eq_cons {n : Nat} (h : n ≠ 0) :
    ∃ c ds, Nat.toDigits 10 n = c :: ds ∧ c ≠ '0' := by
  induction n using Nat.strongRecOn with
  | ind n ih =>
    rw [Nat.toDigits_eq_if (by decide)]
    split
    · next hlt => exact ⟨_, [], rfl, (by decide : ∀ m < 10, m ≠ 0 → Nat.digitChar m ≠ '0') n hlt h⟩
    · next hge =>
      obtain ⟨c, ds, hcons, hc⟩ := ih (n / 10) (by omega) (by omega)
      exact ⟨c, ds ++ [Nat.digitChar (n % 10)], by rw [hcons, List.cons_append], hc⟩

theorem digits_toDigits (n : Nat) : Digits (Nat.toDigits 10 n) :=
  ⟨Nat.toDigits_ne_nil, fun _ hc ↦ Nat.isDigit_of_mem_toDigits (by decide) (by decide) hc⟩

/-- The digits of a number that fits into 64 bits are read as an integer. -/
theorem readUnsigned_toDigits {n : Nat} (hn : n ≤ maxSignificand) {rest : List Char}
    (hstops : Stops rest) :
    readUnsigned negative (Nat.toDigits 10 n ++ rest) = .ok (integral negative n, rest) := by
  by_cases hzero : n = 0
  · rw [hzero, Nat.toDigits_zero, List.cons_append, List.nil_append,
      readUnsigned_zero hstops.noDigit]
    exact readTail_of_stops hstops
  · have hvalue : Nat.ofDigitChars 10 (Nat.toDigits 10 n) 0 = n :=
      Nat.ofDigitChars_toDigits (by decide) (by decide)
    have hdigits := digits_toDigits n
    obtain ⟨c, ds, hcons, hc⟩ := exists_toDigits_eq_cons hzero
    rw [hcons] at hvalue hdigits ⊢
    rw [List.cons_append, readUnsigned_append hc hdigits hstops.noDigit, readBehind,
      absorb_eq (by rw [hvalue]; exact hn), if_pos rfl, hvalue]
    exact readTail_of_stops hstops

/-- **Integers are read exactly**: the decimal digits of an integer that fits into 64 bits, with or
without sign, are read as this integer. -/
theorem reads_integerChars {k : Int} (h : FitsWord k) :
    Reads readNumber (integerChars k) (.integer k) := by
  obtain ⟨hlow, hhigh⟩ := h
  have hfits : k.natAbs ≤ maxSignificand := by
    show k.natAbs ≤ 0x10000000000000000 - 1
    omega
  intro rest hstops
  rw [integerChars]
  split
  · next hneg =>
    have hvalue : integral true k.natAbs = .integer k := by
      have habs : 0 < k.natAbs ∧ k.natAbs ≤ Nat.pow 2 63 := by
        show 0 < k.natAbs ∧ k.natAbs ≤ 0x8000000000000000
        omega
      rw [integral, if_neg (by decide), if_pos habs]
      exact congrArg Number.integer (by omega)
    rw [List.cons_append, readNumber, readUnsigned_toDigits hfits hstops, hvalue]
  · next hnonneg =>
    have hvalue : integral false k.natAbs = .integer k := by
      rw [integral, if_pos (by decide)]
      exact congrArg Number.integer (by omega)
    have hread : readUnsigned false (Nat.toDigits 10 k.natAbs ++ rest) =
        .ok (integral false k.natAbs, rest) := readUnsigned_toDigits hfits hstops
    obtain ⟨c, ds, hcons, hc⟩ := (digits_toDigits k.natAbs).exists_cons
    rw [hcons, List.cons_append] at hread ⊢
    rw [readNumber_of_isDigit hc, hread, hvalue]

theorem IntegerText.numeralOf {cs : List Char} {n : Number} (h : IntegerText cs n) :
    NumeralOf cs n := by
  obtain ⟨k, hk, rfl, rfl⟩ := h
  exact (reads_integerChars hk).numeralOf

end TaskStatus.Json
