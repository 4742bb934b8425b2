import TaskStatus.Json.Quoted
import TaskStatus.Proofs.Grammar

/-!
# How strings are read

A reader of a string takes one character after the other, each from the text that stands for it.
Since no such text is the beginning of another one, every reader here succeeds *exactly* on the
texts of its part of the grammar, so each has an `_eq_ok_iff` lemma: hexadecimal digits, UTF-16
units, escape sequences, characters. Only the whole string has a bound, which its length must not
exceed.

The surrogate arithmetic is in `readUnicodeEscape_eq_ok_iff`: a unit that is no half of a pair is
the code of its character, and the two halves of a pair make the code of a character above `FFFF`.
-/

namespace TaskStatus.Json

/-! ### Hexadecimal digits -/

theorem hexValue?_eq_some_iff {c : Char} {n : Nat} : hexValue? c = some n ↔ HexDigit c n := by
  constructor
  · intro h
    have hc : Char.ofNat c.toNat = c := Char.ofNat_toNat c
    rw [hexValue?] at h
    split at h
    · next hdec =>
      have hlow : 48 ≤ c.toNat := hdec.1
      have hhigh : c.toNat ≤ 57 := hdec.2
      obtain rfl : c.toNat - 48 = n := Option.some.inj h
      refine ⟨by omega, .inl (Char.toNat_inj.1 ?_)⟩
      rw [Nat.toNat_digitChar_of_lt_ten (by omega)]
      omega
    · split at h
      · next hlower =>
        have hlow : 97 ≤ c.toNat := hlower.1
        have hhigh : c.toNat ≤ 102 := hlower.2
        obtain rfl : c.toNat - 97 + 10 = n := Option.some.inj h
        have hdigit := (by decide : ∀ m < 6, Char.ofNat (m + 97) = Nat.digitChar (m + 10))
          (c.toNat - 97) (by omega)
        rw [Nat.sub_add_cancel hlow, hc] at hdigit
        exact ⟨by omega, .inl hdigit⟩
      · split at h
        · next hupper =>
          have hlow : 65 ≤ c.toNat := hupper.1
          have hhigh : c.toNat ≤ 70 := hupper.2
          obtain rfl : c.toNat - 65 + 10 = n := Option.some.inj h
          have hdigit :=
            (by decide : ∀ m < 6, Char.ofNat (m + 65) = (Nat.digitChar (m + 10)).toUpper)
              (c.toNat - 65) (by omega)
          rw [Nat.sub_add_cancel hlow, hc] at hdigit
          exact ⟨by omega, .inr hdigit⟩
        · cases h
  · rintro ⟨hn, rfl | rfl⟩
    · exact (by decide : ∀ n < 16, hexValue? (Nat.digitChar n) = some n) n hn
    · exact (by decide : ∀ n < 16, hexValue? (Nat.digitChar n).toUpper = some n) n hn

/-! ### UTF-16 units -/

theorem unitValue?_eq_some_iff {a b c d : Char} {n : Nat} :
    unitValue? a b c d = some n ↔ UnitText [a, b, c, d] n := by
  constructor
  · intro h
    simp only [unitValue?, Option.bind_eq_bind, Option.bind_eq_some_iff, Option.pure_def,
      Option.some.injEq, hexValue?_eq_some_iff] at h
    obtain ⟨i, hi, j, hj, k, hk, l, hl, rfl⟩ := h
    have hsum : ((i * 16 + j) * 16 + k) * 16 + l = i * 0x1000 + j * 0x100 + k * 0x10 + l := by omega
    rw [hsum]
    exact .mk hi hj hk hl
  · intro h
    cases h with
    | mk hi hj hk hl =>
      rw [unitValue?, hexValue?_eq_some_iff.2 hi, hexValue?_eq_some_iff.2 hj,
        hexValue?_eq_some_iff.2 hk, hexValue?_eq_some_iff.2 hl]
      simp only [Option.bind_eq_bind, Option.bind_some, Option.pure_def, Option.some.injEq]
      omega

theorem UnitText.lt {cs : List Char} {n : Nat} (h : UnitText cs n) : n < 0x10000 := by
  cases h with
  | mk hi hj hk hl =>
    have := hi.1
    have := hj.1
    have := hk.1
    have := hl.1
    omega

/-- Four characters have at least four bytes. -/
theorem four_le_byteLength (a b c d : Char) : 4 ≤ byteLength [a, b, c, d] := by
  have ha := a.utf8Size_pos
  have hb := b.utf8Size_pos
  have hc := c.utf8Size_pos
  have hd := d.utf8Size_pos
  simp only [byteLength, List.foldr_cons, List.foldr_nil]
  omega

theorem readUnit_eq_ok_iff {cs left : List Char} {n : Nat} :
    readUnit cs = .ok (n, left) ↔ ∃ t, cs = t ++ left ∧ UnitText t n := by
  constructor
  · intro h
    rw [readUnit.eq_def] at h
    split at h
    · cases h
    · split at h
      · next a b c d rest _ =>
        split at h
        · next m hm =>
          obtain ⟨rfl, rfl⟩ := Reading.ok_inj h
          exact ⟨[a, b, c, d], rfl, unitValue?_eq_some_iff.1 hm⟩
        · cases h
      · cases h
  · rintro ⟨t, rfl, ht⟩
    have hvalue := ht
    cases ht with
    | @mk a b c d i j k l =>
      have hlong : ¬ byteLength (([a, b, c, d] ++ left).take 4) < 4 :=
        Nat.not_lt.2 (four_le_byteLength a b c d)
      rw [readUnit.eq_def, if_neg hlong]
      simp only [List.cons_append, List.nil_append, unitValue?_eq_some_iff.2 hvalue]

/-! ### Escape sequences -/

theorem isHighSurrogate_iff {n : Nat} : isHighSurrogate n = true ↔ 0xD800 ≤ n ∧ n < 0xDC00 := by
  simp only [isHighSurrogate, Bool.and_eq_true, decide_eq_true_eq]
  omega

theorem isLowSurrogate_iff {n : Nat} : isLowSurrogate n = true ↔ 0xDC00 ≤ n ∧ n < 0xE000 := by
  simp only [isLowSurrogate, Bool.and_eq_true, decide_eq_true_eq]
  omega

/-- The code of a character is a valid one. -/
theorem toNat_valid (c : Char) : c.toNat < 0xD800 ∨ 0xDFFF < c.toNat ∧ c.toNat < 0x110000 := c.valid

theorem toNat_ofNat_of_valid {n : Nat} (h : n < 0xD800 ∨ 0xDFFF < n ∧ n < 0x110000) :
    (Char.ofNat n).toNat = n := by
  rw [Char.ofNat, dif_pos h]
  rfl

/-- The character of a surrogate pair. -/
theorem eq_pairChar_iff {high low : Nat} {c : Char} (hhigh : 0xD800 ≤ high ∧ high < 0xDC00)
    (hlow : 0xDC00 ≤ low ∧ low < 0xE000) :
    c = pairChar high low ↔ c.toNat = 0x10000 + (high - 0xD800) * 0x400 + (low - 0xDC00) := by
  have hcode : (pairChar high low).toNat = 0x10000 + (high - 0xD800) * 0x400 + (low - 0xDC00) :=
    toNat_ofNat_of_valid (by omega)
  rw [← hcode, Char.toNat_inj]

theorem readLowSurrogate_eq_ok_iff {high : Nat} {cs left : List Char} {c : Char} :
    readLowSurrogate high cs = .ok (c, left) ↔
      ∃ t low, cs = '\\' :: 'u' :: (t ++ left) ∧ UnitText t low ∧ isLowSurrogate low = true ∧
        c = pairChar high low := by
  constructor
  · intro h
    rw [readLowSurrogate.eq_def] at h
    split at h
    · cases h
    · cases h
    · obtain ⟨low, rest, hunit, hrest⟩ := Reading.andThen_eq_ok_iff.1 h
      obtain ⟨t, rfl, ht⟩ := readUnit_eq_ok_iff.1 hunit
      split at hrest
      · next hlow =>
        obtain ⟨rfl, rfl⟩ := Reading.ok_inj hrest
        exact ⟨t, low, rfl, ht, hlow, rfl⟩
      · cases hrest
    · cases h
    · cases h
  · rintro ⟨t, low, rfl, ht, hlow, hc⟩
    have hunit : readUnit (t ++ left) = .ok (low, left) := readUnit_eq_ok_iff.2 ⟨t, rfl, ht⟩
    rw [readLowSurrogate, hunit, Reading.andThen_ok, if_pos hlow, hc]

/-- **Escapes by digits**: a unit that is no half of a surrogate pair is the code of its character,
and a first half goes with a second one. -/
theorem readUnicodeEscape_eq_ok_iff {cs left : List Char} {c : Char} :
    readUnicodeEscape cs = .ok (c, left) ↔
      ∃ t, cs = t ++ left ∧ CharText ('\\' :: 'u' :: t) c := by
  constructor
  · intro h
    obtain ⟨n, rest, hunit, hrest⟩ := Reading.andThen_eq_ok_iff.1 h
    obtain ⟨t, rfl, ht⟩ := readUnit_eq_ok_iff.1 hunit
    split at hrest
    · cases hrest
    · next hnotlow =>
      split at hrest
      · next hhigh =>
        obtain ⟨t', low, rfl, ht', hlow, hc⟩ := readLowSurrogate_eq_ok_iff.1 hrest
        rw [isHighSurrogate_iff] at hhigh
        rw [isLowSurrogate_iff] at hlow
        refine ⟨t ++ '\\' :: 'u' :: t', by simp, ?_⟩
        exact .pair ht hhigh.1 hhigh.2 ht' hlow.1 hlow.2 ((eq_pairChar_iff hhigh hlow).1 hc)
      · next hnothigh =>
        obtain ⟨rfl, rfl⟩ := Reading.ok_inj hrest
        have hcode : (Char.ofNat n).toNat = n := by
          have hlt := ht.lt
          rw [isLowSurrogate_iff] at hnotlow
          rw [isHighSurrogate_iff] at hnothigh
          exact toNat_ofNat_of_valid (by omega)
        exact ⟨t, rfl, .unit (hcode.symm ▸ ht)⟩
  · rintro ⟨t, rfl, ht⟩
    cases ht with
    | letter hletter => exact absurd hletter (by simp [letterEscapes])
    | unit hunit =>
      have hvalid := toNat_valid c
      have hnotlow : ¬ isLowSurrogate c.toNat = true := by
        rw [isLowSurrogate_iff]
        omega
      have hnothigh : ¬ isHighSurrogate c.toNat = true := by
        rw [isHighSurrogate_iff]
        omega
      rw [readUnicodeEscape, readUnit_eq_ok_iff.2 ⟨t, rfl, hunit⟩, Reading.andThen_ok,
        if_neg hnotlow, if_neg hnothigh, Char.ofNat_toNat]
    | @pair cs ds high low _ hcs hhigh hhigh' hds hlow hlow' hcode =>
      have hnotlow : ¬ isLowSurrogate high = true := by
        rw [isLowSurrogate_iff]
        omega
      rw [List.append_assoc, readUnicodeEscape, readUnit_eq_ok_iff.2 ⟨cs, rfl, hcs⟩,
        Reading.andThen_ok, if_neg hnotlow, if_pos (isHighSurrogate_iff.2 ⟨hhigh, hhigh'⟩)]
      exact readLowSurrogate_eq_ok_iff.2 ⟨ds, low, rfl, hds, isLowSurrogate_iff.2 ⟨hlow, hlow'⟩,
        (eq_pairChar_iff ⟨hhigh, hhigh'⟩ ⟨hlow, hlow'⟩).2 hcode⟩

theorem letterEscape?_eq_some_iff {l c : Char} :
    letterEscape? l = some c ↔ (l, c) ∈ letterEscapes := by
  constructor
  · intro h
    rw [letterEscape?.eq_def] at h
    split at h
    all_goals first
      | (obtain rfl := Option.some.inj h; decide)
      | cases h
  · intro h
    simp only [letterEscapes, List.mem_cons, Prod.mk.injEq, List.not_mem_nil, or_false] at h
    rcases h with ⟨rfl, rfl⟩ | ⟨rfl, rfl⟩ | ⟨rfl, rfl⟩ | ⟨rfl, rfl⟩ | ⟨rfl, rfl⟩ | ⟨rfl, rfl⟩ |
      ⟨rfl, rfl⟩ | ⟨rfl, rfl⟩ <;> rfl

theorem readEscape_eq_ok_iff {cs left : List Char} {c : Char} :
    readEscape cs = .ok (c, left) ↔ ∃ t, cs = t ++ left ∧ CharText ('\\' :: t) c := by
  constructor
  · intro h
    rw [readEscape.eq_def] at h
    split at h
    · cases h
    · obtain ⟨t, rfl, ht⟩ := readUnicodeEscape_eq_ok_iff.1 h
      exact ⟨'u' :: t, rfl, ht⟩
    · next l cs _ =>
      split at h
      · next e he =>
        obtain ⟨rfl, rfl⟩ := Reading.ok_inj h
        exact ⟨[l], rfl, .letter (letterEscape?_eq_some_iff.1 he)⟩
      · cases h
  · rintro ⟨t, rfl, ht⟩
    have hunicode {u : List Char} (hu : CharText ('\\' :: 'u' :: u) c) :
        readEscape ('u' :: (u ++ left)) = .ok (c, left) :=
      readUnicodeEscape_eq_ok_iff.2 ⟨u, rfl, hu⟩
    cases ht with
    | raw _ _ hbackslash => exact absurd rfl hbackslash
    | @letter l _ hletter =>
      have hu : l ≠ 'u' := by
        rintro rfl
        exact absurd hletter (by simp [letterEscapes])
      rw [List.cons_append, List.nil_append, readEscape.eq_def]
      split
      · next heq => exact absurd heq (List.cons_ne_nil _ _)
      · next heq => exact absurd (List.cons.inj heq).1 hu
      · next heq =>
        obtain ⟨rfl, rfl⟩ := List.cons.inj heq
        rw [letterEscape?_eq_some_iff.2 hletter]
    | unit hunit => exact hunicode (.unit hunit)
    | pair hcs hhigh hhigh' hds hlow hlow' hcode =>
      exact hunicode (.pair hcs hhigh hhigh' hds hlow hlow' hcode)

/-! ### Characters and strings -/

/-- The text of a character is not empty, and begins with no quotation mark. -/
theorem CharText.exists_cons {cs : List Char} {c : Char} (h : CharText cs c) :
    ∃ d ds, cs = d :: ds ∧ d ≠ '"' := by
  cases h with
  | raw _ hquote => exact ⟨c, [], rfl, hquote⟩
  | letter => exact ⟨'\\', _, rfl, by decide⟩
  | unit => exact ⟨'\\', _, rfl, by decide⟩
  | pair => exact ⟨'\\', _, rfl, by decide⟩

/-- **One character** that is not the closing quotation mark. -/
theorem readChar_eq_ok_iff {cs left : List Char} {c : Char} (h : cs.head? ≠ some '"') :
    readChar cs = .ok (c, left) ↔ ∃ t, cs = t ++ left ∧ CharText t c := by
  constructor
  · intro hread
    rw [readChar.eq_def] at hread
    split at hread
    · cases hread
    · obtain ⟨t, rfl, ht⟩ := readEscape_eq_ok_iff.1 hread
      exact ⟨'\\' :: t, rfl, ht⟩
    · next d ds hbackslash =>
      split at hread
      · cases hread
      · next hcontrol =>
        obtain ⟨rfl, rfl⟩ := Reading.ok_inj hread
        have hquote : d ≠ '"' := fun hd ↦ h (congrArg some hd)
        exact ⟨[d], rfl, .raw (Char.not_lt.1 hcontrol) hquote hbackslash⟩
  · rintro ⟨t, rfl, ht⟩
    have hescape {u : List Char} (hu : CharText ('\\' :: u) c) :
        readChar ('\\' :: (u ++ left)) = .ok (c, left) :=
      readEscape_eq_ok_iff.2 ⟨u, rfl, hu⟩
    cases ht with
    | raw hblank hquote hbackslash =>
      rw [List.cons_append, List.nil_append, readChar, if_neg (Char.not_lt.2 hblank)]
      exact hbackslash
    | letter hletter => exact hescape (.letter hletter)
    | unit hunit => exact hescape (.unit hunit)
    | pair hcs hhigh hhigh' hds hlow hlow' hcode =>
      exact hescape (.pair hcs hhigh hhigh' hds hlow hlow' hcode)

theorem readChars_quote (bound : Nat) (left : List Char) :
    readChars bound ('"' :: left) = .ok ([], left) := by
  rw [readChars]

theorem readChars_succ {cs : List Char} (h : cs.head? ≠ some '"') (bound : Nat) :
    readChars (bound + 1) cs =
      (readChar cs).andThen fun c left ↦
      (readChars bound left).andThen fun rest left ↦
      .ok (c :: rest, left) := by
  rw [readChars]
  rintro left rfl
  exact h rfl

theorem stringText_of_readChars {bound : Nat} {cs left s : List Char}
    (h : readChars bound cs = .ok (s, left)) : ∃ t, cs = t ++ '"' :: left ∧ StringText t s := by
  induction bound generalizing cs s with
  | zero =>
    rw [readChars.eq_def] at h
    split at h
    · obtain ⟨rfl, rfl⟩ := Reading.ok_inj h
      exact ⟨[], rfl, .nil⟩
    · cases h
    · next hsucc _ => cases hsucc
  | succ bound ih =>
    by_cases hhead : cs.head? = some '"'
    · obtain ⟨ds, rfl⟩ := List.head?_eq_some_iff.1 hhead
      rw [readChars_quote] at h
      obtain ⟨rfl, rfl⟩ := Reading.ok_inj h
      exact ⟨[], rfl, .nil⟩
    · rw [readChars_succ hhead] at h
      obtain ⟨c, rest, hchar, hrest⟩ := Reading.andThen_eq_ok_iff.1 h
      obtain ⟨s', hchars, rfl⟩ := Reading.andThen_map_eq_ok_iff.1 hrest
      obtain ⟨t, rfl, ht⟩ := (readChar_eq_ok_iff hhead).1 hchar
      obtain ⟨t', rfl, ht'⟩ := ih hchars
      exact ⟨t ++ t', by simp, .cons ht ht'⟩

/-- A string is read to its closing quotation mark if the bound admits its characters. -/
theorem StringText.readChars {cs s : List Char} (h : StringText cs s) {bound : Nat}
    (hbound : s.length ≤ bound) (left : List Char) :
    Json.readChars bound (cs ++ '"' :: left) = .ok (s, left) := by
  induction h generalizing bound with
  | nil => exact readChars_quote bound left
  | @cons cs ds s c hchar _ ih =>
    obtain ⟨d, ds', hcons, hd⟩ := hchar.exists_cons
    obtain ⟨n, rfl⟩ : ∃ n, bound = n + 1 := ⟨bound - 1, by simp at hbound; omega⟩
    have hhead : (cs ++ (ds ++ '"' :: left)).head? ≠ some '"' := by
      rw [hcons]
      simpa using hd
    rw [List.append_assoc, readChars_succ hhead, (readChar_eq_ok_iff hhead).2 ⟨cs, rfl, hchar⟩,
      Reading.andThen_ok, ih (Nat.le_of_succ_le_succ hbound), Reading.andThen_ok]

theorem stringText_of_readString {bound : Nat} {cs left : List Char} {s : String}
    (h : readString bound cs = .ok (s, left)) :
    ∃ t, cs = t ++ '"' :: left ∧ StringText t s.toList := by
  obtain ⟨s', hchars, rfl⟩ := Reading.andThen_map_eq_ok_iff.1 h
  rw [String.toList_ofList]
  exact stringText_of_readChars hchars

theorem StringText.readString {cs s : List Char} (h : StringText cs s) {bound : Nat}
    (hbound : s.length ≤ bound) (left : List Char) :
    Json.readString bound (cs ++ '"' :: left) = .ok (String.ofList s, left) := by
  rw [Json.readString, h.readChars hbound, Reading.andThen_ok]

/-- A string has no more characters than its text. -/
theorem StringText.length_le {cs s : List Char} (h : StringText cs s) : s.length ≤ cs.length := by
  induction h with
  | nil => exact Nat.le_refl 0
  | cons hchar _ ih =>
    obtain ⟨d, ds, rfl, -⟩ := hchar.exists_cons
    simp only [List.length_cons, List.length_append]
    omega

end TaskStatus.Json
