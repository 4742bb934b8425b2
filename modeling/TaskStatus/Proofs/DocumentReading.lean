import TaskStatus.Json.Document
import TaskStatus.Proofs.NumeralReading
import TaskStatus.Proofs.SettledMembers
import TaskStatus.Proofs.StringReading

/-!
# How documents are read

The reader succeeds exactly on the texts of the grammar in which a numeral stands for the number
that it is read as, with arrays and objects nested at most 127 deep: `parse_eq_ok_iff`.

*What is read has a text* (`sound_readValue`): by induction on the depth, since the reader
of a value takes that of its items as an argument; a run of items or members is an induction on
its bound.

*A text is read* (`ValueText.readValue`): by induction on the grammar, with any text behind it. A
numeral needs that what is behind it does not continue it; every other text ends by itself. The
bound on runs is no condition as long as the text itself is within it.
-/

namespace TaskStatus.Json

/-! ### White space -/

theorem isInsignificant_iff {c : Char} :
    isInsignificant c = true ↔ c = ' ' ∨ c = '\t' ∨ c = '\n' ∨ c = '\r' := by
  simp only [isInsignificant, Bool.or_eq_true, decide_eq_true_eq]
  constructor
  · rintro (((h | h) | h) | h)
    · exact .inl h
    · exact .inr (.inr (.inl h))
    · exact .inr (.inl h)
    · exact .inr (.inr (.inr h))
  · rintro (h | h | h | h)
    · exact .inl (.inl (.inl h))
    · exact .inl (.inr h)
    · exact .inl (.inl (.inr h))
    · exact .inr h

theorem skip_append {before : List Char} (h : Insignificant before) (cs : List Char) :
    skip (before ++ cs) = skip cs :=
  List.dropWhile_append_of_pos fun c hc ↦ isInsignificant_iff.2 (h c hc)

theorem skip_cons {c : Char} (h : isInsignificant c = false) (cs : List Char) :
    skip (c :: cs) = c :: cs :=
  List.dropWhile_cons_of_neg (by simp [h])

/-- What is skipped is white space. -/
theorem exists_insignificant_append_skip (cs : List Char) :
    ∃ before, Insignificant before ∧ cs = before ++ skip cs :=
  ⟨cs.takeWhile isInsignificant,
    fun c hc ↦ isInsignificant_iff.1 (List.all_eq_true.1 List.all_takeWhile c hc),
    List.takeWhile_append_dropWhile.symm⟩

theorem skip_eq_nil_iff {cs : List Char} : skip cs = [] ↔ Insignificant cs := by
  constructor
  · intro h
    obtain ⟨before, hbefore, heq⟩ := exists_insignificant_append_skip cs
    rw [h, List.append_nil] at heq
    exact heq ▸ hbefore
  · intro h
    rw [← List.append_nil cs, skip_append h]
    rfl

/-- White space does not continue a numeral. -/
theorem Insignificant.stops_append {before cs : List Char} (h : Insignificant before)
    (hcs : Stops cs) : Stops (before ++ cs) := by
  cases before with
  | nil => exact hcs
  | cons c before =>
    refine stops_cons.2 ?_
    rcases h c List.mem_cons_self with rfl | rfl | rfl | rfl <;> decide

/-! ### How the text of a value begins -/

/-- The characters that a value begins with. -/
def Begins (c : Char) : Prop :=
  c = 'n' ∨ c = 't' ∨ c = 'f' ∨ c = '"' ∨ c = '[' ∨ c = '{' ∨ c = '-' ∨ c.isDigit = true

theorem Begins.significant {c : Char} (h : Begins c) : isInsignificant c = false := by
  rcases h with rfl | rfl | rfl | rfl | rfl | rfl | rfl | h
  all_goals try decide
  refine Bool.eq_false_iff.2 fun hc ↦ ?_
  rcases isInsignificant_iff.1 hc with rfl | rfl | rfl | rfl <;> exact absurd h (by decide)

theorem Begins.ne_bracket {c : Char} (h : Begins c) : c ≠ ']' := by
  rintro rfl
  revert h
  simp [Begins]

section Begins

variable {numeral : List Char → Number → Prop} (hnumeral : ∀ cs n, numeral cs n → NumeralText cs)
include hnumeral

theorem ValueText.begins {depth : Nat} {cs : List Char} {v : Json}
    (h : ValueText numeral depth cs v) : ∃ c ds, cs = c :: ds ∧ Begins c := by
  cases h with
  | nullWord => exact ⟨'n', _, rfl, by simp [Begins]⟩
  | trueWord => exact ⟨'t', _, rfl, by simp [Begins]⟩
  | falseWord => exact ⟨'f', _, rfl, by simp [Begins]⟩
  | number hn =>
    obtain ⟨c, ds, hcons, hc⟩ := (hnumeral _ _ hn).exists_cons
    refine ⟨c, ds, hcons, ?_⟩
    rcases hc with rfl | hc
    · simp [Begins]
    · simp [Begins, hc]
  | string => exact ⟨'"', _, rfl, by simp [Begins]⟩
  | emptyArray => exact ⟨'[', _, rfl, by simp [Begins]⟩
  | array => exact ⟨'[', _, rfl, by simp [Begins]⟩
  | emptyObject => exact ⟨'{', _, rfl, by simp [Begins]⟩
  | object => exact ⟨'{', _, rfl, by simp [Begins]⟩

/-- In front of a value nothing but white space is skipped. -/
theorem ValueText.skip_append {depth : Nat} {before cs : List Char} {v : Json}
    (h : ValueText numeral depth cs v) (hbefore : Insignificant before) (rest : List Char) :
    skip (before ++ (cs ++ rest)) = cs ++ rest := by
  obtain ⟨c, ds, rfl, hc⟩ := h.begins hnumeral
  rw [Json.skip_append hbefore, List.cons_append, skip_cons hc.significant]

theorem ItemsText.begins {depth : Nat} {cs : List Char} {vs : List Json}
    (h : ItemsText numeral depth cs vs) :
    ∃ c ds, Begins c ∧ ∀ rest, skip (cs ++ rest) = c :: (ds ++ rest) := by
  have hfirst {before t after : List Char} {v : Json} (hbefore : Insignificant before)
      (hv : ValueText numeral depth t v) :
      ∃ c ds, Begins c ∧ ∀ rest, skip (before ++ (t ++ after) ++ rest) = c :: (ds ++ rest) := by
    obtain ⟨c, ds, hcons, hc⟩ := hv.begins hnumeral
    refine ⟨c, ds ++ after, hc, fun rest ↦ ?_⟩
    rw [List.append_assoc, List.append_assoc, hv.skip_append hnumeral hbefore, hcons,
      List.cons_append, List.append_assoc]
  cases h with
  | last hbefore hv => exact hfirst hbefore hv
  | cons hbefore hv => exact hfirst hbefore hv

end Begins

/-- A well-formed text begins as a value does, behind white space. -/
theorem WellFormed.begins {depth : Nat} {cs : List Char} (h : WellFormed depth cs) :
    ∃ c ds, skip cs = c :: ds ∧ Begins c := by
  obtain ⟨v, htext⟩ := h
  cases htext with
  | mk hbefore hv _ =>
    obtain ⟨c, ds, hcons, hc⟩ := hv.begins fun _ _ hn ↦ hn
    have hskip := hv.skip_append (fun _ _ hn ↦ hn) hbefore
    exact ⟨c, _, (hskip _).trans (congrArg (· ++ _) hcons), hc⟩

/-! ### What is read has a text -/

theorem readWord_eq_ok_iff {α : Type} {value a : α} {ws cs left : List Char} :
    readWord value ws cs = .ok (a, left) ↔ a = value ∧ cs = ws ++ left := by
  induction ws generalizing cs with
  | nil =>
    rw [readWord, Except.ok.injEq, Prod.mk.injEq, List.nil_append]
    exact and_congr_left' eq_comm
  | cons w ws ih =>
    cases cs with
    | nil => simp [readWord, failAt]
    | cons c cs =>
      rw [readWord]
      split
      · next h => rw [ih, List.cons_append, List.cons.injEq, h, eq_self, true_and]
      · next h => simp [failPast, h]

/-- What a reader of values reads has a text with a value of some depth, behind white space. -/
def Sound (item : List Char → Reading Json) (depth : Nat) : Prop :=
  ∀ cs v left, item cs = .ok (v, left) →
    ∃ before t, Insignificant before ∧ cs = before ++ (t ++ left) ∧ ValueText NumeralOf depth t v

section Sound

variable {item : List Char → Reading Json} {depth : Nat} (hitem : Sound item depth)
include hitem

/-- Items that follow another one complete it to the text of all items. -/
theorem itemsText_of_readMoreItems {n : Nat} {cs left : List Char} {vs : List Json}
    (h : readMoreItems item n cs = .ok (vs, left)) :
    ∃ ds, cs = ds ++ ']' :: left ∧
      ∀ before t v, Insignificant before → ValueText NumeralOf depth t v →
        ItemsText NumeralOf depth (before ++ (t ++ ds)) (v :: vs) := by
  induction n generalizing cs vs with
  | zero => cases h
  | succ n ih =>
    obtain ⟨after, hafter, hcs⟩ := exists_insignificant_append_skip cs
    rw [readMoreItems] at h
    split at h
    · cases h
    · next hskip =>
      obtain ⟨rfl, rfl⟩ := Reading.ok_inj h
      rw [hskip] at hcs
      exact ⟨after, hcs, fun before t v hbefore hv ↦ .last hbefore hv hafter⟩
    · next rest hskip =>
      rw [hskip] at hcs
      obtain ⟨lead, hlead, hrest⟩ := exists_insignificant_append_skip rest
      split at h
      · cases h
      · cases h
      · obtain ⟨v', left', hv', hmore⟩ := Reading.andThen_eq_ok_iff.1 h
        obtain ⟨vs', hvs', rfl⟩ := Reading.andThen_map_eq_ok_iff.1 hmore
        obtain ⟨before', t', hbefore', hitemtext, hvalue⟩ := hitem _ _ _ hv'
        obtain ⟨ds, rfl, hds⟩ := ih hvs'
        refine ⟨after ++ ',' :: (lead ++ before' ++ (t' ++ ds)), ?_, fun before t v hbefore hv ↦ ?_⟩
        · rw [hcs, hrest, hitemtext]
          simp only [List.append_assoc, List.cons_append]
        · exact .cons hbefore hv hafter
            (hds (lead ++ before') t' v' (insignificant_append.2 ⟨hlead, hbefore'⟩) hvalue)
    · cases h

theorem arrayText_of_readItems {bound : Nat} {cs left : List Char} {vs : List Json}
    (h : readItems item bound cs = .ok (vs, left)) :
    ∃ ds, cs = ds ++ ']' :: left ∧
      ValueText NumeralOf (depth + 1) ('[' :: (ds ++ [']'])) (.array vs) := by
  obtain ⟨lead, hlead, hcs⟩ := exists_insignificant_append_skip cs
  rw [readItems] at h
  split at h
  · cases h
  · next hskip =>
    obtain ⟨rfl, rfl⟩ := Reading.ok_inj h
    rw [hskip] at hcs
    exact ⟨lead, hcs, .emptyArray hlead⟩
  · obtain ⟨v, left', hv, hmore⟩ := Reading.andThen_eq_ok_iff.1 h
    obtain ⟨vs', hvs', rfl⟩ := Reading.andThen_map_eq_ok_iff.1 hmore
    obtain ⟨before, t, hbefore, hitemtext, hvalue⟩ := hitem _ _ _ hv
    obtain ⟨ds, rfl, hds⟩ := itemsText_of_readMoreItems hitem hvs'
    refine ⟨lead ++ before ++ (t ++ ds), ?_, .array ?_⟩
    · rw [hcs, hitemtext]
      simp only [List.append_assoc]
    · exact hds _ t v (insignificant_append.2 ⟨hlead, hbefore⟩) hvalue

theorem memberText_of_readMember {bound : Nat} {cs left : List Char} {m : String × Json}
    (h : readMember item bound cs = .ok (m, left)) :
    ∃ t, cs = t ++ left ∧ MemberText NumeralOf depth ('"' :: t) m := by
  obtain ⟨key, rest, hkey, hrest⟩ := Reading.andThen_eq_ok_iff.1 h
  obtain ⟨k, rfl, hk⟩ := stringText_of_readString hkey
  obtain ⟨before, hbefore, hcs⟩ := exists_insignificant_append_skip rest
  split at hrest
  · cases hrest
  · next hskip =>
    obtain ⟨v, hv, rfl⟩ := Reading.andThen_map_eq_ok_iff.1 hrest
    obtain ⟨after, t, hafter, hitemtext, hvalue⟩ := hitem _ _ _ hv
    refine ⟨k ++ '"' :: (before ++ ':' :: (after ++ t)), ?_, ?_⟩
    · rw [hcs, hskip, hitemtext]
      simp only [List.append_assoc, List.cons_append]
    · have htext := MemberText.mk hk hbefore hafter hvalue
      rwa [String.ofList_toList] at htext
  · cases hrest

/-- Members that follow another one complete it to the text of all members. -/
theorem membersText_of_readMoreMembers {bound n : Nat} {cs left : List Char}
    {ms : List (String × Json)} (h : readMoreMembers item bound n cs = .ok (ms, left)) :
    ∃ ds, cs = ds ++ '}' :: left ∧
      ∀ before t m, Insignificant before → MemberText NumeralOf depth t m →
        MembersText NumeralOf depth (before ++ (t ++ ds)) (m :: ms) := by
  induction n generalizing cs ms with
  | zero => cases h
  | succ n ih =>
    obtain ⟨after, hafter, hcs⟩ := exists_insignificant_append_skip cs
    rw [readMoreMembers] at h
    split at h
    · cases h
    · next hskip =>
      obtain ⟨rfl, rfl⟩ := Reading.ok_inj h
      rw [hskip] at hcs
      exact ⟨after, hcs, fun before t m hbefore hm ↦ .last hbefore hm hafter⟩
    · next rest hskip =>
      rw [hskip] at hcs
      obtain ⟨lead, hlead, hrest⟩ := exists_insignificant_append_skip rest
      split at h
      · cases h
      · next hquote =>
        rw [hquote] at hrest
        obtain ⟨m', left', hm', hmore⟩ := Reading.andThen_eq_ok_iff.1 h
        obtain ⟨ms', hms', rfl⟩ := Reading.andThen_map_eq_ok_iff.1 hmore
        obtain ⟨t', rfl, hmember⟩ := memberText_of_readMember hitem hm'
        obtain ⟨ds, rfl, hds⟩ := ih hms'
        refine ⟨after ++ ',' :: (lead ++ ('"' :: t' ++ ds)), ?_, fun before t m hbefore hm ↦ ?_⟩
        · rw [hcs, hrest]
          simp only [List.append_assoc, List.cons_append]
        · exact .cons hbefore hm hafter (hds lead _ m' hlead hmember)
      · cases h
      · cases h
    · cases h

theorem objectText_of_readMembers {bound : Nat} {cs left : List Char} {ms : List (String × Json)}
    (h : readMembers item bound cs = .ok (ms, left)) :
    ∃ ds, cs = ds ++ '}' :: left ∧
      ValueText NumeralOf (depth + 1) ('{' :: (ds ++ ['}'])) (ofMembers ms) := by
  obtain ⟨lead, hlead, hcs⟩ := exists_insignificant_append_skip cs
  rw [readMembers] at h
  split at h
  · cases h
  · next hskip =>
    obtain ⟨rfl, rfl⟩ := Reading.ok_inj h
    rw [hskip] at hcs
    exact ⟨lead, hcs, .emptyObject hlead⟩
  · next hskip =>
    obtain ⟨m, left', hm, hmore⟩ := Reading.andThen_eq_ok_iff.1 h
    obtain ⟨ms', hms', rfl⟩ := Reading.andThen_map_eq_ok_iff.1 hmore
    obtain ⟨t, rfl, hmember⟩ := memberText_of_readMember hitem hm
    obtain ⟨ds, rfl, hds⟩ := membersText_of_readMoreMembers hitem hms'
    obtain ⟨members, hsettles, hof⟩ := exists_settles (m :: ms')
    refine ⟨lead ++ ('"' :: t ++ ds), ?_, ?_⟩
    · rw [hcs, hskip]
      simp only [List.append_assoc, List.cons_append]
    · rw [hof]
      exact .object (hds lead _ m hlead hmember) hsettles
  · cases h

end Sound

/-- **One level**: if what the reader of the items reads has a text, then so has what the reader
of the value reads, with one level more. -/
theorem sound_readWith {item? : Option (List Char → Reading Json)} {bound depth : Nat}
    (hitem : ∀ item, item? = some item → ∃ d, depth = d + 1 ∧ Sound item d) :
    Sound (readWith item? bound) depth := by
  intro cs v left h
  obtain ⟨before, hbefore, hcs⟩ := exists_insignificant_append_skip cs
  -- it is enough to find the text behind the white space
  suffices htext : ∃ t, skip cs = t ++ left ∧ ValueText NumeralOf depth t v by
    obtain ⟨t, ht, hv⟩ := htext
    exact ⟨before, t, hbefore, ht ▸ hcs, hv⟩
  rw [readWith.eq_def] at h
  split at h
  · cases h
  · next hskip =>
    obtain ⟨rfl, rfl⟩ := readWord_eq_ok_iff.1 h
    exact ⟨_, hskip, .nullWord⟩
  · next hskip =>
    obtain ⟨rfl, rfl⟩ := readWord_eq_ok_iff.1 h
    exact ⟨_, hskip, .trueWord⟩
  · next hskip =>
    obtain ⟨rfl, rfl⟩ := readWord_eq_ok_iff.1 h
    exact ⟨_, hskip, .falseWord⟩
  · next hskip =>
    obtain ⟨s, hs, rfl⟩ := Reading.andThen_map_eq_ok_iff.1 h
    obtain ⟨t, rfl, ht⟩ := stringText_of_readString hs
    refine ⟨'"' :: (t ++ ['"']), by rw [hskip]; simp, ?_⟩
    rw [← String.ofList_toList (s := s)]
    exact .string ht
  · next hskip =>
    split at h
    · cases h
    · obtain ⟨d, rfl, hsound⟩ := hitem _ rfl
      obtain ⟨vs, hvs, rfl⟩ := Reading.andThen_map_eq_ok_iff.1 h
      obtain ⟨ds, rfl, hds⟩ := arrayText_of_readItems hsound hvs
      exact ⟨_, by rw [hskip]; simp, hds⟩
  · next hskip =>
    split at h
    · cases h
    · obtain ⟨d, rfl, hsound⟩ := hitem _ rfl
      obtain ⟨ms, hms, rfl⟩ := Reading.andThen_map_eq_ok_iff.1 h
      obtain ⟨ds, rfl, hds⟩ := objectText_of_readMembers hsound hms
      exact ⟨_, by rw [hskip]; simp, hds⟩
  · next hskip =>
    split at h
    · obtain ⟨n, hn, rfl⟩ := Reading.andThen_map_eq_ok_iff.1 h
      obtain ⟨t, ht, hnumeral⟩ := exists_numeralOf hn
      exact ⟨t, hskip.trans ht, .number hnumeral⟩
    · cases h

/-- **What is read has a text**, with arrays and objects nested no deeper than the reader admits. -/
theorem sound_readValue (bound depth : Nat) : Sound (readValue bound depth) depth := by
  induction depth with
  | zero => exact sound_readWith fun item h ↦ absurd h (Option.some_ne_none item).symm
  | succ depth ih => exact sound_readWith fun item h ↦ ⟨depth, rfl, Option.some.inj h ▸ ih⟩

/-! ### A text is read -/

theorem numeralText_of_numeralOf (cs : List Char) (n : Number) (h : NumeralOf cs n) :
    NumeralText cs := h.1

section Runs

variable {item : List Char → Reading Json} {before : List Char} (hbefore : Insignificant before)

include hbefore in
theorem readItems_nil (bound : Nat) (rest : List Char) :
    readItems item bound (before ++ ']' :: rest) = .ok ([], rest) := by
  rw [readItems, skip_append hbefore, skip_cons (by decide)]
  rfl

theorem readItems_of_skip {bound : Nat} {c : Char} {cs rest : List Char}
    (hskip : skip cs = c :: rest) (hc : c ≠ ']') :
    readItems item bound cs =
      (item (skip cs)).andThen fun v left ↦
      (readMoreItems item bound left).andThen fun vs left ↦
      .ok (v :: vs, left) := by
  rw [readItems, hskip]
  split
  · next h => cases h
  · next h => exact absurd (List.cons.inj h).1 hc
  · rfl

include hbefore in
theorem readMoreItems_end (n : Nat) (rest : List Char) :
    readMoreItems item (n + 1) (before ++ ']' :: rest) = .ok ([], rest) := by
  rw [readMoreItems, skip_append hbefore, skip_cons (by decide)]
  rfl

include hbefore in
theorem readMoreItems_comma {n : Nat} {c : Char} {cs rest : List Char} (hskip : skip cs = c :: rest)
    (hc : c ≠ ']') :
    readMoreItems item (n + 1) (before ++ ',' :: cs) =
      (item (skip cs)).andThen fun v left ↦
      (readMoreItems item n left).andThen fun vs left ↦
      .ok (v :: vs, left) := by
  rw [readMoreItems, skip_append hbefore, skip_cons (by decide)]
  simp only [hskip]
  split
  · next h => cases h
  · next h => exact absurd (List.cons.inj h).1 hc
  · rfl

include hbefore in
theorem readMembers_nil (bound : Nat) (rest : List Char) :
    readMembers item bound (before ++ '}' :: rest) = .ok ([], rest) := by
  rw [readMembers, skip_append hbefore, skip_cons (by decide)]
  rfl

theorem readMembers_of_skip {bound : Nat} {cs rest : List Char} (hskip : skip cs = '"' :: rest) :
    readMembers item bound cs =
      (readMember item bound rest).andThen fun m left ↦
      (readMoreMembers item bound bound left).andThen fun ms left ↦
      .ok (m :: ms, left) := by
  rw [readMembers, hskip]
  rfl

include hbefore in
theorem readMoreMembers_end (bound n : Nat) (rest : List Char) :
    readMoreMembers item bound (n + 1) (before ++ '}' :: rest) = .ok ([], rest) := by
  rw [readMoreMembers, skip_append hbefore, skip_cons (by decide)]
  rfl

include hbefore in
theorem readMoreMembers_comma {bound n : Nat} {cs rest : List Char}
    (hskip : skip cs = '"' :: rest) :
    readMoreMembers item bound (n + 1) (before ++ ',' :: cs) =
      (readMember item bound rest).andThen fun m left ↦
      (readMoreMembers item bound n left).andThen fun ms left ↦
      .ok (m :: ms, left) := by
  rw [readMoreMembers, skip_append hbefore, skip_cons (by decide)]
  simp only [hskip]

end Runs

/-- At every depth a value is read by `readWith`. -/
theorem exists_readValue_eq (bound depth : Nat) :
    ∃ item?, readValue bound depth = readWith item? bound := by
  cases depth with
  | zero => exact ⟨none, rfl⟩
  | succ depth => exact ⟨_, rfl⟩

/-- White space in front of a value is skipped. -/
theorem readValue_append {bound depth : Nat} {before : List Char} (h : Insignificant before)
    (cs : List Char) : readValue bound depth (before ++ cs) = readValue bound depth cs := by
  obtain ⟨item?, hread⟩ := exists_readValue_eq bound depth
  rw [hread, readWith.eq_def, readWith.eq_def item? bound cs, skip_append h]

theorem readWith_number {item? : Option (List Char → Reading Json)} {bound : Nat} {c : Char}
    (h : c = '-' ∨ c.isDigit = true) (cs : List Char) :
    readWith item? bound (c :: cs) =
      (readNumber (c :: cs)).andThen fun n left ↦ .ok (.number n, left) := by
  have hbegins : Begins c := by
    rcases h with rfl | h
    · simp [Begins]
    · simp [Begins, h]
  have hne {d : Char} (hd : d ≠ '-' ∧ d.isDigit = false) : c ≠ d := by
    rintro rfl
    rcases h with h | h
    · exact hd.1 h
    · rw [hd.2] at h
      cases h
  rw [readWith.eq_def, skip_cons hbegins.significant]
  split
  · next heq => cases heq
  · next heq => exact absurd (List.cons.inj heq).1 (hne (by decide))
  · next heq => exact absurd (List.cons.inj heq).1 (hne (by decide))
  · next heq => exact absurd (List.cons.inj heq).1 (hne (by decide))
  · next heq => exact absurd (List.cons.inj heq).1 (hne (by decide))
  · next heq => exact absurd (List.cons.inj heq).1 (hne (by decide))
  · next heq => exact absurd (List.cons.inj heq).1 (hne (by decide))
  · next heq =>
    obtain ⟨rfl, rfl⟩ := List.cons.inj heq
    rw [if_pos h]

/-- There are no more items than characters. -/
theorem ItemsText.length_le {depth : Nat} {cs : List Char} {vs : List Json} :
    ItemsText NumeralOf depth cs vs → vs.length ≤ cs.length
  | .last _ hv _ => by
    obtain ⟨c, ds, rfl, -⟩ := hv.begins numeralText_of_numeralOf
    simp only [List.length_cons, List.length_append, List.length_nil]
    omega
  | .cons _ hv _ hi => by
    have hlength := hi.length_le
    simp only [List.length_cons, List.length_append]
    omega

/-- A member begins with the quotation mark of its key. -/
theorem MemberText.exists_cons {depth : Nat} {cs : List Char} {m : String × Json}
    (h : MemberText NumeralOf depth cs m) : ∃ t, cs = '"' :: t := by
  cases h
  exact ⟨_, rfl⟩

theorem MembersText.length_le {depth : Nat} {cs : List Char} {ms : List (String × Json)} :
    MembersText NumeralOf depth cs ms → ms.length ≤ cs.length
  | .last _ hm _ => by
    obtain ⟨t, rfl⟩ := hm.exists_cons
    simp only [List.length_cons, List.length_append, List.length_nil]
    omega
  | .cons _ _ _ hms => by
    have hlength := hms.length_le
    simp only [List.length_cons, List.length_append]
    omega

/-- What stands behind an item or a member does not continue a numeral. -/
theorem stops_append_cons {after : List Char} (h : Insignificant after) {c : Char}
    (hc : c = ',' ∨ c = ']' ∨ c = '}') (rest : List Char) : Stops (after ++ c :: rest) := by
  refine h.stops_append ?_
  rcases hc with rfl | rfl | rfl <;> exact stops_cons.2 (by decide)

mutual

/-- **A text is read as its value**, and what is behind it is left. -/
theorem ValueText.readValue {depth bound : Nat} {cs rest : List Char} {v : Json}
    (h : ValueText NumeralOf depth cs v) (hbound : cs.length ≤ bound)
    (hstops : (∃ n, v = .number n) → Stops rest) :
    Json.readValue bound depth (cs ++ rest) = .ok (v, rest) := by
  obtain ⟨item?, hread⟩ := exists_readValue_eq bound depth
  match h with
  | .nullWord =>
    rw [hread]
    exact readWord_eq_ok_iff.2 ⟨rfl, rfl⟩
  | .trueWord =>
    rw [hread]
    exact readWord_eq_ok_iff.2 ⟨rfl, rfl⟩
  | .falseWord =>
    rw [hread]
    exact readWord_eq_ok_iff.2 ⟨rfl, rfl⟩
  | .number hn =>
    obtain ⟨c, ds, rfl, hc⟩ := hn.1.exists_cons
    rw [hread, List.cons_append, readWith_number hc, ← List.cons_append,
      hn.reads rest (hstops ⟨_, rfl⟩), Reading.andThen_ok]
  | @ValueText.string _ _ cs s hs =>
    have hlength : s.length ≤ bound := by
      have := hs.length_le
      simp only [List.length_cons, List.length_append] at hbound
      omega
    have hstring := hs.readString hlength rest
    rw [hread, List.cons_append, List.append_assoc]
    show (readString bound (cs ++ '"' :: rest)).andThen _ = _
    rw [hstring, Reading.andThen_ok]
  | @ValueText.emptyArray _ depth cs hc =>
    rw [List.cons_append, List.append_assoc]
    show (readItems (Json.readValue bound depth) bound (cs ++ ']' :: rest)).andThen _ = _
    rw [readItems_nil hc, Reading.andThen_ok]
  | @ValueText.array _ depth cs vs hi =>
    have hlength : cs.length ≤ bound := by
      simp only [List.length_cons, List.length_append] at hbound
      omega
    obtain ⟨c, ds, hc, hskip⟩ := hi.begins numeralText_of_numeralOf
    rw [List.cons_append, List.append_assoc]
    show (readItems (Json.readValue bound depth) bound (cs ++ ']' :: rest)).andThen _ = _
    rw [readItems_of_skip (hskip _) hc.ne_bracket,
      hi.readItems hlength (Nat.le_trans hi.length_le hlength) rest, Reading.andThen_ok]
  | @ValueText.emptyObject _ depth cs hc =>
    rw [List.cons_append, List.append_assoc]
    show (readMembers (Json.readValue bound depth) bound (cs ++ '}' :: rest)).andThen _ = _
    rw [readMembers_nil hc, Reading.andThen_ok]
    rfl
  | @ValueText.object _ depth cs written members hm hs =>
    have hlength : cs.length ≤ bound := by
      simp only [List.length_cons, List.length_append] at hbound
      omega
    obtain ⟨t, hskip, hmembers⟩ :=
      hm.readMembers hlength (Nat.le_trans hm.length_le hlength) rest
    rw [List.cons_append, List.append_assoc]
    show (readMembers (Json.readValue bound depth) bound (cs ++ '}' :: rest)).andThen _ = _
    rw [readMembers_of_skip hskip, hmembers, Reading.andThen_ok, settles_iff.1 hs]

/-- The texts of items are read one after the other, up to the end of the array. -/
theorem ItemsText.readItems {depth bound n : Nat} {cs : List Char} {vs : List Json}
    (h : ItemsText NumeralOf depth cs vs) (hbound : cs.length ≤ bound) (hn : vs.length ≤ n)
    (rest : List Char) :
    ((Json.readValue bound depth (skip (cs ++ ']' :: rest))).andThen fun v left ↦
      (readMoreItems (Json.readValue bound depth) n left).andThen fun vs left ↦
      .ok (v :: vs, left)) = .ok (vs, rest) := by
  obtain ⟨n, rfl⟩ : ∃ m, n = m + 1 := ⟨n - 1, by
    match h with
    | .last .. | .cons .. => simp only [List.length_cons] at hn; omega⟩
  match h with
  | .last hbefore hv hafter =>
    simp only [List.length_append] at hbound
    rw [List.append_assoc, List.append_assoc, hv.skip_append numeralText_of_numeralOf hbefore,
      hv.readValue (by omega) fun _ ↦ stops_append_cons hafter (by simp) rest, Reading.andThen_ok,
      readMoreItems_end hafter, Reading.andThen_ok]
  | .cons hbefore hv hafter hi =>
    simp only [List.length_append, List.length_cons] at hbound hn
    obtain ⟨c, ds, hc, hskip⟩ := hi.begins numeralText_of_numeralOf
    rw [List.append_assoc, List.append_assoc, List.append_assoc, List.cons_append,
      hv.skip_append numeralText_of_numeralOf hbefore,
      hv.readValue (by omega) fun _ ↦ stops_append_cons hafter (by simp) _, Reading.andThen_ok,
      readMoreItems_comma hafter (hskip _) hc.ne_bracket,
      hi.readItems (by omega) (by omega) rest, Reading.andThen_ok]

/-- The text of a member is read behind the quotation mark that it begins with. -/
theorem MemberText.readMember {depth bound : Nat} {cs : List Char} {m : String × Json}
    (h : MemberText NumeralOf depth cs m) (hbound : cs.length ≤ bound) :
    ∃ t, cs = '"' :: t ∧ ∀ rest, Stops rest →
      Json.readMember (Json.readValue bound depth) bound (t ++ rest) = .ok (m, rest) := by
  match h with
  | .mk hkey hbefore hafter hv =>
    refine ⟨_, rfl, fun rest hstops ↦ ?_⟩
    have hlength := hkey.length_le
    simp only [List.length_cons, List.length_append] at hbound
    rw [List.append_assoc, List.cons_append, List.append_assoc, List.cons_append,
      List.append_assoc, Json.readMember, hkey.readString (by omega), Reading.andThen_ok,
      skip_append hbefore, skip_cons (by decide)]
    show (Json.readValue bound depth _).andThen _ = _
    rw [readValue_append hafter, hv.readValue (by omega) fun _ ↦ hstops, Reading.andThen_ok]

/-- The texts of members are read one after the other, up to the end of the object. -/
theorem MembersText.readMembers {depth bound n : Nat} {cs : List Char} {ms : List (String × Json)}
    (h : MembersText NumeralOf depth cs ms) (hbound : cs.length ≤ bound) (hn : ms.length ≤ n)
    (rest : List Char) :
    ∃ t, skip (cs ++ '}' :: rest) = '"' :: t ∧
      ((Json.readMember (Json.readValue bound depth) bound t).andThen fun m left ↦
        (readMoreMembers (Json.readValue bound depth) bound n left).andThen fun ms left ↦
        .ok (m :: ms, left)) = .ok (ms, rest) := by
  obtain ⟨n, rfl⟩ : ∃ m, n = m + 1 := ⟨n - 1, by
    match h with
    | .last .. | .cons .. => simp only [List.length_cons] at hn; omega⟩
  match h with
  | @MembersText.last _ _ before cs after _ hbefore hm hafter =>
    simp only [List.length_append] at hbound
    have hlength : cs.length ≤ bound := by omega
    obtain ⟨t, rfl, hread⟩ := hm.readMember hlength
    refine ⟨t ++ (after ++ '}' :: rest), ?_, ?_⟩
    · rw [List.append_assoc, skip_append hbefore, List.append_assoc, List.cons_append,
        skip_cons (by decide)]
    · rw [hread _ (stops_append_cons hafter (by simp) rest), Reading.andThen_ok,
        readMoreMembers_end hafter, Reading.andThen_ok]
  | @MembersText.cons _ _ before cs after ds _ _ hbefore hm hafter hms =>
    simp only [List.length_append, List.length_cons] at hbound hn
    have hlength : cs.length ≤ bound := by omega
    have hlength' : ds.length ≤ bound := by omega
    obtain ⟨t, rfl, hread⟩ := hm.readMember hlength
    obtain ⟨u, hskip, hmembers⟩ := hms.readMembers hlength' (Nat.le_of_succ_le_succ hn) rest
    refine ⟨t ++ (after ++ ',' :: (ds ++ '}' :: rest)), ?_, ?_⟩
    · rw [List.append_assoc, skip_append hbefore, List.append_assoc, List.cons_append,
        skip_cons (by decide), List.append_assoc, List.cons_append]
    · rw [hread _ (stops_append_cons hafter (by simp) _), Reading.andThen_ok,
        readMoreMembers_comma hafter hskip, hmembers, Reading.andThen_ok]

end

/-- **A text has one value**, and ends in one place: if the texts of two values begin the same
characters, the values are the same and so is what is behind them. -/
theorem ValueText.unique {depth : Nat} {cs ds rest rest' : List Char} {v w : Json}
    (hv : ValueText NumeralOf depth cs v) (hw : ValueText NumeralOf depth ds w)
    (hstops : (∃ n, v = .number n) → Stops rest) (hstops' : (∃ n, w = .number n) → Stops rest')
    (h : cs ++ rest = ds ++ rest') : v = w ∧ rest = rest' := by
  have hbound : cs.length ≤ cs.length + ds.length := Nat.le_add_right _ _
  have hbound' : ds.length ≤ cs.length + ds.length := Nat.le_add_left _ _
  have hread := hv.readValue hbound hstops
  rw [h, hw.readValue hbound' hstops'] at hread
  obtain ⟨hvalue, hrest⟩ := Reading.ok_inj hread
  exact ⟨hvalue.symm, hrest.symm⟩

/-- **The members of an object are read** as they are written, each with its value and in their
order. -/
theorem MembersText.readMembers_append {depth bound : Nat} {cs : List Char}
    {ms : List (String × Json)} (h : MembersText NumeralOf depth cs ms) (hbound : cs.length ≤ bound)
    (rest : List Char) :
    Json.readMembers (Json.readValue bound depth) bound (cs ++ '}' :: rest) = .ok (ms, rest) := by
  obtain ⟨t, hskip, hread⟩ := h.readMembers hbound (Nat.le_trans h.length_le hbound) rest
  rw [readMembers_of_skip hskip, hread]

/-! ### Documents -/

theorem documentText_of_readDocument {cs : List Char} {v : Json} (h : readDocument cs = .ok v) :
    DocumentText NumeralOf maxDepth cs v := by
  rw [readDocument] at h
  split at h
  · cases h
  · next v' left hread =>
    split at h
    · next hskip =>
      obtain rfl := Except.ok.inj h
      obtain ⟨before, t, hbefore, rfl, hv⟩ := sound_readValue _ _ _ _ _ hread
      exact .mk hbefore hv (skip_eq_nil_iff.1 hskip)
    · cases h

theorem DocumentText.readDocument {cs : List Char} {v : Json}
    (h : DocumentText NumeralOf maxDepth cs v) : Json.readDocument cs = .ok v := by
  cases h with
  | @mk before cs after _ hbefore hv hafter =>
    have hlength : cs.length ≤ (before ++ (cs ++ after)).length := by
      simp only [List.length_append]
      omega
    have hstops : Stops after := by
      have hend := hafter.stops_append stops_nil
      rwa [List.append_nil] at hend
    rw [Json.readDocument, readValue_append hbefore, hv.readValue hlength fun _ ↦ hstops]
    simp only [skip_eq_nil_iff.2 hafter]

/-- **The documents that are read** are the texts of the grammar in which numerals stand for what
they are read as, nested at most 127 deep. -/
theorem parse_eq_ok_iff {text : String} {v : Json} :
    parse text = .ok v ↔ DocumentText NumeralOf maxDepth text.toList v := by
  rw [parse]
  constructor
  · intro h
    rcases hread : Json.readDocument text.toList with f | w
    · rw [hread] at h
      cases h
    · rw [hread] at h
      obtain rfl : w = v := Except.ok.inj h
      exact documentText_of_readDocument hread
  · intro h
    rw [h.readDocument]
    rfl

end TaskStatus.Json
