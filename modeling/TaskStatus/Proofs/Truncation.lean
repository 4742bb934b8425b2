import TaskStatus.FileTree.Change
import TaskStatus.Proofs.CurrentStatus
import TaskStatus.Proofs.PrintedReading
import TaskStatus.Proofs.TextBytes
import TaskStatus.Proofs.TextMeaning

/-!
# Files that are cut short

A document that is an object ends with the closing brace of this object, and no text that ends
before it is a document (`Json.RootBrace.parse_ne_ok`): what is read of an unfinished object would
be read of the whole text as well, and the brace would be left over. So a file that was cut before
the brace is reported as a failure, wherever it was cut (`CurrentTask.read_of_cut`). A cut within
a character leaves bytes that are no text, and any other cut a text that is no document.
-/

namespace TaskStatus

namespace Json

/-- **The closing brace of the root** of a text stands between these characters: behind it there is
nothing but white space. -/
structure RootBrace (text : String) (before after : List Char) : Prop where
  /-- The brace is part of the text. -/
  eq : text.toList = before ++ '}' :: after
  /-- What is behind it is white space. -/
  insignificant : Insignificant after

/-! ### How the text of an object ends -/

/-- The text of an object stands in braces. -/
theorem ValueText.exists_braces {numeral : List Char → Number → Prop} {depth : Nat} {cs : List Char}
    {ms : List (String × Json)} (h : ValueText numeral depth cs (.object ms)) :
    ∃ ds, cs = '{' :: (ds ++ ['}']) := by
  cases h with
  | emptyObject => exact ⟨_, rfl⟩
  | object => exact ⟨_, rfl⟩

/-- A document that is an object has a closing brace. -/
theorem exists_rootBrace {text : String} {ms : List (String × Json)}
    (h : parse text = .ok (.object ms)) : ∃ before after, RootBrace text before after := by
  generalize hcs : text.toList = cs
  have htext := parse_eq_ok_iff.1 h
  rw [hcs] at htext
  cases htext with
  | @mk before _ after _ _ hv hafter =>
    obtain ⟨ds, rfl⟩ := hv.exists_braces
    refine ⟨before ++ '{' :: ds, after, ?_, hafter⟩
    rw [hcs]
    simp

/-! ### Texts that begin other texts -/

/-- In front of the value of a document nothing but white space is skipped, whatever is behind it.
-/
theorem DocumentText.exists_skip_eq {depth : Nat} {cs : List Char} {v : Json}
    (h : DocumentText NumeralOf depth cs v) :
    ∃ t after, ValueText NumeralOf depth t v ∧ Insignificant after ∧
      ∀ rest, skip (cs ++ rest) = t ++ (after ++ rest) := by
  cases h with
  | @mk before t after _ hbefore hv hafter =>
    refine ⟨t, after, hv, hafter, fun rest ↦ ?_⟩
    rw [List.append_assoc, List.append_assoc, hv.skip_append numeralText_of_numeralOf hbefore]

/-- **A document that begins an object** is the whole of it: behind it there is nothing but white
space. -/
theorem insignificant_of_parse_eq_ok {text part : String} {ms : List (String × Json)} {v : Json}
    {rest : List Char} (h : parse text = .ok (.object ms)) (hpart : parse part = .ok v)
    (htext : text.toList = part.toList ++ rest) : Insignificant rest := by
  obtain ⟨t, after, hv, hafter, hskip⟩ := (parse_eq_ok_iff.1 h).exists_skip_eq
  obtain ⟨t', after', hv', hafter', hskip'⟩ := (parse_eq_ok_iff.1 hpart).exists_skip_eq
  have heq : t' ++ (after' ++ rest) = t ++ (after ++ []) := by
    rw [← hskip, ← hskip', htext, List.append_nil]
  have hnumber : ¬ ∃ n, v = .number n := by
    rintro ⟨n, rfl⟩
    obtain ⟨ds, rfl⟩ := hv.exists_braces
    cases hv' with
    | number hn =>
      obtain ⟨c, ds', rfl, hc⟩ := hn.1.exists_cons
      obtain ⟨rfl, -⟩ := List.cons.inj heq
      revert hc
      decide
  have hobject : ¬ ∃ n, Json.object ms = .number n := by
    rintro ⟨n, hn⟩
    cases hn
  have hrest := (hv'.unique hv (absurd · hnumber) (absurd · hobject) heq).2
  rw [List.append_nil] at hrest
  exact (insignificant_append.1 (hrest ▸ hafter)).2

/-- **No text that ends before the closing brace is a document.** -/
theorem RootBrace.parse_ne_ok {text : String} {before after : List Char} {ms : List (String × Json)}
    (hbrace : RootBrace text before after) (h : parse text = .ok (.object ms)) {part : String}
    (hpart : part.toList <+: before) (v : Json) : parse part ≠ .ok v := by
  intro hread
  obtain ⟨more, rfl⟩ := hpart
  have htext : text.toList = part.toList ++ (more ++ '}' :: after) := by
    rw [hbrace.eq, List.append_assoc]
  have hrest := insignificant_of_parse_eq_ok h hread htext
  exact absurd (hrest '}' (List.mem_append_right more List.mem_cons_self)) (by decide)

end Json

namespace CurrentTask

/-- **A file that is cut short is reported as a failure.** A text that is an object has a closing
brace; and a file that holds some of the bytes in front of it, up to any place, be it within a
character, within a token or at the beginning, gives the words for a failure and no key: neither a
task nor idle. -/
theorem read_of_cut {text : String} {ms : List (String × Json)}
    (h : Json.parse text = .ok (.object ms)) :
    (∃ before after, Json.RootBrace text before after) ∧
    ∀ before after, Json.RootBrace text before after →
      ∀ (fs : FileSystem) (path : Path) (cut : Bytes),
        cut <+: Bytes.ofText (String.ofList before) → fs.read path = .ok cut →
          ∃ m, read fs (some path) = .ofMessage m := by
  refine ⟨Json.exists_rootBrace h, fun before after hbrace fs path cut hcut hfile ↦ ?_⟩
  have hread : read fs (some path) = report (ofBytes cut) := by
    rw [read, ofFile, hfile]
  rw [hread, report_ofBytes_eq_ofMessage_iff]
  rcases htext : cut.text? with - | part
  · exact .inl rfl
  · right
    have hpart : part.toList <+: before := by
      rw [Bytes.text?_eq_some_iff.1 htext] at hcut
      have hprefix := Bytes.toList_isPrefix_of_ofText_isPrefix hcut
      rwa [String.toList_ofList] at hprefix
    rcases hparse : Json.parse part with e | v
    · exact ⟨part, _, rfl, parse_eq_of_json_eq_error hparse⟩
    · exact absurd hparse (hbrace.parse_ne_ok h hpart v)

/-- A file that was cut within a character. -/
theorem read_cut_in_character :
    let cut := Bytes.ofText "\x7b\"a\":\"" ++ [0xC3]
    let path := Path.ofText "a.json"
    let tree := FileTree.empty.apply (.write path cut ⟨0, 0, by decide⟩)
    Json.parse "\x7b\"a\":\"ü\"\x7d" = .ok (.object [("a", .string "ü")]) ∧
      Json.RootBrace "\x7b\"a\":\"ü\"\x7d" "\x7b\"a\":\"ü\"".toList [] ∧
      cut <+: Bytes.ofText "\x7b\"a\":\"ü\"" ∧ cut.text? = none ∧
      ∃ m, read tree.fileSystem (some path) = .ofMessage m := by
  intro cut path tree
  have hobject : Json.Writable Json.maxDepth (.object [("a", .string "ü")]) :=
    .object (by decide) fun m hm ↦ List.mem_singleton.1 hm ▸ .string "ü"
  have hparse : Json.parse "\x7b\"a\":\"ü\"\x7d" = .ok (.object [("a", .string "ü")]) := by
    rw [← Json.parse_compact hobject]
    exact congrArg Json.parse (by decide +kernel)
  have hbrace : Json.RootBrace "\x7b\"a\":\"ü\"\x7d" "\x7b\"a\":\"ü\"".toList [] :=
    ⟨rfl, Json.insignificant_nil⟩
  have hcut : cut <+: Bytes.ofText "\x7b\"a\":\"ü\"" := by decide +kernel
  refine ⟨hparse, hbrace, hcut, by decide +kernel, ?_⟩
  exact (read_of_cut hparse).2 _ _ hbrace tree.fileSystem path cut hcut rfl

end CurrentTask

end TaskStatus
