import TaskStatus.Text

/-!
# Texts without blank ends

Trimming is computed by dropping from both ends. Here it is told by what it leaves: the part of a
text between blank characters that neither begins nor ends in one (`trimChars_eq_iff`). For texts
this part is called the core (`IsCore`). There is only one, so all ways to cut a text between blank
ends give the same (`trim_eq_iff`).
-/

namespace TaskStatus

/-- There are no characters but blank ones. -/
def Blank (cs : List Char) : Prop := ∀ c ∈ cs, isBlank c = true

/-- Neither the first character nor the last one is blank. -/
def Trimmed (cs : List Char) : Prop :=
  (∀ c ∈ cs.head?, isBlank c = false) ∧ ∀ c ∈ cs.getLast?, isBlank c = false

/-- Characters that do not begin with a blank one keep all of them. -/
theorem dropWhile_isBlank_eq_self {cs : List Char} (h : ∀ c ∈ cs.head?, isBlank c = false) :
    cs.dropWhile isBlank = cs := by
  cases cs with
  | nil => rfl
  | cons c cs => exact List.dropWhile_cons_of_neg (by simp [h c rfl])

theorem trimChars_of_blank {cs : List Char} (h : Blank cs) : trimChars cs = [] := by
  have hdrop : (cs ++ []).dropWhile isBlank = [] := List.dropWhile_append_of_pos h
  rw [trimChars, ← List.append_nil cs, hdrop]
  rfl

/-- Trimming takes off the blank characters at the two ends. -/
theorem trimChars_append {before cs after : List Char} (hbefore : Blank before) (hcs : Trimmed cs)
    (hafter : Blank after) : trimChars (before ++ (cs ++ after)) = cs := by
  by_cases hne : cs = []
  · rw [hne, List.nil_append]
    exact trimChars_of_blank (List.forall_mem_append.2 ⟨hbefore, hafter⟩)
  · have hfirst : (cs ++ after).dropWhile isBlank = cs ++ after := by
      refine dropWhile_isBlank_eq_self fun c hc ↦ hcs.1 c ?_
      obtain ⟨d, ds, rfl⟩ := List.exists_cons_of_ne_nil hne
      exact hc
    have hlast : cs.reverse.dropWhile isBlank = cs.reverse := by
      refine dropWhile_isBlank_eq_self fun c hc ↦ hcs.2 c ?_
      rwa [List.head?_reverse] at hc
    have hback : ∀ c ∈ after.reverse, isBlank c = true := fun c hc ↦
      hafter c (List.mem_reverse.1 hc)
    rw [trimChars, List.dropWhile_append_of_pos hbefore, hfirst, List.reverse_append,
      List.dropWhile_append_of_pos hback, hlast, List.reverse_reverse]

/-- What is dropped is blank, and what is left does not begin with a blank character. -/
theorem exists_blank_append_dropWhile (cs : List Char) :
    ∃ before, Blank before ∧ cs = before ++ cs.dropWhile isBlank ∧
      ∀ c ∈ (cs.dropWhile isBlank).head?, isBlank c = false := by
  refine ⟨cs.takeWhile isBlank, fun c hc ↦ List.all_eq_true.1 List.all_takeWhile c hc,
    List.takeWhile_append_dropWhile.symm, fun c hc ↦ ?_⟩
  have hnot := List.head?_dropWhile_not isBlank cs
  rwa [Option.mem_def.1 hc] at hnot

/-- **What trimming leaves** is the part of a text between blank characters that neither begins nor
ends in one. There is only one. -/
theorem trimChars_eq_iff {cs ds : List Char} :
    trimChars cs = ds ↔
      Trimmed ds ∧ ∃ before after, Blank before ∧ Blank after ∧ cs = before ++ (ds ++ after) := by
  constructor
  · rintro rfl
    obtain ⟨before, hbefore, hcs, hfirst⟩ := exists_blank_append_dropWhile cs
    obtain ⟨after, hafter, hrev, hlast⟩ :=
      exists_blank_append_dropWhile (cs.dropWhile isBlank).reverse
    have hleft : cs.dropWhile isBlank = trimChars cs ++ after.reverse := by
      have hcut := congrArg List.reverse hrev
      rwa [List.reverse_reverse, List.reverse_append] at hcut
    refine ⟨⟨fun c hc ↦ hfirst c ?_, fun c hc ↦ hlast c ?_⟩, before, after.reverse, hbefore,
      fun c hc ↦ hafter c (List.mem_reverse.1 hc), ?_⟩
    · rw [hleft, List.head?_append, Option.mem_def.1 hc]
      rfl
    · rwa [trimChars, List.getLast?_reverse] at hc
    · rw [← hleft]
      exact hcs
  · rintro ⟨hds, before, after, hbefore, hafter, rfl⟩
    exact trimChars_append hbefore hds hafter

/-- Nothing is left of a text exactly if it is blank all over. -/
theorem trim_eq_empty_iff {text : String} : trim text = "" ↔ Blank text.toList := by
  have hempty : trim text = "" ↔ trimChars text.toList = [] := by
    rw [trim, ← String.toList_inj, String.toList_ofList, String.toList_empty]
  rw [hempty]
  constructor
  · intro h
    obtain ⟨-, before, after, hbefore, hafter, hcs⟩ := trimChars_eq_iff.1 h
    rw [hcs, List.nil_append]
    exact List.forall_mem_append.2 ⟨hbefore, hafter⟩
  · exact trimChars_of_blank

/-- **The core of a text** stands between blank characters, and neither begins nor ends in one. -/
def IsCore (core text : String) : Prop :=
  Trimmed core.toList ∧ ∃ before after : String,
    Blank before.toList ∧ Blank after.toList ∧ text = before ++ core ++ after

/-- Trimming leaves the core of a text, so a text has exactly one. -/
theorem trim_eq_iff {text core : String} : trim text = core ↔ IsCore core text := by
  rw [trim, ← String.toList_inj, String.toList_ofList, trimChars_eq_iff]
  refine and_congr_right fun _ ↦ ?_
  constructor
  · rintro ⟨before, after, hbefore, hafter, htext⟩
    refine ⟨String.ofList before, String.ofList after, ?_, ?_, ?_⟩
    · rwa [String.toList_ofList]
    · rwa [String.toList_ofList]
    · rw [← String.toList_inj, htext]
      simp
  · rintro ⟨before, after, hbefore, hafter, rfl⟩
    exact ⟨_, _, hbefore, hafter, by simp⟩

end TaskStatus
