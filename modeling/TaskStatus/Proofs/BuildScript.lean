import TaskStatus.BuildStamp
import TaskStatus.Proofs.TextBytes
import TaskStatus.Proofs.TrimmedText

/-!
# What a build is stamped with

The script that stamps a build makes at most two calls of git, and each may go wrong in several
ways. For the script there are only two kinds of answers: those that say a text (`Says`), and those
that are of no use (`Unusable`), whatever the reason. So a run has three outcomes (`run_script`), and
all of them end well:

* without a usable answer on the commit, the stamp is `nogit` and changes are not asked for;
* otherwise the stamp begins with the commit, which the answer on changes cannot alter
  (`run_script_exact`);
* and it is marked with `.dirty` exactly if this answer says something that is not blank.

The mark needs a *text*. A report on changes is bytes, though, with the names of files in it, and
these need not be text. A report that is text and tells of a change is not blank, since one of the
two characters in front of a name is not; with a report that is no text the build looks clean
(`marked_iff_of_change`).
-/

namespace TaskStatus

namespace BuildStamp

/-! ### What an answer says -/

/-- An answer **says** a text: the run of git succeeded and printed it. -/
def Says (answer : Option GitAnswer) (text : String) : Prop :=
  answer = some ⟨Bytes.ofText text, some 0⟩

/-- An answer is of **no use**. -/
inductive Unusable : Option GitAnswer → Prop where
  /-- Git could not be started. -/
  | unstarted : Unusable none
  /-- Git failed, or was killed. -/
  | failed {output : Bytes} {status : Option Int} :
    status ≠ some 0 → Unusable (some ⟨output, status⟩)
  /-- What git printed is no text. -/
  | illegible {output : Bytes} {status : Option Int} :
    (∀ text, output ≠ Bytes.ofText text) → Unusable (some ⟨output, status⟩)

/-- An answer tells of changes: it says something that is not blank. -/
def TellsChanges (answer : Option GitAnswer) : Prop :=
  ∃ report, Says answer report ∧ ¬ Blank report.toList

/-- The text that is taken from an answer is what the answer says, without blank ends. -/
theorem answerText?_eq_some_iff {answer : Option GitAnswer} {core : String} :
    answerText? answer = some core ↔ ∃ text, Says answer text ∧ trim text = core := by
  constructor
  · intro h
    rw [answerText?.eq_def] at h
    split at h
    · next output =>
      obtain ⟨text, htext, hcore⟩ := Option.map_eq_some_iff.1 h
      obtain rfl := Bytes.text?_eq_some_iff.1 htext
      exact ⟨text, rfl, hcore⟩
    · cases h
  · rintro ⟨text, rfl, rfl⟩
    rw [answerText?, Bytes.text?_ofText, Option.map_some]

/-- An answer says one text at most. -/
theorem Says.unique {answer : Option GitAnswer} {text text' : String} (h : Says answer text)
    (h' : Says answer text') : text = text' := by
  have hboth := h.symm.trans h'
  rw [Option.some.injEq, GitAnswer.mk.injEq] at hboth
  have htext := congrArg Bytes.text? hboth.1
  rwa [Bytes.text?_ofText, Bytes.text?_ofText, Option.some.injEq] at htext

/-- What is no use says nothing. -/
theorem Unusable.says_nothing {answer : Option GitAnswer} (h : Unusable answer) (text : String) :
    ¬ Says answer text := by
  rintro rfl
  cases h with
  | failed hstatus => exact hstatus rfl
  | illegible htext => exact htext text rfl

/-- And what says nothing is no use. -/
theorem says_or_unusable (answer : Option GitAnswer) :
    (∃ text, Says answer text) ∨ Unusable answer := by
  rcases answer with - | ⟨output, status⟩
  · exact .inr .unstarted
  · by_cases hstatus : status = some 0
    · by_cases htext : ∃ text, output = Bytes.ofText text
      · obtain ⟨text, rfl⟩ := htext
        exact .inl ⟨text, by rw [hstatus]; rfl⟩
      · exact .inr (.illegible (not_exists.1 htext))
    · exact .inr (.failed hstatus)

theorem answerText?_eq_none_iff {answer : Option GitAnswer} :
    answerText? answer = none ↔ Unusable answer := by
  constructor
  · intro h
    rcases says_or_unusable answer with ⟨text, htext⟩ | hno
    · rw [answerText?_eq_some_iff.2 ⟨text, htext, rfl⟩] at h
      cases h
    · exact hno
  · intro h
    refine Option.eq_none_iff_forall_ne_some.2 fun core hcore ↦ ?_
    obtain ⟨text, htext, -⟩ := answerText?_eq_some_iff.1 hcore
    exact h.says_nothing text htext

/-- Nothing is left of an answer that tells of no changes. -/
theorem getD_answerText?_eq_empty_iff {answer : Option GitAnswer} :
    (answerText? answer).getD "" = "" ↔ ¬ TellsChanges answer := by
  rcases says_or_unusable answer with ⟨text, htext⟩ | hno
  · rw [answerText?_eq_some_iff.2 ⟨text, htext, rfl⟩, Option.getD_some, trim_eq_empty_iff]
    constructor
    · rintro hblank ⟨report, hreport, hne⟩
      exact hne (htext.unique hreport ▸ hblank)
    · exact fun h ↦ Classical.not_not.1 fun hne ↦ h ⟨text, htext, hne⟩
  · rw [answerText?_eq_none_iff.2 hno]
    refine iff_of_true rfl ?_
    rintro ⟨report, hreport, -⟩
    exact hno.says_nothing report hreport

/-! ### Running a script -/

section

variable (git : Git)

@[simp] theorem Script.run_exit (status : Nat) : (exit status).run git = ⟨[], "", status⟩ := rfl

@[simp] theorem Script.run_print (line : String) (next : Script) :
    (print line next).run git =
      { next.run git with output := line ++ "\n" ++ (next.run git).output } := rfl

@[simp] theorem Script.run_ask (query : GitQuery) (next : Option String → Script) :
    (ask query next).run git =
      { (next (answerText? (git query))).run git with
        calls := query :: ((next (answerText? (git query))).run git).calls } := rfl

@[simp] theorem Script.run_announce (stamp : String) :
    (announce stamp).run git = ⟨[], "cargo:rustc-env=SP_STATUS_BUILD=" ++ stamp ++ "\n", 0⟩ := by
  rw [announce, run_print, run_exit, String.append_empty]

end

/-- The course of a script that tries some calls, says when to stamp again, hands a stamp to the
build tool and exits with success. -/
def stamping (calls : List GitQuery) (stamp : String) : Course where
  calls := calls
  output := "cargo:rerun-if-changed=.git/HEAD\n" ++ ("cargo:rerun-if-changed=.git/index\n" ++
    ("cargo:rustc-env=SP_STATUS_BUILD=" ++ stamp ++ "\n"))
  status := 0

/-- **A run of the script**, in terms of what is taken from the two answers. -/
theorem run_script (git : Git) :
    script.run git =
      match answerText? (git .commit) with
      | none => stamping [.commit] "nogit"
      | some sha => stamping [.commit, .changes]
          (if (answerText? (git .changes)).getD "" = "" then sha else sha ++ ".dirty") := by
  rcases hcommit : answerText? (git .commit) with - | sha
  · simp only [script, Script.run_print, Script.run_ask, Script.run_announce, hcommit]
    rfl
  · simp only [script, Script.run_print, Script.run_ask, Script.run_announce, hcommit]
    rfl

/-- Whatever git answers, there are three directives. -/
theorem exists_directives_eq (git : Git) : ∃ stamp, directives git =
    "cargo:rerun-if-changed=.git/HEAD\n" ++ ("cargo:rerun-if-changed=.git/index\n" ++
      ("cargo:rustc-env=SP_STATUS_BUILD=" ++ stamp ++ "\n")) := by
  rw [directives, run_script]
  split
  · exact ⟨_, rfl⟩
  · exact ⟨_, rfl⟩

/-! ### The stamp -/

section

variable {git : Git} {text : String}

theorem run_script_of_unusable (h : Unusable (git .commit)) :
    script.run git = stamping [.commit] "nogit" := by
  rw [run_script, answerText?_eq_none_iff.2 h]

theorem run_script_of_tellsChanges (h : Says (git .commit) text)
    (hchanges : TellsChanges (git .changes)) :
    script.run git = stamping [.commit, .changes] (trim text ++ ".dirty") := by
  have hne : (answerText? (git .changes)).getD "" ≠ "" := fun hempty ↦
    getD_answerText?_eq_empty_iff.1 hempty hchanges
  rw [run_script, answerText?_eq_some_iff.2 ⟨text, h, rfl⟩]
  exact congrArg (stamping _) (if_neg hne)

theorem run_script_of_not_tellsChanges (h : Says (git .commit) text)
    (hchanges : ¬ TellsChanges (git .changes)) :
    script.run git = stamping [.commit, .changes] (trim text) := by
  have hempty : (answerText? (git .changes)).getD "" = "" :=
    getD_answerText?_eq_empty_iff.2 hchanges
  rw [run_script, answerText?_eq_some_iff.2 ⟨text, h, rfl⟩]
  exact congrArg (stamping _) (if_pos hempty)

/-- With a usable answer on the commit both calls are tried. -/
theorem calls_of_says (h : Says (git .commit) text) :
    (script.run git).calls = [.commit, .changes] := by
  by_cases hchanges : TellsChanges (git .changes)
  · rw [run_script_of_tellsChanges h hchanges, stamping]
  · rw [run_script_of_not_tellsChanges h hchanges, stamping]

end

/-- **What a build is stamped with**, for every two answers of git. Each run ends with success, and
hands three directives to the build tool.

* If the answer on the commit is of no use, the stamp is `nogit`, and changes are not asked for. The
  call reaches git if git can be started.
* Otherwise git is called once more. The stamp is the text of the first answer without the blank
  characters at its ends, whatever becomes of the second call; it is followed by `.dirty` if this
  succeeds and says something that is not blank, and by nothing otherwise. The second call reaches
  git if git can still be started. -/
theorem run_script_exact (commit : Option GitAnswer) :
    (Unusable commit → ∀ changes,
      script.run (Git.answering commit changes) = stamping [.commit] "nogit" ∧
      reached (Git.answering commit changes) = if commit.isSome then [.commit] else []) ∧
    (∀ text, Says commit text → ∃ sha, IsCore sha text ∧ ∀ changes,
      (TellsChanges changes → script.run (Git.answering commit changes) =
        stamping [.commit, .changes] (sha ++ ".dirty")) ∧
      (¬ TellsChanges changes → script.run (Git.answering commit changes) =
        stamping [.commit, .changes] sha) ∧
      reached (Git.answering commit changes) =
        .commit :: if changes.isSome then [.changes] else []) ∧
    ((∃ text, Says commit text) ∨ Unusable commit) ∧
    ∀ changes, ∃ stamp, directives (Git.answering commit changes) =
      "cargo:rerun-if-changed=.git/HEAD\n" ++ ("cargo:rerun-if-changed=.git/index\n" ++
        ("cargo:rustc-env=SP_STATUS_BUILD=" ++ stamp ++ "\n")) := by
  refine ⟨fun hno changes ↦ ?_, fun text htext ↦ ?_, says_or_unusable commit,
    fun changes ↦ exists_directives_eq _⟩
  · have hrun : script.run (Git.answering commit changes) = stamping [.commit] "nogit" :=
      run_script_of_unusable hno
    refine ⟨hrun, ?_⟩
    rw [reached, hrun]
    cases commit <;> rfl
  · refine ⟨trim text, trim_eq_iff.1 rfl, fun changes ↦ ?_⟩
    have hcommit : Says (Git.answering commit changes .commit) text := htext
    refine ⟨run_script_of_tellsChanges hcommit, run_script_of_not_tellsChanges hcommit, ?_⟩
    rw [reached, calls_of_says hcommit, htext]
    cases changes <;> rfl

/-- White space of two bytes in front of the commit, and a second call that is killed after it has
printed a change. -/
theorem run_script_of_killed :
    let commit : Option GitAnswer := some ⟨Bytes.ofText "\u00a01a2b3c4 \r\n", some 0⟩
    let killed : Option GitAnswer := some ⟨Bytes.ofText " M a\n", none⟩
    Says commit "\u00a01a2b3c4 \r\n" ∧ ¬ TellsChanges killed ∧
      script.run (Git.answering commit killed) = stamping [.commit, .changes] "1a2b3c4" := by
  intro commit killed
  have hfailed : Unusable killed := .failed (by decide)
  have hno : ¬ TellsChanges killed := fun ⟨report, hreport, _⟩ ↦ hfailed.says_nothing report hreport
  obtain ⟨sha, hsha, hrun⟩ := (run_script_exact commit).2.1 _ rfl
  obtain rfl : sha = "1a2b3c4" := by
    rw [← trim_eq_iff.2 hsha]
    decide
  exact ⟨rfl, hno, (hrun killed).2.1 hno⟩

/-! ### Reports on changes -/

/-- A **status character** of a report: a printable character of ASCII. -/
def IsStatus (b : UInt8) : Prop := 0x20 ≤ b ∧ b < 0x7F

instance (b : UInt8) : Decidable (IsStatus b) := inferInstanceAs (Decidable (_ ∧ _))

/-- A line of a report that **tells of a change**: two status characters that are not both blank, a
blank, and the name of a file. -/
def IsChange (line : Bytes) : Prop :=
  ∃ x y name, line = x :: y :: 0x20 :: name ∧ IsStatus x ∧ IsStatus y ∧ ¬ (x = 0x20 ∧ y = 0x20) ∧
    name ≠ [] ∧ Bytes.newline ∉ name

/-- Bytes have a line: it stands between line feeds, or at an end. -/
def HasLine (b line : Bytes) : Prop :=
  ∃ before after, b = before ++ (line ++ after) ∧
    (∀ c ∈ before.getLast?, c = Bytes.newline) ∧ ∀ c ∈ after.head?, c = Bytes.newline

/-- Behind the last line stands a line feed. -/
theorem hasLine_concat_newline (line : Bytes) : HasLine (line ++ [Bytes.newline]) line :=
  ⟨[], [Bytes.newline], rfl, nofun, fun _ hc ↦ (Option.some.inj hc).symm⟩

/-- A stamp is **marked** as that of a build with changes. -/
def Marked (stamp : String) : Prop := ".dirty".toList <:+ stamp.toList

instance (stamp : String) : Decidable (Marked stamp) := inferInstanceAs (Decidable (_ <:+ _))

theorem marked_append (sha : String) : Marked (sha ++ ".dirty") := by
  rw [Marked, String.toList_append]
  exact List.suffix_append _ _

/-- A character of ASCII that is printed, and is no blank, is not white space. -/
theorem isBlank_eq_false_of_isStatus {b : UInt8} (h : IsStatus b) (hne : b ≠ 0x20) {c : Char}
    (hc : c.toNat = b.toNat) : isBlank c = false := by
  have hlow : 0x20 ≤ b.toNat := UInt8.le_iff_toNat_le.1 h.1
  have hhigh : b.toNat < 0x7F := UInt8.lt_iff_toNat_lt.1 h.2
  have hblank : b.toNat ≠ 0x20 := fun heq ↦ hne (UInt8.toNat_inj.1 heq)
  simp only [isBlank, hc, Bool.or_eq_false_iff, Bool.and_eq_false_iff, decide_eq_false_iff_not,
    beq_eq_false_iff_ne]
  omega

/-- **A text that tells of a change is not blank**: one of the two status characters is not. -/
theorem not_blank_of_isChange {text : String} {line : Bytes} (hline : IsChange line)
    (h : HasLine (Bytes.ofText text) line) : ¬ Blank text.toList := by
  obtain ⟨x, y, name, rfl, hx, hy, hne, -⟩ := hline
  obtain ⟨before, after, htext, -⟩ := h
  obtain ⟨b, hmem, hb, hbne⟩ : ∃ b ∈ Bytes.ofText text, IsStatus b ∧ b ≠ 0x20 := by
    rcases Decidable.not_and_iff_or_not.1 hne with hx' | hy'
    · exact ⟨x, by simp [htext], hx, hx'⟩
    · exact ⟨y, by simp [htext], hy, hy'⟩
  have hascii : b < 0x80 := UInt8.lt_trans hb.2 (by decide)
  obtain ⟨c, hc, hcb⟩ := (Bytes.mem_ofText_iff hascii).1 hmem
  intro hblank
  have hcontra := hblank c hc
  rw [isBlank_eq_false_of_isStatus hb hbne hcb] at hcontra
  cases hcontra

/-- **When a build with changes is marked.** Where git names a commit and its report has a line that
tells of a change, the stamp is marked exactly if the report is text, unless the commit itself ends
like a mark. With a report that is no text the stamp is that of a build without changes. -/
theorem marked_iff_of_change (git : Git) (commit : String) (report : Bytes)
    (hcommit : Says (git .commit) commit) (hreport : git .changes = some ⟨report, some 0⟩)
    (hchange : ∃ line, IsChange line ∧ HasLine report line) :
    ∃ sha stamp, IsCore sha commit ∧ script.run git = stamping [.commit, .changes] stamp ∧
      ((∃ text, report = Bytes.ofText text) → stamp = sha ++ ".dirty") ∧
      ((∀ text, report ≠ Bytes.ofText text) → stamp = sha) ∧
      (Marked stamp ↔ (∃ text, report = Bytes.ofText text) ∨ Marked sha) := by
  have hcore : IsCore (trim commit) commit := trim_eq_iff.1 rfl
  obtain ⟨line, hline, hhas⟩ := hchange
  by_cases htext : ∃ text, report = Bytes.ofText text
  · obtain ⟨text, rfl⟩ := htext
    have hchanges : TellsChanges (git .changes) :=
      ⟨text, hreport, not_blank_of_isChange hline hhas⟩
    refine ⟨trim commit, trim commit ++ ".dirty", hcore,
      run_script_of_tellsChanges hcommit hchanges, fun _ ↦ rfl, fun hno ↦ absurd rfl (hno text), ?_⟩
    exact iff_of_true (marked_append _) (.inl ⟨text, rfl⟩)
  · have hchanges : ¬ TellsChanges (git .changes) := by
      rintro ⟨text, htold, -⟩
      rw [hreport] at htold
      exact (Unusable.illegible (not_exists.1 htext)).says_nothing text htold
    exact ⟨trim commit, trim commit, hcore, run_script_of_not_tellsChanges hcommit hchanges,
      fun h ↦ absurd h htext, fun _ ↦ rfl, (or_iff_right htext).symm⟩

/-- A changed file whose name has a character of two bytes. -/
theorem marked_of_accentedName :
    let commit : String := "1a2b3c4\n"
    let report : Bytes := Bytes.ofText " M src/caf\u00e9.rs\n"
    let git := Git.answering (some ⟨Bytes.ofText commit, some 0⟩) (some ⟨report, some 0⟩)
    Says (git .commit) commit ∧ git .changes = some ⟨report, some 0⟩ ∧
      (∃ line, IsChange line ∧ HasLine report line) ∧
      ∃ stamp, script.run git = stamping [.commit, .changes] stamp ∧ Marked stamp := by
  intro commit report git
  have hchange : ∃ line, IsChange line ∧ HasLine report line := by
    have hreport : report = Bytes.ofText " M src/caf\u00e9.rs" ++ [Bytes.newline] := by
      decide +kernel
    rw [hreport]
    refine ⟨_, ⟨0x20, 0x4D, Bytes.ofText "src/caf\u00e9.rs", ?_⟩, hasLine_concat_newline _⟩
    decide +kernel
  obtain ⟨sha, stamp, -, hrun, -, -, hiff⟩ := marked_iff_of_change git commit report rfl rfl hchange
  exact ⟨rfl, rfl, hchange, stamp, hrun, hiff.2 (.inl ⟨_, rfl⟩)⟩

/-- A changed file whose name is a single byte that is no text: the build looks clean. -/
theorem not_marked_of_illegibleName :
    let report : Bytes := [0x20, 0x4D, 0x20, 0xFF, 0x0A]
    let git := Git.answering (some ⟨Bytes.ofText "1a2b3c4\n", some 0⟩) (some ⟨report, some 0⟩)
    (∃ line, IsChange line ∧ HasLine report line) ∧
      script.run git = stamping [.commit, .changes] "1a2b3c4" ∧ ¬ Marked "1a2b3c4" := by
  intro report git
  let line : Bytes := [0x20, 0x4D, 0x20, 0xFF]
  have hchange : IsChange line :=
    ⟨0x20, 0x4D, [0xFF], rfl, by decide, by decide, by decide, by decide, by decide⟩
  have hline : HasLine report line := hasLine_concat_newline line
  exact ⟨⟨line, hchange, hline⟩, by decide +kernel, by decide⟩

end BuildStamp

end TaskStatus
