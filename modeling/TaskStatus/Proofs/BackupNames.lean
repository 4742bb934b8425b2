import TaskStatus.Proofs.EntryPath

/-!
# Which paths have the name of a backup

The extension of a path is read off its last component, and components are found by splitting at
slashes. Here the same is said of the bytes of the path, for every path: slashes at its end and
single dots behind them do not count (`Trailing`), and what stands before them and behind the last
slash is the name (`fileName?_eq_some_iff`). So a path has the name of a backup exactly if this part
of it is `.json` behind something else (`isBackup_exact`), and what stands in front of the name
never matters (`isBackup_append`).

Between the two readings of a path stands `exists_of_splitSlashes_eq_append`: where the segments of
a path are cut in two, the path is cut at a slash.
-/

namespace TaskStatus.Path

/-! ### Cutting a path between its segments -/

/-- The segments on both sides of a cut are those of the bytes on both sides of a slash. -/
theorem exists_of_splitSlashes_eq_append {b : Bytes} {ss ts : List Bytes} (hss : ss ≠ [])
    (hts : ts ≠ []) (h : splitSlashes b = ss ++ ts) :
    ∃ c d, b = c ++ slash :: d ∧ splitSlashes c = ss ∧ splitSlashes d = ts := by
  induction b generalizing ss with
  | nil =>
    obtain ⟨s, ss, rfl⟩ := List.exists_cons_of_ne_nil hss
    have hnil : ss ++ ts = [] := (List.cons.inj h).2.symm
    exact absurd (List.append_eq_nil_iff.1 hnil).2 hts
  | cons x b ih =>
    obtain ⟨s, ss, rfl⟩ := List.exists_cons_of_ne_nil hss
    rw [splitSlashes, List.cons_append] at h
    split at h
    · next hx =>
      obtain ⟨rfl, hrest⟩ := List.cons.inj h
      by_cases hempty : ss = []
      · subst hempty hx
        exact ⟨[], b, rfl, rfl, hrest⟩
      · obtain ⟨c, d, rfl, hc, hd⟩ := ih hempty hrest
        refine ⟨x :: c, d, rfl, ?_, hd⟩
        rw [splitSlashes, if_pos hx, hc]
    · next hx =>
      obtain ⟨t, us, hsplit⟩ := List.exists_cons_of_ne_nil (splitSlashes_ne_nil b)
      simp only [hsplit] at h
      obtain ⟨rfl, rfl⟩ := List.cons.inj h
      obtain ⟨c, d, rfl, hc, hd⟩ := ih (List.cons_ne_nil t ss) hsplit
      refine ⟨x :: c, d, rfl, ?_, hd⟩
      rw [splitSlashes, if_neg hx, hc]

/-- Segments have no slashes. -/
theorem slash_notMem_of_mem_splitSlashes {b s : Bytes} (h : s ∈ splitSlashes b) : slash ∉ s := by
  induction b generalizing s with
  | nil =>
    rw [splitSlashes, List.mem_singleton] at h
    rw [h]
    exact List.not_mem_nil
  | cons x b ih =>
    rw [splitSlashes] at h
    split at h
    · rcases List.mem_cons.1 h with rfl | hs
      · exact List.not_mem_nil
      · exact ih hs
    · next hx =>
      obtain ⟨t, ts, hsplit⟩ := List.exists_cons_of_ne_nil (splitSlashes_ne_nil b)
      simp only [hsplit] at h ih
      rcases List.mem_cons.1 h with rfl | hs
      · rw [List.mem_cons, not_or]
        exact ⟨Ne.symm hx, ih List.mem_cons_self⟩
      · exact ih (List.mem_cons_of_mem t hs)

/-- A single segment is the path itself. -/
theorem eq_of_splitSlashes_eq_singleton {b s : Bytes} (h : splitSlashes b = [s]) : b = s := by
  induction b generalizing s with
  | nil => exact (List.cons.inj h).1
  | cons x b ih =>
    rw [splitSlashes] at h
    split at h
    · exact absurd (List.cons.inj h).2 (splitSlashes_ne_nil b)
    · obtain ⟨t, ts, hsplit⟩ := List.exists_cons_of_ne_nil (splitSlashes_ne_nil b)
      simp only [hsplit] at h
      obtain ⟨rfl, rfl⟩ := List.cons.inj h
      rw [ih hsplit]

/-! ### The end of a path -/

/-- **What does not count at the end of a path**: slashes, each of them with or without a single dot
behind it. -/
inductive Trailing : Bytes → Prop where
  | nil : Trailing []
  | slash {b : Bytes} : Trailing b → Trailing (slash :: b)
  | dot {b : Bytes} : Trailing b → Trailing (slash :: dot :: b)

/-- What may stand in front of a component: nothing, or bytes up to a slash. -/
def Leading (b : Bytes) : Prop := ∀ c ∈ b.getLast?, c = slash

theorem leading_nil : Leading [] := nofun

theorem leading_concat_slash (b : Bytes) : Leading (b ++ [slash]) := by
  intro c hc
  rw [List.getLast?_concat] at hc
  exact (Option.some.inj hc).symm

theorem Leading.eq_nil_or_concat {b : Bytes} (h : Leading b) : b = [] ∨ ∃ c, b = c ++ [slash] := by
  rcases List.eq_nil_or_concat b with rfl | ⟨c, x, rfl⟩
  · exact .inl rfl
  · obtain rfl : x = slash := h x (by rw [List.concat_eq_append, List.getLast?_concat]; rfl)
    exact .inr ⟨c, List.concat_eq_append⟩

/-- Behind a name the end of a path stays where it is. -/
theorem Trailing.steps_append {b : Bytes} (h : Trailing b) (a : Bytes) :
    ∃ stays, (Path.mk (a ++ b)).steps = (Path.mk a).steps ++ stays ∧ ∀ s ∈ stays, s = .stay := by
  induction h generalizing a with
  | nil => exact ⟨[], by simp, List.forall_mem_nil _⟩
  | @slash b _ ih =>
    obtain ⟨stays, hsteps, hstays⟩ := ih (a ++ [TaskStatus.slash])
    have hslash : (Path.mk (a ++ [TaskStatus.slash])).steps = (Path.mk a).steps ++ [.stay] :=
      steps_append_slash a []
    refine ⟨.stay :: stays, ?_, List.forall_mem_cons.2 ⟨rfl, hstays⟩⟩
    rw [List.append_assoc, List.singleton_append, hslash, List.append_assoc] at hsteps
    exact hsteps
  | @dot b _ ih =>
    obtain ⟨stays, hsteps, hstays⟩ := ih (a ++ [TaskStatus.slash, TaskStatus.dot])
    have hdot : (Path.mk (a ++ [TaskStatus.slash, TaskStatus.dot])).steps =
        (Path.mk a).steps ++ [.stay] := steps_append_slash a [TaskStatus.dot]
    refine ⟨.stay :: stays, ?_, List.forall_mem_cons.2 ⟨rfl, hstays⟩⟩
    rw [List.append_assoc, hdot, List.append_assoc] at hsteps
    exact hsteps

/-- Segments that lead nowhere are the end of a path. -/
theorem trailing_slash_of_splitSlashes {b : Bytes} {ss : List Bytes} (hb : splitSlashes b = ss)
    (h : ∀ s ∈ ss, s = [] ∨ s = [dot]) : Trailing (slash :: b) := by
  have hcons {s c : Bytes} (hs : s = [] ∨ s = [dot]) (hc : Trailing c) :
      Trailing (slash :: (s ++ c)) := by
    rcases hs with rfl | rfl
    · exact .slash hc
    · exact .dot hc
  induction ss generalizing b with
  | nil => exact absurd hb (splitSlashes_ne_nil b)
  | cons s ss ih =>
    obtain ⟨hs, hss⟩ := List.forall_mem_cons.1 h
    by_cases hempty : ss = []
    · subst hempty
      rw [eq_of_splitSlashes_eq_singleton hb, ← List.append_nil s]
      exact hcons hs .nil
    · obtain ⟨c, d, rfl, hc, hd⟩ :=
        exists_of_splitSlashes_eq_append (List.cons_ne_nil s []) hempty hb
      rw [eq_of_splitSlashes_eq_singleton hc]
      exact hcons hs (ih hd hss)

/-! ### The name that a path ends in -/

theorem Step.ofSegment_eq_enter_iff {s : Bytes} {n : Name} :
    Step.ofSegment s = .enter n ↔ s = n.bytes := by
  constructor
  · intro h
    rw [ofSegment] at h
    split at h
    · cases h
    · split at h
      · rw [← Step.enter.inj h]
      · cases h
  · rintro rfl
    exact ofSegment_bytes n

/-- A segment that leads nowhere is empty or a single dot. -/
theorem Step.eq_nil_or_dot_of_ofSegment {s : Bytes} (hs : slash ∉ s)
    (h : Step.ofSegment s = .stay) : s = [] ∨ s = [dot] := by
  rw [ofSegment] at h
  split at h
  · cases h
  · next hup =>
    split at h
    · cases h
    · next hname =>
      by_cases hempty : s = []
      · exact .inl hempty
      · exact .inr (Classical.not_not.1 fun hdot ↦ hname ⟨hempty, hdot, hup, hs⟩)

/-- A path does not start with a name: its root and a single dot are none. -/
theorem named_notMem_start (p : Path) (n : Name) : .named n ∉ p.start := by
  rw [start]
  split
  · simp
  · split <;> simp

/-- The file name is the last name on the way, if nothing but staying follows it. -/
theorem fileName?_eq_some_iff_steps {p : Path} {n : Name} :
    p.fileName? = some n ↔
      ∃ before stays, p.steps = before ++ .enter n :: stays ∧ ∀ s ∈ stays, s = .stay := by
  have hlast : p.fileName? = some n ↔ p.components.getLast? = some (.named n) := by
    rw [fileName?]
    split <;> simp_all
  have hstay {s : Step} : Component.ofStep? s = none ↔ s = .stay := by
    cases s <;> simp [Component.ofStep?]
  have hname {s : Step} : Component.ofStep? s = some (.named n) ↔ s = .enter n := by
    cases s <;> simp [Component.ofStep?]
  rw [hlast, components, List.getLast?_append, List.getLast?_filterMap, Option.or_eq_some_iff]
  constructor
  · rintro (h | ⟨-, h⟩)
    · obtain ⟨stays, s, before, hrev, hs, hstays⟩ := List.findSome?_eq_some_iff.1 h
      obtain rfl := hname.1 hs
      refine ⟨before.reverse, stays.reverse, ?_, fun s hs ↦ ?_⟩
      · have hsteps := congrArg List.reverse hrev
        rwa [List.reverse_reverse, List.reverse_append, List.reverse_cons,
          List.append_assoc] at hsteps
      · exact hstay.1 (hstays s (List.mem_reverse.1 hs))
    · exact absurd (List.mem_of_getLast? h) (p.named_notMem_start n)
  · rintro ⟨before, stays, hsteps, hstays⟩
    refine .inl (List.findSome?_eq_some_iff.2 ⟨stays.reverse, .enter n, before.reverse, ?_,
      hname.2 rfl, fun s hs ↦ hstay.2 (hstays s (List.mem_reverse.1 hs))⟩)
    rw [hsteps, List.reverse_append, List.reverse_cons, List.append_assoc]
    rfl

/-- A name at the end of a path is its last step. -/
theorem exists_steps_append_bytes {b : Bytes} (h : Leading b) (n : Name) :
    ∃ before, (Path.mk (b ++ n.bytes)).steps = before ++ [.enter n] := by
  rcases h.eq_nil_or_concat with rfl | ⟨c, rfl⟩
  · exact ⟨[], steps_bytes n⟩
  · refine ⟨(Path.mk c).steps, ?_⟩
    rw [List.append_assoc, List.singleton_append, steps_append_slash, steps_bytes]

/-- **The name that a path ends in**, by the bytes of the path: behind the start or a slash, and in
front of an end that does not count. -/
theorem fileName?_eq_some_iff {p : Path} {n : Name} :
    p.fileName? = some n ↔
      ∃ before after, p.bytes = before ++ (n.bytes ++ after) ∧ Leading before ∧ Trailing after := by
  rw [fileName?_eq_some_iff_steps]
  constructor
  · rintro ⟨before, stays, hsteps, hstays⟩
    obtain ⟨ss, ts, hsplit, -, hts⟩ := List.map_eq_append_iff.1 hsteps
    obtain ⟨s, us, rfl, hs, rfl⟩ := List.map_eq_cons_iff.1 hts
    obtain rfl := Step.ofSegment_eq_enter_iff.1 hs
    have hus : ∀ u ∈ us, u = [] ∨ u = [dot] := by
      intro u hu
      have hmem : u ∈ splitSlashes p.bytes := by
        rw [hsplit]
        exact List.mem_append_right _ (List.mem_cons_of_mem _ hu)
      exact Step.eq_nil_or_dot_of_ofSegment (slash_notMem_of_mem_splitSlashes hmem)
        (hstays _ (List.mem_map_of_mem hu))
    -- what begins with the segment of the name is the name and an end that does not count
    have hback {b : Bytes} (hb : splitSlashes b = n.bytes :: us) :
        ∃ after, b = n.bytes ++ after ∧ Trailing after := by
      by_cases hempty : us = []
      · subst hempty
        exact ⟨[], by rw [List.append_nil, eq_of_splitSlashes_eq_singleton hb], .nil⟩
      · obtain ⟨c, d, rfl, hc, hd⟩ :=
          exists_of_splitSlashes_eq_append (List.cons_ne_nil n.bytes []) hempty hb
        exact ⟨slash :: d, by rw [eq_of_splitSlashes_eq_singleton hc],
          trailing_slash_of_splitSlashes hd hus⟩
    by_cases hempty : ss = []
    · subst hempty
      obtain ⟨after, hafter, htrailing⟩ := hback hsplit
      exact ⟨[], after, hafter, leading_nil, htrailing⟩
    · obtain ⟨c, d, hbytes, -, hd⟩ :=
        exists_of_splitSlashes_eq_append hempty (List.cons_ne_nil _ _) hsplit
      obtain ⟨after, rfl, htrailing⟩ := hback hd
      exact ⟨c ++ [slash], after, by rw [hbytes, List.append_assoc]; rfl, leading_concat_slash c,
        htrailing⟩
  · rintro ⟨before, after, hbytes, hleading, htrailing⟩
    obtain ⟨stays, hsteps, hstays⟩ := htrailing.steps_append (before ++ n.bytes)
    obtain ⟨front, hfront⟩ := exists_steps_append_bytes hleading n
    refine ⟨front, stays, ?_, hstays⟩
    show (Path.mk p.bytes).steps = _
    rw [hbytes, ← List.append_assoc, hsteps, hfront, List.append_assoc]
    rfl

/-- A path that ends in two dots ends in no name. -/
theorem fileName?_append_dots (b : Bytes) (n : Name) :
    (Path.mk (b ++ Bytes.ofText "/..")).fileName? ≠ some n := by
  intro h
  obtain ⟨before, stays, hsteps, hstays⟩ := fileName?_eq_some_iff_steps.1 h
  have hup : (Path.mk (b ++ Bytes.ofText "/..")).steps = (Path.mk b).steps ++ [.up] :=
    steps_append_slash b [dot, dot]
  have hlast := congrArg List.getLast? (hup.symm.trans hsteps)
  rw [List.getLast?_concat, List.getLast?_append, List.getLast?_cons] at hlast
  rcases hstay : stays.getLast? with - | s
  · rw [hstay] at hlast
    cases hlast
  · rw [hstay, hstays s (List.mem_of_getLast? hstay)] at hlast
    cases hlast

/-! ### Names of backups -/

/-- A path without a name at its end has no extension. -/
theorem isBackup_eq_true_iff {p : Path} :
    p.isBackup = true ↔ ∃ n, p.fileName? = some n ∧ n.IsBackup := by
  rcases hname : p.fileName? with - | n
  · simp [isBackup, extension?, hname]
  · simp [isBackup_iff_of_fileName? hname]

/-- Whether a path has the name of a backup does not depend on what stands in front of the name and
behind it. -/
theorem isBackup_append {before after : Bytes} (hbefore : Leading before) (n : Name)
    (hafter : Trailing after) :
    (Path.mk (before ++ (n.bytes ++ after))).isBackup = (Path.mk n.bytes).isBackup := by
  have hname {before after : Bytes} (hbefore : Leading before) (hafter : Trailing after) :
      (Path.mk (before ++ (n.bytes ++ after))).isBackup = true ↔ n.IsBackup :=
    isBackup_iff_of_fileName? (fileName?_eq_some_iff.2 ⟨before, after, rfl, hbefore, hafter⟩)
  have hbare := hname leading_nil .nil
  rw [List.nil_append, List.append_nil] at hbare
  exact Bool.eq_iff_iff.2 ((hname hbefore hafter).trans hbare.symm)

/-- Bytes with the extension of a backup behind something else can be a name. -/
theorem isName_append_backupExtension {stem : Bytes} (hne : stem ≠ []) (hslash : slash ∉ stem) :
    IsName (stem ++ dot :: backupExtension) := by
  have hlength : 5 < (stem ++ dot :: backupExtension).length := by
    rw [List.length_append]
    exact Nat.lt_add_of_pos_left (List.length_pos_iff.2 hne)
  refine ⟨by simp, ?_, ?_, ?_⟩
  · intro h
    rw [h] at hlength
    simp at hlength
  · intro h
    rw [h] at hlength
    simp at hlength
  · rw [List.mem_append, not_or]
    exact ⟨hslash, by decide⟩

/-- **Which paths have the name of a backup**, for all bytes: without the slashes and the single
dots at their end they end in a segment that is `.json` behind something else.

So it is in every directory: `.json`, `json`, `a.JSON` and `a.json.` are refused, `..json`,
`a.json/` and `a.json/./` are accepted, and a path that ends in two dots is refused. -/
theorem isBackup_exact :
    (∀ p : Path, p.isBackup = true ↔ ∃ before stem after : Bytes,
      p.bytes = before ++ (stem ++ dot :: Bytes.ofText "json" ++ after) ∧
        Leading before ∧ stem ≠ [] ∧ slash ∉ stem ∧ Trailing after) ∧
    (∀ before, Leading before →
      (∀ refused ∈ [".json", "json", "a.JSON", "a.json."],
        (Path.mk (before ++ Bytes.ofText refused)).isBackup = false) ∧
      ∀ accepted ∈ ["..json", "a.json/", "a.json/./"],
        (Path.mk (before ++ Bytes.ofText accepted)).isBackup = true) ∧
    ∀ before, (Path.mk (before ++ Bytes.ofText "/..")).isBackup = false := by
  refine ⟨fun p ↦ ?_, fun before hbefore ↦ ?_, fun before ↦ ?_⟩
  · rw [isBackup_eq_true_iff]
    constructor
    · rintro ⟨n, hname, stem, hne, hn⟩
      obtain ⟨before, after, hbytes, hbefore, hafter⟩ := fileName?_eq_some_iff.1 hname
      have hslash : slash ∉ stem := fun h ↦ n.isName.2.2.2 (hn ▸ List.mem_append_left _ h)
      rw [hn] at hbytes
      exact ⟨before, stem, after, hbytes, hbefore, hne, hslash, hafter⟩
    · rintro ⟨before, stem, after, hbytes, hbefore, hne, hslash, hafter⟩
      let n : Name := ⟨_, isName_append_backupExtension hne hslash⟩
      exact ⟨n, fileName?_eq_some_iff.2 ⟨before, after, hbytes, hbefore, hafter⟩, stem, hne, rfl⟩
  · have hcase (name : Name) {after : Bytes} (hafter : Trailing after) :
        (Path.mk (before ++ (name.bytes ++ after))).isBackup = (Path.mk name.bytes).isBackup :=
      isBackup_append hbefore name hafter
    have hbare (name : Name) :
        (Path.mk (before ++ name.bytes)).isBackup = (Path.mk name.bytes).isBackup := by
      simpa using hcase name .nil
    simp only [List.forall_mem_cons, List.not_mem_nil, false_imp_iff, implies_true, and_true]
    refine ⟨⟨?_, ?_, ?_, ?_⟩, ?_, ?_, ?_⟩
    · exact (hbare ⟨Bytes.ofText ".json", by decide⟩).trans (by decide)
    · exact (hbare ⟨Bytes.ofText "json", by decide⟩).trans (by decide)
    · exact (hbare ⟨Bytes.ofText "a.JSON", by decide⟩).trans (by decide)
    · exact (hbare ⟨Bytes.ofText "a.json.", by decide⟩).trans (by decide)
    · exact (hbare ⟨Bytes.ofText "..json", by decide⟩).trans (by decide)
    · exact (hcase ⟨Bytes.ofText "a.json", by decide⟩ (.slash .nil)).trans (by decide)
    · exact (hcase ⟨Bytes.ofText "a.json", by decide⟩ (.dot (.slash .nil))).trans (by decide)
  · refine Bool.eq_false_iff.2 fun h ↦ ?_
    obtain ⟨n, hname, -⟩ := isBackup_eq_true_iff.1 h
    exact fileName?_append_dots before n hname

end TaskStatus.Path
