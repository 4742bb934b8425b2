import Mathlib.Data.List.Basic
import TaskStatus.Backup.Lookup
import TaskStatus.Proofs.EntryPath

/-!
# The latest backup is a maximum

A look-up goes through the entries of a directory in the order in which they are listed, and keeps
the later of two backups. Here its answer is characterized without that order. An entry counts in
two ways only:

* it **obstructs** the look-up when it is named like a backup and cannot be examined;
* it is **eligible** when it is named like a backup and is a regular file, through links.

`find_cases` is the trichotomy that everything else rests on: an obstructing entry is reported, or
nothing is eligible and nothing is found, or the answer is the latest eligible entry. Being latest
is a property of the set of the entries (`IsLatest`) and at most one entry has it
(`IsLatest.unique`), because the time and the name of an entry determine it; that is why the order
of the listing does not matter although a fold computes the answer.
-/

namespace TaskStatus

/-- Nanoseconds tell instants apart. -/
theorem Instant.eq_of_sinceEpoch_eq {s t : Instant} (h : s.sinceEpoch = t.sinceEpoch) :
    s = t := by
  have hs := s.nanos_lt
  have ht := t.nanos_lt
  obtain ⟨a, m, hm⟩ := s
  obtain ⟨b, n, hn⟩ := t
  simp only [sinceEpoch] at h hs ht
  obtain ⟨rfl, rfl⟩ : a = b ∧ m = n := by omega
  rfl

namespace Backup

/-! ### The later of two backups -/

theorem not_earlier_self (a : Backup) : ¬ Earlier a a := by
  rintro (h | ⟨-, h⟩)
  · exact Int.lt_irrefl _ h
  · exact List.lt_irrefl _ h

theorem Earlier.trans {a b c : Backup} (hab : Earlier a b) (hbc : Earlier b c) : Earlier a c := by
  rcases hab with hab | ⟨hab, hab'⟩ <;> rcases hbc with hbc | ⟨hbc, hbc'⟩
  · exact Or.inl (Int.lt_trans hab hbc)
  · exact Or.inl (hbc ▸ hab)
  · exact Or.inl (hab ▸ hbc)
  · exact Or.inr ⟨hab.trans hbc, List.lt_trans hab' hbc'⟩

/-- Backups are compared by two things, and one is earlier unless they agree in both. -/
theorem earlier_or_earlier_or_eq (a b : Backup) :
    Earlier a b ∨ Earlier b a ∨
      (a.modified.sinceEpoch = b.modified.sinceEpoch ∧ a.fileName = b.fileName) := by
  rcases Int.lt_trichotomy a.modified.sinceEpoch b.modified.sinceEpoch with h | h | h
  · exact Or.inl (Or.inl h)
  · by_cases hab : a.fileName < b.fileName
    · exact Or.inl (Or.inr ⟨h, hab⟩)
    · by_cases hba : b.fileName < a.fileName
      · exact Or.inr (Or.inl (Or.inr ⟨h.symm, hba⟩))
      · exact Or.inr (Or.inr ⟨h, List.le_antisymm hba hab⟩)
  · exact Or.inr (Or.inl (Or.inl h))

theorem Earlier.asymm {a b : Backup} (h : Earlier a b) : ¬ Earlier b a :=
  fun hba ↦ not_earlier_self a (h.trans hba)

/-- Being at least as late is transitive: a backup with the same time and file name as another is
earlier than exactly the same backups. -/
theorem not_earlier_trans {a b c : Backup} (hab : ¬ Earlier a b) (hbc : ¬ Earlier b c) :
    ¬ Earlier a c := by
  intro hac
  rcases earlier_or_earlier_or_eq b c with h | h | ⟨htime, hname⟩
  · exact hbc h
  · exact hab (hac.trans h)
  · refine hab ?_
    rw [Earlier, htime, hname]
    exact hac

/-- The **loop invariant** of the selection: what is kept is one of the backups that were met, and
none of these is later. -/
theorem foldl_later_some (a : Backup) (bs : List Backup) :
    ∃ b ∈ a :: bs, bs.foldl later (some a) = some b ∧ ∀ c ∈ a :: bs, ¬ Earlier b c := by
  -- the backup that is kept changes on the way, so it is not fixed in the induction
  induction bs generalizing a with
  | nil => exact ⟨a, List.mem_cons_self, rfl, by simpa using not_earlier_self a⟩
  | cons x xs ih =>
    rw [List.foldl_cons, later]
    split
    · next hax =>
      obtain ⟨b, hb, hfold, hmax⟩ := ih x
      refine ⟨b, List.mem_cons_of_mem _ hb, hfold, List.forall_mem_cons.2 ⟨?_, hmax⟩⟩
      exact not_earlier_trans (hmax x List.mem_cons_self) hax.asymm
    · next hax =>
      obtain ⟨b, hb, hfold, hmax⟩ := ih a
      have hba : ¬ Earlier b a := hmax a List.mem_cons_self
      refine ⟨b, ?_, hfold, List.forall_mem_cons.2 ⟨hba, List.forall_mem_cons.2 ⟨?_, ?_⟩⟩⟩
      · rcases List.mem_cons.1 hb with rfl | hb
        · exact List.mem_cons_self
        · exact List.mem_cons_of_mem _ (List.mem_cons_of_mem _ hb)
      · exact not_earlier_trans hba hax
      · exact fun c hc ↦ hmax c (List.mem_cons_of_mem _ hc)

/-- Something is selected as soon as there is something to select from. -/
theorem exists_latest_of_ne_nil {bs : List Backup} (h : bs ≠ []) :
    ∃ b ∈ bs, latest bs = some b ∧ ∀ c ∈ bs, ¬ Earlier b c := by
  obtain ⟨a, bs, rfl⟩ := List.exists_cons_of_ne_nil h
  exact foldl_later_some a bs

/-! ### The entries that count -/

section

variable (fs : FileSystem) (dir : Path)

/-- An entry is in the way of a look-up: it is named like a backup and cannot be examined. -/
def Obstructs (n : Name) (e : IoError) : Prop :=
  n.IsBackup ∧ fs.stat (dir.join n) = .error e

/-- An entry is a backup that was last modified at an instant: it is named like one, and its path
leads to a regular file. -/
def Eligible (n : Name) (t : Instant) : Prop :=
  n.IsBackup ∧ fs.stat (dir.join n) = .ok (.file t)

/-- The one of two entries with their times that comes first: by their times, to the nanosecond,
and at one instant by the bytes of their names. -/
def Precedes (m : Name) (s : Instant) (n : Name) (t : Instant) : Prop :=
  s.sinceEpoch < t.sinceEpoch ∨ (s.sinceEpoch = t.sinceEpoch ∧ m.bytes < n.bytes)

/-- An entry with its time is the **latest** of some entries: it is eligible, and every other
eligible one precedes it. -/
def IsLatest (ns : List Name) (n : Name) (t : Instant) : Prop :=
  (n ∈ ns ∧ Eligible fs dir n t) ∧
    ∀ m ∈ ns, ∀ s, Eligible fs dir m s → (m = n ∧ s = t) ∨ Precedes m s n t

end

variable {fs : FileSystem} {dir : Path} {ns : List Name}

/-- The order of entries is the order in which a look-up compares them: the file name of an entry's
path is its name. -/
theorem earlier_join_iff (dir : Path) {m n : Name} {s t : Instant} :
    Earlier ⟨dir.join m, s⟩ ⟨dir.join n, t⟩ ↔ Precedes m s n t := by
  rw [Earlier, fileName, fileName, Path.fileName?_join, Path.fileName?_join]
  rfl

theorem Precedes.asymm {m n : Name} {s t : Instant} (h : Precedes m s n t) :
    ¬ Precedes n t m s := by
  rw [← earlier_join_iff ⟨[]⟩] at h ⊢
  exact h.asymm

/-- Entries are told apart by their times and names, so one of two precedes the other. -/
theorem eq_or_precedes_of_not_precedes {m n : Name} {s t : Instant} (h : ¬ Precedes n t m s) :
    (m = n ∧ s = t) ∨ Precedes m s n t := by
  rw [← earlier_join_iff ⟨[]⟩] at h ⊢
  rcases earlier_or_earlier_or_eq ⟨Path.join ⟨[]⟩ m, s⟩ ⟨Path.join ⟨[]⟩ n, t⟩ with
    h' | h' | ⟨htime, hname⟩
  · exact Or.inr h'
  · exact absurd h' h
  · rw [fileName, fileName, Path.fileName?_join, Path.fileName?_join] at hname
    obtain ⟨m, hm⟩ := m
    obtain ⟨n, hn⟩ := n
    obtain rfl : m = n := hname
    exact Or.inl ⟨rfl, Instant.eq_of_sinceEpoch_eq htime⟩

/-- At most one entry is the latest, even of two lists with the same entries. -/
theorem IsLatest.unique {ns' : List Name} {m n : Name} {s t : Instant}
    (hmem : ∀ k, k ∈ ns ↔ k ∈ ns') (hm : IsLatest fs dir ns m s) (hn : IsLatest fs dir ns' n t) :
    m = n ∧ s = t := by
  -- either entry is eligible, so it equals the other one or precedes it
  rcases hn.2 m ((hmem m).1 hm.1.1) s hm.1.2 with h | h
  · exact h
  · rcases hm.2 n ((hmem n).2 hn.1.1) t hn.1.2 with ⟨rfl, rfl⟩ | h'
    · exact ⟨rfl, rfl⟩
    · exact absurd h' h.asymm

/-! ### What a look-up collects -/

/-- **One entry.** It obstructs the look-up, is collected with its time, or is passed over because
it does neither. -/
theorem candidates_cons (fs : FileSystem) (dir : Path) (n : Name) (ns : List Name) :
    (∃ e, Obstructs fs dir n e ∧
        candidates fs dir (n :: ns) = .error (.unexaminable (dir.join n) e)) ∨
      (∃ t, Eligible fs dir n t ∧
        candidates fs dir (n :: ns) = (candidates fs dir ns).map (⟨dir.join n, t⟩ :: ·)) ∨
      ((∀ e, ¬ Obstructs fs dir n e) ∧ (∀ t, ¬ Eligible fs dir n t) ∧
        candidates fs dir (n :: ns) = candidates fs dir ns) := by
  rw [candidates]
  by_cases hn : n.IsBackup
  · rw [if_pos ((Path.isBackup_join_iff dir n).2 hn)]
    rcases hstat : fs.stat (dir.join n) with e | (t | -)
    · exact Or.inl ⟨e, ⟨hn, hstat⟩, rfl⟩
    · exact Or.inr (Or.inl ⟨t, ⟨hn, hstat⟩, rfl⟩)
    · refine Or.inr (Or.inr ⟨?_, ?_, rfl⟩)
      · rintro e ⟨-, he⟩
        have hboth := hstat.symm.trans he
        cases hboth
      · rintro t ⟨-, ht⟩
        have hboth := hstat.symm.trans ht
        cases hboth
  · rw [if_neg (mt (Path.isBackup_join_iff dir n).1 hn)]
    exact Or.inr (Or.inr ⟨fun e h ↦ hn h.1, fun t h ↦ hn h.1, rfl⟩)

/-- An entry has at most one time, and has none if it obstructs the look-up. -/
theorem Eligible.unique {n : Name} {s t : Instant} (hs : Eligible fs dir n s)
    (ht : Eligible fs dir n t) : s = t := by
  have hboth : Metadata.file s = Metadata.file t := Except.ok.inj (hs.2.symm.trans ht.2)
  exact Metadata.file.inj hboth

theorem Eligible.not_obstructs {n : Name} {t : Instant} (h : Eligible fs dir n t) (e : IoError) :
    ¬ Obstructs fs dir n e := by
  rintro ⟨-, he⟩
  have hboth := h.2.symm.trans he
  cases hboth

/-- **What is reported**: the first entry that is in the way. -/
theorem candidates_eq_error_iff {f : LookupError} :
    candidates fs dir ns = .error f ↔ ∃ before n after e, ns = before ++ n :: after ∧
      (∀ m ∈ before, ∀ e, ¬ Obstructs fs dir m e) ∧ Obstructs fs dir n e ∧
        f = .unexaminable (dir.join n) e := by
  induction ns with
  | nil => exact iff_of_false nofun fun ⟨_, _, _, _, h, _⟩ ↦ by simp at h
  | cons n ns ih =>
    -- an entry that is not in the way is in front of the first one that is
    have htail (hno : ∀ e, ¬ Obstructs fs dir n e) :
        candidates fs dir ns = .error f ↔
          ∃ before m after e, n :: ns = before ++ m :: after ∧
            (∀ k ∈ before, ∀ e, ¬ Obstructs fs dir k e) ∧ Obstructs fs dir m e ∧
              f = .unexaminable (dir.join m) e := by
      rw [ih]
      constructor
      · rintro ⟨before, m, after, e, rfl, hbefore, hm, hf⟩
        exact ⟨n :: before, m, after, e, rfl, List.forall_mem_cons.2 ⟨hno, hbefore⟩, hm, hf⟩
      · rintro ⟨before, m, after, e, heq, hbefore, hm, hf⟩
        cases before with
        | nil =>
          obtain ⟨rfl, rfl⟩ := List.cons.inj heq
          exact absurd hm (hno e)
        | cons k before =>
          obtain ⟨rfl, rfl⟩ := List.cons.inj heq
          exact ⟨before, m, after, e, rfl, (List.forall_mem_cons.1 hbefore).2, hm, hf⟩
    rcases candidates_cons fs dir n ns with ⟨e, he, heq⟩ | ⟨t, ht, heq⟩ | ⟨hno, -, heq⟩
    · rw [heq, Except.error.injEq]
      constructor
      · rintro rfl
        exact ⟨[], n, ns, e, rfl, List.forall_mem_nil _, he, rfl⟩
      · rintro ⟨before, m, after, e', hsplit, hbefore, hm, rfl⟩
        cases before with
        | nil =>
          obtain ⟨rfl, rfl⟩ := List.cons.inj hsplit
          rw [Except.error.inj (he.2.symm.trans hm.2)]
        | cons k before =>
          obtain ⟨rfl, -⟩ := List.cons.inj hsplit
          exact absurd he (hbefore n List.mem_cons_self e)
    · rw [← htail ht.not_obstructs, heq]
      rcases candidates fs dir ns with g | bs <;> simp [Except.map]
    · rw [heq, htail hno]

/-- **What is collected**: no entry is in the way, and the backups are the eligible entries. -/
theorem candidates_eq_ok {bs : List Backup} (h : candidates fs dir ns = .ok bs) :
    (∀ n ∈ ns, ∀ e, ¬ Obstructs fs dir n e) ∧
      ∀ b, b ∈ bs ↔ ∃ n ∈ ns, ∃ t, Eligible fs dir n t ∧ b = ⟨dir.join n, t⟩ := by
  induction ns generalizing bs with
  | nil =>
    cases h
    simp
  | cons n ns ih =>
    rcases candidates_cons fs dir n ns with ⟨e, -, heq⟩ | ⟨t, ht, heq⟩ | ⟨hno, hnt, heq⟩
    · rw [heq] at h
      cases h
    · rw [heq] at h
      rcases hc : candidates fs dir ns with g | cs
      · rw [hc] at h
        cases h
      · obtain rfl : ⟨dir.join n, t⟩ :: cs = bs := by
          rw [hc] at h
          exact Except.ok.inj h
        obtain ⟨hobs, hmem⟩ := ih hc
        refine ⟨List.forall_mem_cons.2 ⟨ht.not_obstructs, hobs⟩, fun b ↦ ?_⟩
        rw [List.exists_mem_cons_iff, List.mem_cons, hmem]
        refine or_congr_left ⟨fun hb ↦ ⟨t, ht, hb⟩, ?_⟩
        rintro ⟨s, hs, rfl⟩
        rw [hs.unique ht]
    · obtain ⟨hobs, hmem⟩ := ih (heq ▸ h)
      refine ⟨List.forall_mem_cons.2 ⟨hno, hobs⟩, fun b ↦ ?_⟩
      rw [List.exists_mem_cons_iff, hmem]
      refine ⟨Or.inr, fun hb ↦ hb.resolve_left ?_⟩
      rintro ⟨s, hs, -⟩
      exact hnt s hs

/-! ### The answer of a look-up -/

/-- A directory that can be listed is looked through for candidates. -/
theorem find_of_list (h : fs.list dir = .ok ns) :
    find fs dir = (candidates fs dir ns).map latest := by
  rw [find, h]
  rfl

/-- **The trichotomy of a look-up** in a directory that can be listed. -/
theorem find_cases (h : fs.list dir = .ok ns) :
    (∃ n ∈ ns, ∃ e, Obstructs fs dir n e ∧
        find fs dir = .error (.unexaminable (dir.join n) e)) ∨
      (∀ n ∈ ns, ∀ e, ¬ Obstructs fs dir n e) ∧
        (((∀ n ∈ ns, ∀ t, ¬ Eligible fs dir n t) ∧ find fs dir = .ok none) ∨
          ∃ n t, IsLatest fs dir ns n t ∧ find fs dir = .ok (some ⟨dir.join n, t⟩)) := by
  have hfind := find_of_list h
  rcases hc : candidates fs dir ns with f | bs
  · obtain ⟨before, n, after, e, rfl, -, he, rfl⟩ := candidates_eq_error_iff.1 hc
    exact Or.inl ⟨n, List.mem_append_right _ List.mem_cons_self, e, he, by rw [hfind, hc]; rfl⟩
  · obtain ⟨hobs, hmem⟩ := candidates_eq_ok hc
    refine Or.inr ⟨hobs, ?_⟩
    rcases List.eq_nil_or_concat bs with rfl | ⟨_, _, hbs⟩
    · refine Or.inl ⟨fun n hn t ht ↦ ?_, by rw [hfind, hc]; rfl⟩
      exact List.not_mem_nil ((hmem _).2 ⟨n, hn, t, ht, rfl⟩)
    · obtain ⟨b, hb, hlatest, hmax⟩ := exists_latest_of_ne_nil (show bs ≠ [] by simp [hbs])
      obtain ⟨n, hn, t, ht, rfl⟩ := (hmem b).1 hb
      refine Or.inr ⟨n, t, ⟨⟨hn, ht⟩, fun m hm s hs ↦ ?_⟩, ?_⟩
      · have hnot := hmax _ ((hmem _).2 ⟨m, hm, s, hs, rfl⟩)
        rw [earlier_join_iff] at hnot
        exact eq_or_precedes_of_not_precedes hnot
      · rw [hfind, hc]
        exact congrArg Except.ok hlatest

/-- **What a look-up answers**: nothing is in the way, and the answer is nothing for want of an
eligible entry, or the latest one. -/
theorem find_eq_ok_iff (h : fs.list dir = .ok ns) {r : Option Backup} :
    find fs dir = .ok r ↔ (∀ n ∈ ns, ∀ e, ¬ Obstructs fs dir n e) ∧
      ((r = none ∧ ∀ n ∈ ns, ∀ t, ¬ Eligible fs dir n t) ∨
        ∃ n t, IsLatest fs dir ns n t ∧ r = some ⟨dir.join n, t⟩) := by
  rcases find_cases h with ⟨n, hn, e, he, hf⟩ | ⟨hno, ⟨hnone, hf⟩ | ⟨n, t, hlatest, hf⟩⟩
  · refine iff_of_false ?_ fun hr ↦ hr.1 n hn e he
    rw [hf]
    exact nofun
  · rw [hf, Except.ok.injEq, eq_comm]
    refine ⟨fun hr ↦ ⟨hno, Or.inl ⟨hr, hnone⟩⟩, ?_⟩
    rintro ⟨-, ⟨hr, -⟩ | ⟨n, t, hlatest, -⟩⟩
    · exact hr
    · exact absurd hlatest.1.2 (hnone n hlatest.1.1 t)
  · rw [hf, Except.ok.injEq, eq_comm]
    refine ⟨fun hr ↦ ⟨hno, Or.inr ⟨n, t, hlatest, hr⟩⟩, ?_⟩
    rintro ⟨-, ⟨-, hnone⟩ | ⟨m, s, hlatest', hr⟩⟩
    · exact absurd hlatest.1.2 (hnone n hlatest.1.1 t)
    · obtain ⟨rfl, rfl⟩ := hlatest.unique (fun _ ↦ Iff.rfl) hlatest'
      exact hr

/-- A backup that is found is the latest of the entries that are listed. -/
theorem exists_isLatest_of_find {b : Backup} (h : find fs dir = .ok (some b)) :
    ∃ ns n t, fs.list dir = .ok ns ∧ IsLatest fs dir ns n t ∧ b = ⟨dir.join n, t⟩ := by
  rcases hlist : fs.list dir with e | ns
  · rw [find, hlist] at h
    cases h
  · obtain ⟨-, ⟨hnone, -⟩ | ⟨n, t, hlatest, hb⟩⟩ := (find_eq_ok_iff hlist).1 h
    · cases hnone
    · exact ⟨ns, n, t, rfl, hlatest, Option.some.inj hb⟩

/-- **When a look-up fails** in a directory that can be listed. -/
theorem find_eq_error_iff (h : fs.list dir = .ok ns) {f : LookupError} :
    find fs dir = .error f ↔ ∃ before n after e, ns = before ++ n :: after ∧
      (∀ m ∈ before, ∀ e, ¬ Obstructs fs dir m e) ∧ Obstructs fs dir n e ∧
        f = .unexaminable (dir.join n) e := by
  rw [find_of_list h, ← candidates_eq_error_iff]
  rcases candidates fs dir ns with g | bs <;> simp [Except.map]

/-- What is found, if the look-up succeeds, is determined by which entries there are and what they
lead to. -/
theorem toOption_find_eq {fs' : FileSystem} {ns' : List Name} (h : fs.list dir = .ok ns)
    (h' : fs'.list dir = .ok ns') (hstat : fs'.stat = fs.stat) (hmem : ∀ n, n ∈ ns ↔ n ∈ ns') :
    (find fs' dir).toOption = (find fs dir).toOption := by
  -- what an entry is depends on what it leads to, and not on where it is listed
  have hlatest : ∀ n t, IsLatest fs' dir ns' n t ↔ IsLatest fs dir ns n t := by
    intro n t
    simp only [IsLatest, Eligible, hstat, hmem]
  have hfind : ∀ r, find fs' dir = .ok r ↔ find fs dir = .ok r := by
    intro r
    rw [find_eq_ok_iff h, find_eq_ok_iff h']
    simp only [Obstructs, Eligible, hstat, hmem, hlatest]
  rcases hf : find fs dir with f | r
  · rcases hf' : find fs' dir with f' | r
    · rfl
    · have hboth := hf.symm.trans ((hfind r).1 hf')
      cases hboth
  · rw [(hfind r).2 hf]

/-- **A look-up is an exact maximum.** In a directory that can be listed:

* if some entry obstructs the look-up, one of these is reported;
* if none does, nothing is found exactly when nothing is eligible, and otherwise the latest eligible
  entry is found;
* whether the look-up succeeds and what it finds are the same for every order of the entries. -/
theorem find_exact_maximum (fs : FileSystem) (dir : Path) (ns : List Name)
    (h : fs.list dir = .ok ns) :
    ((∃ n ∈ ns, ∃ e, Obstructs fs dir n e) →
      ∃ n ∈ ns, ∃ e, Obstructs fs dir n e ∧
        find fs dir = .error (.unexaminable (dir.join n) e)) ∧
    ((∀ n ∈ ns, ∀ e, ¬ Obstructs fs dir n e) →
      (find fs dir = .ok none ↔ ∀ n ∈ ns, ∀ t, ¬ Eligible fs dir n t) ∧
      ((∃ n ∈ ns, ∃ t, Eligible fs dir n t) →
        ∃ n t, IsLatest fs dir ns n t ∧ find fs dir = .ok (some ⟨dir.join n, t⟩))) ∧
    ∀ (fs' : FileSystem) (ns' : List Name), fs'.list dir = .ok ns' → fs'.stat = fs.stat →
      ns.Perm ns' → (find fs' dir).toOption = (find fs dir).toOption := by
  refine ⟨?_, ?_, fun fs' ns' h' hstat hperm ↦ toOption_find_eq h h' hstat fun n ↦ hperm.mem_iff⟩
  · rintro ⟨n, hn, e, he⟩
    rcases find_cases h with hobs | ⟨hno, -⟩
    · exact hobs
    · exact absurd he (hno n hn e)
  · intro hno
    constructor
    · rw [find_eq_ok_iff h, and_iff_right hno]
      simp
    · rintro ⟨m, hm, s, hs⟩
      rcases find_cases h with ⟨n, hn, e, he, -⟩ | ⟨-, ⟨hnone, -⟩ | hlatest⟩
      · exact absurd he (hno n hn e)
      · exact absurd hs (hnone m hm s)
      · exact hlatest

/-- A file system in which every path leads to a file of the same instant, half a second before
1970, and every directory has the same entries. -/
def coeval (ns : List Name) : FileSystem where
  list _ := .ok ns
  stat _ := .ok (.file ⟨-1, 500000000, by decide⟩)
  read _ := .error .notFound

/-- Two backups of one instant: the greater name decides, whichever is listed first. -/
theorem find_coeval :
    let a : Name := ⟨Bytes.ofText "a.json", by decide⟩
    let b : Name := ⟨Bytes.ofText "b.json", by decide⟩
    let dir := Path.ofText "backups/"
    (coeval [a, b]).list dir = .ok [a, b] ∧
      (∃ n t, IsLatest (coeval [a, b]) dir [a, b] n t ∧
        find (coeval [a, b]) dir = .ok (some ⟨dir.join n, t⟩)) ∧
      (find (coeval [b, a]) dir).toOption = (find (coeval [a, b]) dir).toOption := by
  intro a b dir
  have h := find_exact_maximum (coeval [a, b]) dir [a, b] rfl
  refine ⟨rfl, (h.2.1 ?_).2 ?_, h.2.2 (coeval [b, a]) [b, a] rfl rfl (List.Perm.swap b a [])⟩
  · rintro n - e ⟨-, he⟩
    cases he
  · exact ⟨a, List.mem_cons_self, _, ⟨[0x61], by decide, rfl⟩, rfl⟩

end Backup

end TaskStatus
