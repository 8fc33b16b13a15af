import MediaCascade.Proofs.Files.Steps
import MediaCascade.Proofs.Text.Joining

/-!
# Paths as they are given, and as they are read

A command line is checked on its paths as they were given (`Store.kindAt`), files are read and
written by the `Path`s of these texts, without their idle names. Where the check finds a file, it
can be read (`Store.exists_load_of_kindAt`); where it refuses an output, nothing could be written
(`Store.kindAt_ne_of_target`).

* `Store.follow_filter`: idle names lead nowhere else, and need more than none at all: what they
  come behind has to be a directory.
* `Path.toText_sublist`: a path is not longer than the text it is read from, `.` apart, and has no
  other characters.
-/

namespace MediaCascade

/-- Fewer characters have fewer bytes. -/
theorem Utf8.encode_sublist {fewer s : Text} (h : fewer.Sublist s) :
    (encode fewer).Sublist (encode s) := h.flatMap encodeChar

/-! ## 1. The path of a text -/

namespace Path

theorem names_ofText_slash (rest : Text) : (ofText ('/' :: rest)).names = (ofText rest).names := by
  have hsplit : ('/' :: rest).splitOn '/' = [] :: rest.splitOn '/' :=
    List.splitOn_append_cons_self_of_not_mem List.not_mem_nil rest
  simp only [ofText, hsplit]
  rfl

theorem joinWith_names_sublist (given : Text) :
    (Text.joinWith ['/'] (ofText given).names).Sublist given := by
  have hnames : (Text.joinWith ['/'] (ofText given).names).Sublist
      (Text.joinWith ['/'] (given.splitOn '/')) := joinWith_sublist ['/'] List.filter_sublist
  rwa [joinWith_splitOn] at hnames

theorem root_append_names_sublist (given : Text) :
    ((ofText given).root.text ++ Text.joinWith ['/'] (ofText given).names).Sublist given := by
  show ((PathRoot.ofText given).text ++ _).Sublist given
  unfold PathRoot.ofText
  split
  · rw [names_ofText_slash]
    exact (joinWith_names_sublist _).cons_cons '/'
  · rw [names_ofText_slash, names_ofText_slash]
    exact ((joinWith_names_sublist _).cons_cons '/').cons_cons '/'
  · rw [names_ofText_slash]
    exact (joinWith_names_sublist _).cons_cons '/'
  · exact joinWith_names_sublist given

/-- **Reading a path only leaves out characters**, unless nothing but `.` is left. -/
theorem toText_sublist (given : Text) :
    (ofText given).toText = ['.'] ∨ (ofText given).toText.Sublist given := by
  have h := root_append_names_sublist given
  unfold toText
  split
  · exact .inl rfl
  · exact .inr h

end Path

namespace Store

/-! ## 2. Faults of a text -/

theorem textFault?_eq_none_iff (path : Text) :
    textFault? path = none ↔ '\x00' ∉ path ∧ byteCount path ≤ maxPathBytes := by
  unfold textFault?
  by_cases hnull : '\x00' ∈ path
  · simp [hnull]
  · simp [hnull]

theorem textFault?_eq_nullCharacter_iff (path : Text) :
    textFault? path = some .nullCharacter ↔ '\x00' ∈ path := by
  unfold textFault?
  by_cases hnull : '\x00' ∈ path
  · simp [hnull]
  · simp [hnull]

/-- A path has no fault if the text it is read from has none. -/
theorem textFault?_toText {given : Text} (h : textFault? given = none) :
    textFault? (Path.ofText given).toText = none := by
  rcases Path.toText_sublist given with hdot | hsublist
  · rw [hdot]
    decide
  · obtain ⟨hnull, hbytes⟩ := (textFault?_eq_none_iff given).mp h
    refine (textFault?_eq_none_iff _).mpr ⟨fun hmem => hnull (hsublist.subset hmem), ?_⟩
    exact Nat.le_trans (Utf8.encode_sublist hsublist).length_le hbytes

/-- The character U+0000 is not left out: no idle name has it. -/
theorem nullCharacter_mem_toText {given : Text} (h : '\x00' ∈ given) :
    '\x00' ∈ (Path.ofText given).toText := by
  rw [← joinWith_splitOn '/' given, mem_joinWith_iff (by decide)] at h
  obtain ⟨name, hname, hnull⟩ := h
  have hidle : Path.isIdle name = false := by
    rw [Path.isIdle, Bool.or_eq_false_iff, List.isEmpty_eq_false_iff, beq_eq_false_iff_ne]
    constructor
    · rintro rfl
      cases hnull
    · rintro rfl
      exact absurd hnull (by decide)
  have hmem : name ∈ (Path.ofText given).names :=
    List.mem_filter.mpr ⟨hname, by rw [hidle]; rfl⟩
  unfold Path.toText
  split
  · next hnames =>
    rw [hnames] at hmem
    cases hmem
  · exact List.mem_append_right _ ((mem_joinWith_iff (by decide) _).mpr ⟨name, hmem, hnull⟩)

/-! ## 3. Following names -/

variable {s : Store} {given : Text} {l place : Location}

theorem enter_eq_ok_iff {name : Text} {next : Location} :
    s.enter l name = .ok next ↔
      s.isDirectory l = true ∧ byteCount name ≤ maxNameBytes ∧ next = l.child name := by
  unfold enter
  by_cases hdirectory : s.isDirectory l = true
  · by_cases hbytes : byteCount name ≤ maxNameBytes
    · simp [hdirectory, hbytes, Nat.not_lt.mpr hbytes, eq_comm]
    · simp [hdirectory, hbytes, Nat.lt_of_not_le hbytes]
  · by_cases hfile : (s.load? l).isSome = true
    · simp [hdirectory, hfile]
    · simp [hdirectory, hfile]

/-- **Idle names may be left out**: the other names lead to the same place. -/
theorem follow_filter {names : List Text} (h : s.follow l names = .ok place) :
    s.follow l (names.filter fun name => !Path.isIdle name) = .ok place := by
  induction names generalizing l with
  | nil => exact h
  | cons name rest ih =>
    obtain ⟨next, henter, hrest⟩ := (bind_eq_ok_iff _ _ _).mp h
    cases hidle : Path.isIdle name with
    | true =>
      have hnext : next = l := by
        rw [(enter_eq_ok_iff.mp henter).2.2, Location.child, if_pos hidle]
      rw [List.filter_cons_of_neg (by simp [hidle]), ← hnext]
      exact ih hrest
    | false =>
      rw [List.filter_cons_of_pos (by simp [hidle]), follow, bind_eq_ok_iff]
      exact ⟨next, henter, ih hrest⟩

/-- No name that is followed is the reason for a fault of the text. -/
theorem follow_ne_nullCharacter (names : List Text) :
    s.follow l names ≠ .error .nullCharacter := by
  induction names generalizing l with
  | nil => exact fun h => by cases h
  | cons name rest ih =>
    intro h
    rw [follow] at h
    cases henter : s.enter l name with
    | ok next =>
      rw [henter] at h
      exact ih h
    | error fault =>
      rw [henter] at h
      cases h
      unfold enter at henter
      split at henter
      · split at henter <;> cases henter
      · split at henter <;> cases henter

/-! ## 4. What is found at a path as it was given -/

/-- **What is found is at the end of the path**, and is what it is said to be. -/
theorem exists_locate_of_kindAt {kind : Kind} (h : s.kindAt given = .ok kind) :
    ∃ l, s.locate (.ofText given) = .ok l ∧
      if s.isDirectory l then kind = .directory
      else kind = .file ∧ ∃ bytes, s.load? l = some bytes := by
  unfold kindAt at h
  cases hfault : textFault? given with
  | some fault =>
    rw [hfault] at h
    cases h
  | none =>
    rw [hfault] at h
    simp only at h
    split at h
    · cases h
    · obtain ⟨l, hfollow, hkind⟩ := (bind_eq_ok_iff _ _ _).mp h
      refine ⟨l, ?_, ?_⟩
      · rw [locate, textFault?_toText hfault]
        exact follow_filter hfollow
      · split at hkind
        · next hdirectory =>
          cases hkind
          rw [if_pos hdirectory]
        · next hdirectory =>
          rw [if_neg hdirectory]
          split at hkind
          · next hfile =>
            cases hkind
            exact ⟨rfl, Option.isSome_iff_exists.mp hfile⟩
          · cases hkind

/-- **A file that is found can be read.** -/
theorem exists_load_of_kindAt (h : s.kindAt given = .ok .file) :
    ∃ bytes, s.load (.ofText given) = .ok bytes := by
  obtain ⟨l, hlocate, hkind⟩ := exists_locate_of_kindAt h
  split at hkind
  · cases hkind
  · next hdirectory =>
    obtain ⟨_, bytes, hbytes⟩ := hkind
    refine ⟨bytes, (bind_eq_ok_iff _ _ _).mpr ⟨l, hlocate, ?_⟩⟩
    rw [if_neg hdirectory, hbytes]

/-- Only a path with the character U+0000 is refused for it. -/
theorem nullCharacter_mem_of_kindAt (h : s.kindAt given = .error .nullCharacter) :
    '\x00' ∈ given := by
  unfold kindAt at h
  cases hfault : textFault? given with
  | some fault =>
    rw [hfault] at h
    cases h
    exact (textFault?_eq_nullCharacter_iff given).mp hfault
  | none =>
    rw [hfault] at h
    simp only at h
    split at h
    · cases h
    · cases hfollow : s.follow (.start (.ofText given)) (given.splitOn '/') with
      | error fault =>
        rw [hfollow] at h
        cases h
        exact absurd hfollow (follow_ne_nullCharacter _)
      | ok l =>
        rw [hfollow] at h
        simp only [Except.bind] at h
        split at h
        · cases h
        · split at h <;> cases h

/-- **An output that can be written is not refused**: it is not found to be a directory, and does
    not have the character U+0000. -/
theorem kindAt_ne_of_target (h : s.target (.ofText given) = .ok place) :
    s.kindAt given ≠ .ok .directory ∧ s.kindAt given ≠ .error .nullCharacter := by
  obtain ⟨l, hlocate, hplace⟩ := (bind_eq_ok_iff _ _ _).mp h
  constructor
  · intro hkind
    obtain ⟨l', hlocate', hdirectory⟩ := exists_locate_of_kindAt hkind
    cases hlocate.symm.trans hlocate'
    split at hplace
    · cases hplace
    · next hnot =>
      rw [if_neg hnot] at hdirectory
      cases hdirectory.1
  · intro hkind
    have hnull := nullCharacter_mem_toText (nullCharacter_mem_of_kindAt hkind)
    rw [locate, (textFault?_eq_nullCharacter_iff _).mpr hnull] at hlocate
    cases hlocate

end Store

end MediaCascade
