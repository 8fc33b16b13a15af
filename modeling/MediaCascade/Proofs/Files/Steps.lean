import MediaCascade.Files.Session
import MediaCascade.Proofs.Failing

/-!
# What the steps of a processor can do

Each step is described once, by what comes out of it; what holds of all steps is read off these
descriptions.

* `Processor.Yields`: the file of a processor is cleaned to a result. Processing succeeds exactly
  then (`Processor.process_cases`).
* `Processor.CanWrite`: a result can be written, which it cannot on a dry run. Then it is written
  (`Processor.WriteOutcome.eq_of_canWrite`), and only then.
* `Processor.WriteOutcome`: the five ways in which writing can go (`Processor.write_outcome`).
* `Store.Rewritten`: two stores that differ in one file.
-/

namespace MediaCascade

/-! ## 1. Stores -/

namespace Store

/-- The store `after` is the store `before` with `bytes` in the file at `target`. -/
structure Rewritten (before : Store) (target : Location) (bytes : Bytes) (after : Store) :
    Prop where
  content : after.load? target = some bytes
  others : ∀ l, l ≠ target → after.load? l = before.load? l
  directories : after.directories = before.directories

theorem rewritten_save (s : Store) (target : Location) (bytes : Bytes) :
    s.Rewritten target bytes (s.save target bytes) := by
  refine ⟨?_, fun l hl => ?_, rfl⟩
  · rw [load?_save, if_pos rfl]
  · rw [load?_save, if_neg hl]

section Directories

variable {s t : Store} (h : t.directories = s.directories)
include h

theorem isDirectory_of_directories_eq (l : Location) : t.isDirectory l = s.isDirectory l := by
  rw [isDirectory, isDirectory, h]

/-- Names that can be followed can be followed in every store with the same directories. The files
    are looked at to tell why they cannot be followed, and for nothing else. -/
theorem follow_of_directories_eq {names : List Text} {l place : Location}
    (hs : s.follow l names = .ok place) : t.follow l names = .ok place := by
  induction names generalizing l with
  | nil => exact hs
  | cons name rest ih =>
    rw [follow, bind_eq_ok_iff] at hs ⊢
    obtain ⟨next, henter, hrest⟩ := hs
    refine ⟨next, ?_, ih hrest⟩
    unfold enter at henter ⊢
    rw [isDirectory_of_directories_eq h]
    split at henter
    · next hl => rwa [if_pos hl]
    · split at henter
      · cases henter
      · cases henter

/-- The target of a path is the same in every store with the same directories. -/
theorem target_of_directories_eq {path : Path} {place : Location}
    (hs : s.target path = .ok place) : t.target path = .ok place := by
  rw [target, bind_eq_ok_iff] at hs ⊢
  obtain ⟨l, hlocate, hl⟩ := hs
  refine ⟨l, ?_, ?_⟩
  · unfold locate at hlocate ⊢
    split at hlocate
    · cases hlocate
    · exact follow_of_directories_eq h hlocate
  · rwa [isDirectory_of_directories_eq h]

end Directories

/-- **What is written to the target of a path is loaded from the path.** -/
theorem load_of_rewritten {s t : Store} {path : Path} {place : Location} {bytes : Bytes}
    (hplace : s.target path = .ok place) (h : s.Rewritten place bytes t) :
    t.load path = .ok bytes := by
  have ht := target_of_directories_eq h.directories hplace
  rw [target, bind_eq_ok_iff] at ht
  rw [load, bind_eq_ok_iff]
  obtain ⟨l, hlocate, hl⟩ := ht
  refine ⟨l, hlocate, ?_⟩
  split at hl
  · cases hl
  · next hdirectory =>
    cases hl
    rw [if_neg hdirectory, h.content]

end Store

namespace Processor

/-! ## 2. Reading and processing -/

theorem encodingOf_eq_ok_iff (name : Text) (encoding : Encoding) :
    encodingOf name = .ok encoding ↔ Encoding.ofName? name = some encoding := by
  unfold encodingOf
  cases Encoding.ofName? name with
  | none => exact iff_of_false (fun h => by cases h) (fun h => by cases h)
  | some e => exact ⟨fun h => by cases h; rfl, fun h => by cases h; rfl⟩

/-- The text of the file is what its bytes say in the encoding of the processor, with every line
    ending in a line feed. -/
theorem readSource_eq_ok_iff (p : Processor) (store : Store) (css : Text) :
    p.readSource store = .ok css ↔ requireName p.settings.encoding = .ok () ∧
      ∃ bytes encoding text, store.load p.path = .ok bytes ∧
        Encoding.ofName? p.settings.encoding = some encoding ∧ encoding.decode bytes = .ok text ∧
        Text.unifyLineEnds text = css := by
  simp only [readSource, bind, bind_eq_ok_iff, mapError_eq_ok_iff, encodingOf_eq_ok_iff, pure,
    Except.pure, Except.ok.injEq]
  constructor
  · rintro ⟨⟨⟩, hname, bytes, hbytes, encoding, hencoding, text, htext, hcss⟩
    exact ⟨hname, bytes, encoding, text, hbytes, hencoding, htext, hcss⟩
  · rintro ⟨hname, bytes, encoding, text, hbytes, hencoding, htext, hcss⟩
    exact ⟨(), hname, bytes, hbytes, encoding, hencoding, text, htext, hcss⟩

/-- The file of the processor can be read, and its text is cleaned to the given result. -/
def Yields (region : BaseRegion) (store : Store) (p : Processor) (cleaned : Cleaned) : Prop :=
  ∃ css, p.readSource store = .ok css ∧ Cleaned.read region css = .ok cleaned

/-- **Processing** keeps the result that the file yields; if there is none, it fails and changes
    nothing. -/
theorem process_cases (region : BaseRegion) (store : Store) (p : Processor) :
    (∃ cleaned events, p.Yields region store cleaned ∧
      p.process region store = (⟨p.path, p.settings, some cleaned⟩, ⟨.ok cleaned, events⟩)) ∨
    ∃ failure events, (∀ cleaned, ¬p.Yields region store cleaned) ∧
      p.process region store = (p, ⟨.error failure, events⟩) := by
  unfold process Yields
  cases p.readSource store with
  | error failure =>
    refine .inr ⟨failure, [], ?_, rfl⟩
    rintro cleaned ⟨css, hcss, _⟩
    cases hcss
  | ok css =>
    simp only
    cases hread : Cleaned.read region css with
    | error fault =>
      refine .inr ⟨_, _, ?_, rfl⟩
      rintro cleaned ⟨css', hcss, hcleaned⟩
      cases hcss
      rw [hread] at hcleaned
      cases hcleaned
    | ok cleaned => exact .inl ⟨cleaned, _, ⟨css, rfl, hread⟩, rfl⟩

/-! ## 3. Writing -/

theorem openTarget_eq_ok_iff (store : Store) (path : Path) (name : Text) (target : Location) :
    openTarget store path name = .ok target ↔
      requireName name = .ok () ∧ store.target path = .ok target := by
  rw [openTarget, bind_eq_ok_iff]
  simp only [mapError_eq_ok_iff]
  exact ⟨fun ⟨⟨⟩, h⟩ => h, fun h => ⟨(), h⟩⟩

theorem encodeText_eq_ok_iff (name css : Text) (bytes : Bytes) :
    encodeText name css = .ok bytes ↔
      ∃ encoding, Encoding.ofName? name = some encoding ∧ encoding.encode css = .ok bytes := by
  simp only [encodeText, bind_eq_ok_iff, encodingOf_eq_ok_iff, mapError_eq_ok_iff]

/-- The result can be written: it is no dry run, the output can be opened, and `bytes` is the text of
    the result in the encoding of the processor. -/
structure CanWrite (store : Store) (p : Processor) (cleaned : Cleaned) (target : Location)
    (bytes : Bytes) : Prop where
  notDry : p.settings.dryRun = false
  name : requireName p.settings.encoding = .ok ()
  place : store.target p.outputPath = .ok target
  encoded : ∃ encoding, Encoding.ofName? p.settings.encoding = some encoding ∧
    encoding.encode cleaned.css = .ok bytes

/-- A result can be written if the two steps of writing it succeed. -/
theorem canWrite_iff {store : Store} {p : Processor} {cleaned : Cleaned} {target : Location}
    {bytes : Bytes} : p.CanWrite store cleaned target bytes ↔ p.settings.dryRun = false ∧
      openTarget store p.outputPath p.settings.encoding = .ok target ∧
      encodeText p.settings.encoding cleaned.css = .ok bytes := by
  rw [openTarget_eq_ok_iff, encodeText_eq_ok_iff]
  constructor
  · rintro ⟨hdry, hname, hplace, hencoded⟩
    exact ⟨hdry, ⟨hname, hplace⟩, hencoded⟩
  · rintro ⟨hdry, ⟨hname, hplace⟩, hencoded⟩
    exact ⟨hdry, hname, hplace, hencoded⟩

/-- How writing can go: what the store is afterwards, and what is answered. -/
inductive WriteOutcome (store : Store) (p : Processor) (given : Option Cleaned) :
    Store → Except Failure (Option Path) → Prop where
  /-- There is nothing to write. -/
  | nothing : given.or p.result = none →
      WriteOutcome store p given store (.error .nothingToWrite)
  /-- A dry run. -/
  | dryRun {cleaned : Cleaned} : given.or p.result = some cleaned → p.settings.dryRun = true →
      WriteOutcome store p given store (.ok none)
  /-- The output cannot be opened. -/
  | unopened {cleaned : Cleaned} {failure : Failure} : given.or p.result = some cleaned →
      p.settings.dryRun = false →
      openTarget store p.outputPath p.settings.encoding = .error failure →
      failure ≠ .nothingToWrite → WriteOutcome store p given store (.error failure)
  /-- The output is open, and therefore empty, when the text turns out not to be encodable. -/
  | emptied {cleaned : Cleaned} {target : Location} {failure : Failure} :
      given.or p.result = some cleaned → p.settings.dryRun = false →
      store.target p.outputPath = .ok target →
      encodeText p.settings.encoding cleaned.css = .error failure → failure ≠ .nothingToWrite →
      WriteOutcome store p given (store.save target []) (.error failure)
  /-- The text is written. -/
  | written {cleaned : Cleaned} {target : Location} {bytes : Bytes} :
      given.or p.result = some cleaned → p.CanWrite store cleaned target bytes →
      WriteOutcome store p given (store.save target bytes) (.ok (some p.outputPath))

/-- The failure of a file that cannot be opened is not the one of a missing result. -/
theorem openTarget_ne_nothingToWrite (store : Store) (path : Path) (name : Text) :
    openTarget store path name ≠ .error .nothingToWrite := by
  unfold openTarget requireName
  split
  · exact fun h => by cases h
  · cases store.target path with
    | error fault => exact fun h => by cases h
    | ok target => exact fun h => by cases h

/-- Neither is that of a text that cannot be encoded. -/
theorem encodeText_ne_nothingToWrite (name css : Text) :
    encodeText name css ≠ .error .nothingToWrite := by
  unfold encodeText encodingOf
  cases Encoding.ofName? name with
  | none => exact fun h => by cases h
  | some encoding =>
    simp only [Except.bind]
    cases encoding.encode css with
    | error fault => exact fun h => by cases h
    | ok bytes => exact fun h => by cases h

/-- **Writing goes in one of five ways.** -/
theorem write_outcome (store : Store) (p : Processor) (given : Option Cleaned) :
    WriteOutcome store p given (p.write store given).1 (p.write store given).2.value := by
  unfold write
  cases hgiven : given.or p.result with
  | none => exact .nothing hgiven
  | some cleaned =>
    simp only
    cases hdry : p.settings.dryRun with
    | true => exact .dryRun hgiven hdry
    | false =>
      rw [if_neg Bool.false_ne_true, writeText]
      cases hopen : openTarget store p.outputPath p.settings.encoding with
      | error failure =>
        exact .unopened hgiven hdry hopen fun h =>
          openTarget_ne_nothingToWrite _ _ _ (h ▸ hopen)
      | ok target =>
        have htarget := ((openTarget_eq_ok_iff _ _ _ _).mp hopen).2
        simp only
        cases hencode : encodeText p.settings.encoding cleaned.css with
        | error failure =>
          exact .emptied hgiven hdry htarget hencode fun h =>
            encodeText_ne_nothingToWrite _ _ (h ▸ hencode)
        | ok bytes => exact .written hgiven (canWrite_iff.mpr ⟨hdry, hopen, hencode⟩)

namespace WriteOutcome

variable {store after : Store} {p : Processor} {given : Option Cleaned}
  {value : Except Failure (Option Path)} (h : WriteOutcome store p given after value)
include h

/-- **What can be written is written.** -/
theorem eq_of_canWrite {cleaned : Cleaned} {target : Location} {bytes : Bytes}
    (hgiven : given.or p.result = some cleaned) (hcan : p.CanWrite store cleaned target bytes) :
    after = store.save target bytes ∧ value = .ok (some p.outputPath) := by
  obtain ⟨hdry, hopen, hencode⟩ := canWrite_iff.mp hcan
  cases h with
  | nothing hnone => cases hgiven.symm.trans hnone
  | dryRun _ htrue => cases hdry.symm.trans htrue
  | unopened _ _ hfailed => cases hopen.symm.trans hfailed
  | emptied hgiven' _ _ hfailed =>
    cases hgiven.symm.trans hgiven'
    cases hencode.symm.trans hfailed
  | written hgiven' hcan' =>
    obtain ⟨_, hopen', hencode'⟩ := canWrite_iff.mp hcan'
    cases hgiven.symm.trans hgiven'
    cases hopen.symm.trans hopen'
    cases hencode.symm.trans hencode'
    exact ⟨rfl, rfl⟩

end WriteOutcome

end Processor

end MediaCascade
