import MediaCascade.Command.Run
import MediaCascade.Proofs.Files.GivenPaths
import MediaCascade.Proofs.Files.Overwrite
import MediaCascade.Proofs.Text.ControlSequences

/-!
# A dry run, a run that writes, and a report agree

`dedupe` on a dry run, `dedupe` and `lint` read the same file in the same way, and differ in what
they do with what came out of it.

* `ofArguments_dryRunWords` and its companions: every file and every encoding can be given on a
  command line.
* `process_of_decodes`, `process_of_refused`: what comes out does not hang on where it is written to
  and whether it is.
* `Agreement`: what the three runs say of a file that can be cleaned. `Refusal`: of another one they
  say the same, and change nothing.
* `runs_agree`: started from one store, three command lines without `-v` agree in this sense.

The dry run prints without control sequences what the other run writes with them. The two texts are
the same exactly if there are none (`Agreement.same_text_iff`).
-/

namespace MediaCascade.Command

/-! ## 1. From the command line to the command -/

/-- A command line for a dry run. -/
def dryRunWords (file encoding : Text) : List Text :=
  ["dedupe".toList, "--dry-run".toList, "--encoding".toList, encoding, "--".toList, file]

/-- A command line for a run that writes to an output. -/
def outputWords (file output encoding : Text) : List Text :=
  ["dedupe".toList, "--output".toList, output, "--encoding".toList, encoding, "--".toList, file]

/-- A command line for a report. -/
def lintWords (file encoding : Text) : List Text :=
  ["lint".toList, "--encoding".toList, encoding, "--".toList, file]

/-- **Every file and every encoding can be given**, also those that look like options. -/
theorem ofArguments_dryRunWords (file encoding : Text) :
    Invocation.ofArguments (dryRunWords file encoding) =
      .ok (.task false (.dedupe [file] none true encoding)) := rfl

theorem ofArguments_outputWords (file output encoding : Text) :
    Invocation.ofArguments (outputWords file output encoding) =
      .ok (.task false (.dedupe [file] (some output) false encoding)) := rfl

theorem ofArguments_lintWords (file encoding : Text) :
    Invocation.ofArguments (lintWords file encoding) =
      .ok (.task false (.lint [file] encoding)) := rfl

section CommandLine

variable {region : BaseRegion} {time : Text} {store : Store} {log : List Event → Text}
  {file encoding : Text} {output : Option Text}

theorem run_eq_finished {arguments : List Text} {verbose : Bool} {task : Task} {outcome : Outcome}
    (hread : Invocation.ofArguments arguments = .ok (.task verbose task))
    (htask : runTask region (logLines verbose time) store task = .ok outcome) :
    run region time store arguments = .finished outcome := by
  rw [run, hread]
  simp only [htask]

theorem oneFile_of_kindAt (hfile : store.kindAt file = .ok .file) :
    oneFile store [file] = .ok file := by
  have hrequired : requireFile store file = .ok () := by rw [requireFile, hfile]
  rw [oneFile, hrequired]
  rfl

/-- Where a run writes: to its output, or over its file. -/
def writtenPath (file : Text) (output : Option Text) : Path :=
  ((output.filter fun path => !path.isEmpty).map Path.ofText).getD (.ofText file)

/-- An output that can be written is not refused. -/
theorem requireOutput_of_target {place : Location}
    (h : store.target (writtenPath file output) = .ok place) :
    requireOutput store output = .ok () := by
  match output, h with
  | none, _ => rfl
  | some [], _ => rfl
  | some (c :: rest), h =>
    have hplace : store.target (.ofText (c :: rest)) = .ok place := h
    obtain ⟨hdirectory, hnull⟩ := Store.kindAt_ne_of_target hplace
    rw [requireOutput]
    split
    · next hkind => exact absurd hkind hdirectory
    · next hkind => exact absurd hkind hnull
    · rfl

theorem runTask_dedupe (hfile : store.kindAt file = .ok .file)
    (houtput : requireOutput store output = .ok ()) (dryRun : Bool) :
    runTask region log store (.dedupe [file] output dryRun encoding) =
      .ok (dedupe region log store file output dryRun encoding) := by
  rw [runTask, houtput, oneFile_of_kindAt hfile]
  rfl

theorem runTask_lint (hfile : store.kindAt file = .ok .file) :
    runTask region log store (.lint [file] encoding) =
      .ok (lint region log store file encoding) := by
  rw [runTask, oneFile_of_kindAt hfile]
  rfl

end CommandLine

/-! ## 2. Processing -/

/-- The bytes are those of the text `css`, whose lines may end in another way there, in the encoding
    of the given name. -/
def DecodesTo (encoding : Text) (bytes : Bytes) (css : Text) : Prop :=
  '\x00' ∉ encoding ∧ ∃ e text, Encoding.ofName? encoding = some e ∧ e.decode bytes = .ok text ∧
    Text.unifyLineEnds text = css

section Processing

variable {region : BaseRegion} {store : Store} {file encoding css : Text} {bytes : Bytes}
  (hload : store.load (.ofText file) = .ok bytes)
include hload

/-- A processor reads what the bytes of its file decode to. -/
theorem readSource_eq_ok_iff_decodesTo (output : Option Path) (dryRun : Bool) :
    (Processor.new (.ofText file) ⟨encoding, output, dryRun⟩).readSource store = .ok css ↔
      DecodesTo encoding bytes css := by
  have hname : Processor.requireName encoding = .ok () ↔ '\x00' ∉ encoding := by
    unfold Processor.requireName
    by_cases hnull : '\x00' ∈ encoding
    · simp [hnull]
    · simp [hnull]
  rw [Processor.readSource_eq_ok_iff]
  show Processor.requireName encoding = .ok () ∧ (∃ content e text,
    store.load (.ofText file) = .ok content ∧ _) ↔ _
  rw [hname, DecodesTo]
  refine and_congr_right fun _ => ⟨?_, ?_⟩
  · rintro ⟨content, e, text, hcontent, hrest⟩
    cases hload.symm.trans hcontent
    exact ⟨e, text, hrest⟩
  · rintro ⟨e, text, hrest⟩
    exact ⟨bytes, e, text, hload, hrest⟩

/-- **What comes out** of a file that decodes is the same whatever is done with it. -/
theorem process_of_decodes (hcss : DecodesTo encoding bytes css) (output : Option Path)
    (dryRun : Bool) :
    let processor := Processor.new (.ofText file) ⟨encoding, output, dryRun⟩
    processor.process .beforeMedia store =
      (⟨processor.path, processor.settings, some (clean css)⟩,
        ⟨.ok (clean css), .loaded processor.path.toText css.length ::
          cleaningEvents .beforeMedia css⟩) := by
  intro processor
  rw [Processor.process, (readSource_eq_ok_iff_decodesTo hload output dryRun).mpr hcss]
  rfl

omit hload in
/-- What comes out does not hang on where it is to be written. -/
theorem process_settings (output : Option Path) (dryRun : Bool) :
    ((Processor.new (.ofText file) ⟨encoding, output, dryRun⟩).process region store).2 =
      ((Processor.new (.ofText file) ⟨encoding, none, true⟩).process region store).2 := by
  have hread : (Processor.new (.ofText file) ⟨encoding, output, dryRun⟩).readSource store =
      (Processor.new (.ofText file) ⟨encoding, none, true⟩).readSource store := rfl
  rw [Processor.process, Processor.process, hread]
  cases (Processor.new (.ofText file) ⟨encoding, none, true⟩).readSource store with
  | error failure => rfl
  | ok css =>
    simp only
    cases Cleaned.read region css with
    | error fault => rfl
    | ok cleaned => rfl

/-- **A file that is refused** is refused with the same failure whatever was to be done with it. -/
theorem process_of_refused (h : region = .absent ∨ ∀ css, ¬DecodesTo encoding bytes css) :
    ∃ failure events, ∀ output dryRun,
      ((Processor.new (.ofText file) ⟨encoding, output, dryRun⟩).process region store).2 =
        ⟨.error failure, events⟩ := by
  rcases (Processor.new (.ofText file) ⟨encoding, none, true⟩).process_cases region store with
    ⟨cleaned, events, ⟨css, hread, hcleaned⟩, _⟩ | ⟨failure, events, _, hprocess⟩
  · rcases h with rfl | hnone
    · cases hcleaned
    · exact absurd ((readSource_eq_ok_iff_decodesTo hload none true).mp hread) (hnone css)
  · refine ⟨failure, events, fun output dryRun => ?_⟩
    rw [process_settings, hprocess]

end Processing

/-! ## 3. What is logged -/

section Logged

variable {time : Text}

/-- Events that only inform are not shown. -/
theorem logLines_eq_nil {events : List Event} (h : ∀ e ∈ events, e.level = .info) :
    logLines false time events = [] := by
  have hnone : events.filter (fun e => e.level != .info) = [] := by
    rw [List.filter_eq_nil_iff]
    intro e he
    rw [h e he]
    decide
  show (events.filter fun e => e.level != .info).flatMap _ = []
  rw [hnone, List.flatMap_nil]

theorem logLines_append (events later : List Event) :
    logLines false time (events ++ later) =
      logLines false time events ++ logLines false time later := by
  show ((events ++ later).filter fun e => e.level != .info).flatMap _ = _
  rw [List.filter_append, List.flatMap_append]
  rfl

/-- **Each warning is shown.** -/
theorem logLines_warned (warnings : List Warning) :
    logLines false time (warnings.map .warned) = warnings.flatMap fun w => asLine w.line := by
  have hall : (warnings.map Event.warned).filter (fun e => e.level != .info) =
      warnings.map .warned := by
    rw [List.filter_eq_self]
    intro e he
    obtain ⟨w, _, rfl⟩ := List.mem_map.mp he
    rfl
  show ((warnings.map Event.warned).filter fun e => e.level != .info).flatMap _ = _
  rw [hall, List.flatMap_map]
  rfl

/-- Of cleaning a text, the warnings are shown. -/
theorem logLines_cleaning (path css : Text) :
    logLines false time (.loaded path css.length :: cleaningEvents .beforeMedia css) =
      (clean css).warnings.flatMap fun w => asLine w.line := by
  have hevents : Event.loaded path css.length :: cleaningEvents .beforeMedia css =
      [.loaded path css.length] ++ ((clean css).warnings.map .warned ++ [_, _]) := rfl
  rw [hevents, logLines_append, logLines_append, logLines_warned, logLines_eq_nil, logLines_eq_nil,
    List.append_nil, List.nil_append]
  · simp [Event.level]
  · simp [Event.level]

/-- Of writing, nothing is shown. -/
theorem logLines_write (store : Store) (p : Processor) (given : Option Cleaned) :
    logLines false time (p.write store given).2.events = [] := by
  apply logLines_eq_nil
  unfold Processor.write
  split
  · simp
  · split
    · simp [Event.level]
    · simp only
      split <;> simp [Event.level]

end Logged

/-- Each warning twice: as it is logged, and as it is printed. -/
def warningLines (cleaned : Cleaned) : Text :=
  (cleaned.warnings.flatMap fun w => asLine w.line) ++
    cleaned.warnings.flatMap fun w => plainLine w.line

/-! ## 4. What is printed -/

/-- What a run that writes says of the removals, in front of the path it wrote. -/
def removedCounts (cleaned : Cleaned) : Text :=
  "Removed ".toList ++ Text.ofNat cleaned.duplicateCount ++ " duplicate declaration(s), ".toList ++
    Text.ofNat cleaned.prunedCount ++ " empty selector(s); wrote ".toList

/-- What a report says of warnings and removals at its end. -/
def reportCounts (cleaned : Cleaned) : Text :=
  "Summary: ".toList ++ Text.ofNat cleaned.warnings.length ++ " warning(s), ".toList ++
    Text.ofNat cleaned.duplicateCount ++ " duplicate(s), ".toList ++
    Text.ofNat cleaned.prunedCount ++ " empty selector(s)".toList

theorem dedupeSummary_eq (cleaned : Cleaned) (path : Path) :
    dedupeSummary cleaned path = removedCounts cleaned ++ path.toText := by
  unfold dedupeSummary removedCounts
  rfl

/-- Of the line about a run that writes, only the path can have control sequences. -/
theorem plainLine_dedupeSummary (cleaned : Cleaned) (path : Path) :
    plainLine (dedupeSummary cleaned path) =
      asLine (removedCounts cleaned ++ Text.plain path.toText) := by
  have hfront : Text.escapeCharacter ∉ removedCounts cleaned := by
    unfold removedCounts
    simp only [List.mem_append, Text.escape_not_mem_ofNat, or_false]
    decide
  rw [plainLine, dedupeSummary_eq, Text.plain_append hfront]

/-- **A report ends with its counts.** -/
theorem exists_lintReport_eq (cleaned : Cleaned) :
    ∃ lines, lintReport cleaned = lines ++ asLine (reportCounts cleaned) := by
  have hcounts : Text.escapeCharacter ∉ reportCounts cleaned := by
    unfold reportCounts
    simp only [List.mem_append, Text.escape_not_mem_ofNat, or_false]
    decide
  have hline : plainLine (reportCounts cleaned) = asLine (reportCounts cleaned) := by
    rw [plainLine, Text.plain_eq_self hcounts]
  rw [← hline]
  unfold lintReport reportCounts
  exact ⟨_, rfl⟩

/-! ## 5. The three runs -/

/-- What the runs on a file with the result `cleaned` have in common: the dry one, the one that
    writes to `place`, and the report. -/
structure Agreement (store : Store) (encoding : Text) (path : Path) (place : Location)
    (cleaned : Cleaned) (dry written report : Outcome) : Prop where
  dry_exitCode : dry.exitCode = 0
  dry_store : dry.store = store
  dry_output : dry.output = Text.plain cleaned.css
  /-- The dry run prints what is written, unless there is a control sequence in it. -/
  same_text_iff : dry.output = cleaned.css ↔ ¬Text.HasControlSequence cleaned.css
  written_exitCode : written.exitCode = 0
  written_store : ∃ e bytes, Encoding.ofName? encoding = some e ∧
    e.encode cleaned.css = .ok bytes ∧ store.Rewritten place bytes written.store
  written_output : written.output = asLine (removedCounts cleaned ++ Text.plain path.toText)
  /-- Each warning is logged and printed. -/
  errors : written.errors = warningLines cleaned
  same_errors : dry.errors = written.errors
  report_store : report.store = store
  /-- The report finds fault with a file of which something goes. -/
  report_exitCode : report.exitCode =
    if cleaned.warnings = [] ∧ cleaned.removals = [] then 0 else 1
  report_output : ¬(cleaned.warnings = [] ∧ cleaned.removals = []) →
    ∃ lines, report.output = lines ++ asLine (reportCounts cleaned)

/-- What the runs on a file that cannot be cleaned have in common. -/
structure Refusal (store : Store) (dry written report : Outcome) : Prop where
  exitCode : report.exitCode = 1
  store_eq : report.store = store
  output : report.output = []
  dry_eq : dry = report
  written_eq : written = report

section Runs

variable {region : BaseRegion} (time : Text) {store : Store} {file encoding css : Text}
  {output : Option Text} {bytes : Bytes}

section Decodes

variable (hload : store.load (.ofText file) = .ok bytes) (hcss : DecodesTo encoding bytes css)
include hload hcss

/-- A dry run prints the result, and leaves the store as it is. -/
theorem dedupe_of_dryRun :
    dedupe .beforeMedia (logLines false time) store file output true encoding =
      ⟨0, Text.plain (clean css).css, warningLines (clean css), none, store⟩ := by
  simp only [dedupe, process_of_decodes hload hcss, logLines_cleaning, logLines_write,
    List.append_nil]
  rfl

/-- **A run with an output that can be written** writes the result there: it can be encoded. -/
theorem dedupe_of_target {place : Location}
    (hplace : store.target (writtenPath file output) = .ok place) :
    ∃ e written, Encoding.ofName? encoding = some e ∧ e.encode (clean css).css = .ok written ∧
      dedupe .beforeMedia (logLines false time) store file output false encoding =
        ⟨0, plainLine (dedupeSummary (clean css) (writtenPath file output)),
          warningLines (clean css), none, store.save place written⟩ := by
  let target := (output.filter fun path => !path.isEmpty).map Path.ofText
  let processed : Processor := ⟨.ofText file, ⟨encoding, target, false⟩, some (clean css)⟩
  have hyields : processed.Yields .beforeMedia store (clean css) :=
    ⟨css, (readSource_eq_ok_iff_decodesTo hload target false).mpr hcss, rfl⟩
  obtain ⟨hname, _, _, e, _, written, _, hencoding, _, _, hwritten⟩ := hyields.encodable
  have hcan : processed.CanWrite store (clean css) place written :=
    ⟨rfl, hname, hplace, e, hencoding, hwritten⟩
  have hgiven : (some (clean css)).or processed.result = some (clean css) := rfl
  have houtcome := processed.write_outcome store (some (clean css))
  obtain ⟨hstore, hvalue⟩ := houtcome.eq_of_canWrite hgiven hcan
  refine ⟨e, written, hencoding, hwritten, ?_⟩
  simp only [dedupe, process_of_decodes hload hcss, logLines_cleaning, logLines_write,
    List.append_nil]
  split
  · next failure hfailed => cases hvalue.symm.trans hfailed
  · next hdry => cases hvalue.symm.trans hdry
  · next path hpath =>
    obtain rfl : writtenPath file output = path :=
      Option.some.inj (Except.ok.inj (hvalue.symm.trans hpath))
    exact congrArg (Outcome.mk 0 _ _ none) hstore

/-- A report leaves the store as it is. -/
theorem lint_of_decodes :
    lint .beforeMedia (logLines false time) store file encoding =
      if (clean css).warnings.isEmpty && (clean css).removals.isEmpty then
        ⟨0, plainLine (cleanReport (.ofText file)),
          (clean css).warnings.flatMap fun w => asLine w.line, none, store⟩
      else
        ⟨1, lintReport (clean css), (clean css).warnings.flatMap fun w => asLine w.line, none,
          store⟩ := by
  simp only [lint, process_of_decodes hload hcss, logLines_cleaning]
  rfl

end Decodes

/-- A run that fails leaves the store as it was, and prints nothing. -/
theorem failed_eq (store : Store) (errors : Text) (failure : Failure) :
    (failed store errors failure).exitCode = 1 ∧ (failed store errors failure).store = store ∧
      (failed store errors failure).output = [] := by
  cases failure <;> exact ⟨rfl, rfl, rfl⟩

/-- **Of a file that decodes, the runs say the same.** -/
theorem agreement (hload : store.load (.ofText file) = .ok bytes)
    (hcss : DecodesTo encoding bytes css) {place : Location} (dryOutput : Option Text)
    (hplace : store.target (writtenPath file output) = .ok place) :
    Agreement store encoding (writtenPath file output) place (clean css)
      (dedupe .beforeMedia (logLines false time) store file dryOutput true encoding)
      (dedupe .beforeMedia (logLines false time) store file output false encoding)
      (lint .beforeMedia (logLines false time) store file encoding) := by
  obtain ⟨e, written, hencoding, hwritten, hwrites⟩ := dedupe_of_target time hload hcss hplace
  have hclean : ((clean css).warnings.isEmpty && (clean css).removals.isEmpty) = true ↔
      (clean css).warnings = [] ∧ (clean css).removals = [] := by
    rw [Bool.and_eq_true, List.isEmpty_iff, List.isEmpty_iff]
  rw [dedupe_of_dryRun time hload hcss, hwrites, lint_of_decodes time hload hcss]
  simp only [hclean]
  constructor
  case same_text_iff => exact Text.plain_eq_self_iff _
  case written_store => exact ⟨e, written, hencoding, hwritten, store.rewritten_save place written⟩
  case written_output => exact plainLine_dedupeSummary (clean css) (writtenPath file output)
  case report_store => split <;> rfl
  case report_exitCode => split <;> rfl
  case report_output =>
    intro hdirty
    rw [if_neg hdirty]
    exact exists_lintReport_eq (clean css)
  all_goals rfl

/-- **Of a file that is refused, too**: there is one failure, and one way to report it. -/
theorem refusal (hload : store.load (.ofText file) = .ok bytes)
    (hrefused : region = .absent ∨ ∀ css, ¬DecodesTo encoding bytes css)
    (log : List Event → Text) (dryOutput : Option Text) :
    Refusal store
      (dedupe region log store file dryOutput true encoding)
      (dedupe region log store file output false encoding)
      (lint region log store file encoding) := by
  obtain ⟨failure, events, hprocess⟩ := process_of_refused hload hrefused
  have hdedupe : ∀ output dryRun, dedupe region log store file output dryRun encoding =
      failed store (log events) failure := fun output dryRun => by
    simp only [dedupe, hprocess]
  have hlint : lint region log store file encoding = failed store (log events) failure := by
    simp only [lint, hprocess]
  obtain ⟨hexit, hstore, houtput⟩ := failed_eq store (log events) failure
  rw [hdedupe, hdedupe, hlint]
  exact ⟨hexit, hstore, houtput, rfl, rfl⟩

end Runs

/-- **The three ways to run a command line agree.** One file, one encoding and one store are given
    to `dedupe` on a dry run, to `dedupe` with an output that can be written, and to `lint`, without
    `-v`. If the file decodes and base rules can be found, the runs are in agreement about the
    cleaned text: the dry run prints what the other one writes, up to control sequences, and exactly
    that if there are none; the report finds fault exactly with a text of which something goes, and
    gives the counts that the other run gives. If not, the runs end alike, with exit code 1 and
    without a change. -/
theorem runs_agree (region : BaseRegion) (time : Text) {store : Store} {file encoding : Text}
    {dryOutput output : Option Text} {place : Location}
    {dryArguments arguments lintArguments : List Text}
    (hfile : store.kindAt file = .ok .file)
    (hdryOutput : requireOutput store dryOutput = .ok ())
    (hplace : store.target (writtenPath file output) = .ok place)
    (hdry : Invocation.ofArguments dryArguments =
      .ok (.task false (.dedupe [file] dryOutput true encoding)))
    (hwrite : Invocation.ofArguments arguments =
      .ok (.task false (.dedupe [file] output false encoding)))
    (hlint : Invocation.ofArguments lintArguments = .ok (.task false (.lint [file] encoding))) :
    ∃ bytes dry written report, store.load (.ofText file) = .ok bytes ∧
      run region time store dryArguments = .finished dry ∧
      run region time store arguments = .finished written ∧
      run region time store lintArguments = .finished report ∧
      (region = .beforeMedia → ∀ css, DecodesTo encoding bytes css →
        Agreement store encoding (writtenPath file output) place (clean css) dry written report) ∧
      (region = .absent ∨ (∀ css, ¬DecodesTo encoding bytes css) →
        Refusal store dry written report) := by
  obtain ⟨bytes, hload⟩ := Store.exists_load_of_kindAt hfile
  have houtput := requireOutput_of_target hplace
  refine ⟨bytes, _, _, _, hload,
    run_eq_finished hdry (runTask_dedupe hfile hdryOutput true),
    run_eq_finished hwrite (runTask_dedupe hfile houtput false),
    run_eq_finished hlint (runTask_lint hfile), ?_, ?_⟩
  · rintro rfl css hcss
    exact agreement time hload hcss dryOutput hplace
  · intro hrefused
    exact refusal hload hrefused _ dryOutput

/-- A file with a control sequence in a value. -/
def coloured : Store :=
  ⟨⟨[(⟨.above 0, [['f']]⟩, [0x61, 0x7B, 0x62, 0x3A, 0x1B, 0x5B, 0x6D, 0x7D])]⟩, []⟩

/-- The control sequence is written and not printed. -/
theorem runs_agree_coloured :
    let css : Text := ['a', '{', 'b', ':', '\x1b', '[', 'm', '}']
    let place : Location := ⟨.above 0, [['o']]⟩
    ∃ dry written report,
      run .beforeMedia [] coloured (dryRunWords ['f'] defaultEncoding) = .finished dry ∧
      run .beforeMedia [] coloured (outputWords ['f'] ['o'] defaultEncoding) = .finished written ∧
      run .beforeMedia [] coloured (lintWords ['f'] defaultEncoding) = .finished report ∧
      coloured.Rewritten place (Utf8.encode (clean css).css) written.store ∧
      dry.output ≠ (clean css).css ∧ report.exitCode = 0 := by
  intro css place
  have hutf8 : Encoding.ofName? defaultEncoding = some .utf8 := by decide +kernel
  have hfile : coloured.kindAt ['f'] = .ok .file := by decide +kernel
  have hplace : coloured.target (writtenPath ['f'] (some ['o'])) = .ok place := by decide +kernel
  obtain ⟨bytes, dry, written, report, hload, hdry, hwrite, hlint, hagree, _⟩ :=
    runs_agree .beforeMedia [] hfile rfl hplace (ofArguments_dryRunWords ['f'] defaultEncoding)
      (ofArguments_outputWords ['f'] ['o'] defaultEncoding)
      (ofArguments_lintWords ['f'] defaultEncoding)
  have hbytes : coloured.load (.ofText ['f']) = .ok (Utf8.encode css) := by decide +kernel
  obtain rfl : bytes = Utf8.encode css := Except.ok.inj (hload.symm.trans hbytes)
  have hcss : DecodesTo defaultEncoding (Utf8.encode css) css :=
    ⟨by decide, .utf8, css, hutf8, by decide +kernel, rfl⟩
  obtain ⟨_, _, _, hsame, _, ⟨e, content, hencoding, hcontent, hwritten⟩, _, _, _, _, hexit, _⟩ :=
    hagree rfl css hcss
  cases hutf8.symm.trans hencoding
  obtain rfl : Utf8.encode (clean css).css = content := Except.ok.inj hcontent
  have hsequence : Text.HasControlSequence (clean css).css :=
    ⟨(clean css).css.drop 11, List.drop_suffix 11 _, by decide +kernel⟩
  have hclean : (clean css).warnings = [] ∧ (clean css).removals = [] := by decide +kernel
  refine ⟨dry, written, report, hdry, hwrite, hlint, hwritten, ?_, ?_⟩
  · exact fun heq => hsame.mp heq hsequence
  · rw [hexit, if_pos hclean]

end MediaCascade.Command
