import MediaCascade.Proofs.Encoding.RoundTrip
import MediaCascade.Proofs.Files.Steps
import MediaCascade.Proofs.Stylesheet.Characters

/-!
# A file can be overwritten with what came out of it

The output file is emptied before the text is encoded, so that a text that cannot be encoded would
leave nothing of it. That does not happen to what comes out of a file: its characters are those that
were decoded and a few of ASCII, so that the encoding of the file has them all. Nor do line ends
change on the way: no carriage return is left when a file has been read, and none comes in.

* `Processor.Yields.encodable`: a result can be written in the encoding of the file that yields it.
* `Session.process_then_write`: processing a file and writing what came out.
-/

namespace MediaCascade

/-- Cleaning that does not fail is cleaning with the base region in use. -/
theorem Cleaned.eq_clean_of_read {region : BaseRegion} {css : Text} {cleaned : Cleaned}
    (h : Cleaned.read region css = .ok cleaned) : cleaned = clean css := by
  cases region with
  | beforeMedia =>
    cases h
    rfl
  | absent => cases h

namespace Processor

/-- **A result can be written in the encoding of its file**, and has no carriage return. -/
theorem Yields.encodable {region : BaseRegion} {store : Store} {p : Processor} {cleaned : Cleaned}
    (h : p.Yields region store cleaned) :
    requireName p.settings.encoding = .ok () ∧ '\r' ∉ cleaned.css ∧
      ∃ content encoding text bytes, store.load p.path = .ok content ∧
        Encoding.ofName? p.settings.encoding = some encoding ∧
        encoding.decode content = .ok text ∧
        Cleaned.read region (Text.unifyLineEnds text) = .ok cleaned ∧
        encoding.encode cleaned.css = .ok bytes := by
  obtain ⟨css, hread, hcleaned⟩ := h
  obtain ⟨hname, content, encoding, text, hcontent, hencoding, htext, rfl⟩ :=
    (readSource_eq_ok_iff p store css).mp hread
  have hclean : cleaned = clean (Text.unifyLineEnds text) := Cleaned.eq_clean_of_read hcleaned
  have hreturn : '\r' ∉ cleaned.css := by
    rw [hclean]
    exact no_carriageReturn_clean (Text.not_mem_unifyLineEnds text)
  have hcharacters : ∀ c ∈ cleaned.css, c ∈ text ∨ c.toNat < 128 := by
    intro c hc
    rw [hclean] at hc
    rcases mem_source_or_layout hc with hsource | hlayout
    · rcases Text.mem_of_mem_unifyLineEnds hsource with htext | rfl
      · exact .inl htext
      · exact .inr (by decide)
    · exact .inr (toNat_lt_of_mem_layoutCharacters c hlayout)
  obtain ⟨bytes, hbytes⟩ := Encoding.exists_encode_of_decode htext hcharacters
  exact ⟨hname, hreturn, content, encoding, text, bytes, hcontent, hencoding, htext, hcleaned,
    hbytes⟩

/-- A processor of the same settings reads back what was written. -/
theorem readSource_of_rewritten {store written : Store} {p : Processor} {cleaned : Cleaned}
    {target : Location} {bytes : Bytes} (hcan : p.CanWrite store cleaned target bytes)
    (hreturn : '\r' ∉ cleaned.css) (hwritten : store.Rewritten target bytes written) :
    (new p.outputPath p.settings).readSource written = .ok cleaned.css := by
  obtain ⟨_, hname, hplace, encoding, hencoding, hbytes⟩ := hcan
  exact (readSource_eq_ok_iff _ _ _).mpr ⟨hname, bytes, encoding, cleaned.css,
    Store.load_of_rewritten hplace hwritten, hencoding, Encoding.decode_encode hbytes,
    Text.unifyLineEnds_eq_self hreturn⟩

end Processor

namespace Session

/-- **Processing a file and writing what came out is safe for the file that is overwritten.** If
    processing fails, the file yields no result and no file has changed. If it does not, the result
    is that of the text of the file, and writing it succeeds: the output file has exactly the result
    in the encoding of the processor, which reads it back from there, and no other file has
    changed. -/
theorem process_then_write (region : BaseRegion) {s : Session} {name : Text} {p : Processor}
    {target : Location} (hp : s.processors.get? name = some p)
    (hdry : p.settings.dryRun = false) (htarget : s.store.target p.outputPath = .ok target) :
    let processed := s.step region (.process name)
    let written := processed.1.step region (.write name none)
    match processed.2.value with
    | .error _ =>
      processed.1.store = s.store ∧ ∀ cleaned, ¬p.Yields region s.store cleaned
    | .ok reply =>
      ∃ content encoding text cleaned bytes,
        s.store.load p.path = .ok content ∧
        Encoding.ofName? p.settings.encoding = some encoding ∧
        encoding.decode content = .ok text ∧
        Cleaned.read region (Text.unifyLineEnds text) = .ok cleaned ∧
        reply = .processed cleaned ∧
        encoding.encode cleaned.css = .ok bytes ∧
        written.2.value = .ok (.written (some p.outputPath)) ∧
        s.store.Rewritten target bytes written.1.store ∧
        (Processor.new p.outputPath p.settings).readSource written.1.store = .ok cleaned.css := by
  intro processed written
  rcases p.process_cases region s.store with ⟨cleaned, events, hyields, hprocess⟩ |
    ⟨failure, events, hnone, hprocess⟩
  · obtain ⟨hname, hreturn, content, encoding, text, bytes, hcontent, hencoding, htext, hcleaned,
      hbytes⟩ := hyields.encodable
    have hprocessed : processed = (⟨s.store, s.processors.insert name
        ⟨p.path, p.settings, some cleaned⟩⟩, ⟨.ok (.processed cleaned), events⟩) := by
      simp only [processed, step, hp, hprocess]
      rfl
    let cleaner : Processor := ⟨p.path, p.settings, some cleaned⟩
    have hcan : cleaner.CanWrite s.store cleaned target bytes :=
      ⟨hdry, hname, htarget, encoding, hencoding, hbytes⟩
    have hresult : (none : Option Cleaned).or cleaner.result = some cleaned := rfl
    have hwrite := (cleaner.write_outcome s.store none).eq_of_canWrite hresult hcan
    have hwritten : written.1.store = s.store.save target bytes ∧
        written.2.value = .ok (.written (some p.outputPath)) := by
      simp only [written, hprocessed, step, OrderedMap.get?_insert, if_true]
      exact ⟨hwrite.1, congrArg (Except.map SessionReply.written) hwrite.2⟩
    have hrewritten : s.store.Rewritten target bytes written.1.store :=
      hwritten.1 ▸ s.store.rewritten_save target bytes
    rw [hprocessed]
    exact ⟨content, encoding, text, cleaned, bytes, hcontent, hencoding, htext, hcleaned, rfl,
      hbytes, hwritten.2, hrewritten,
      Processor.readSource_of_rewritten (p := cleaner) hcan hreturn hrewritten⟩
  · have hprocessed : processed = (⟨s.store, s.processors.insert name p⟩,
        ⟨.error failure, events⟩) := by
      simp only [processed, step, hp, hprocess]
      rfl
    rw [hprocessed]
    exact ⟨rfl, hnone⟩

/-- A file in Latin-1 with a letter beyond ASCII and a carriage return, and another file to write
    to. -/
def accented : Session :=
  ⟨⟨⟨[(⟨.above 0, [['i']]⟩, [0xE9, 0x7B, 0x62, 0x3A, 0x63, 0x7D, 0x0D]),
      (⟨.above 0, [['o']]⟩, [0x2A])]⟩, []⟩,
    ⟨[(['p'], .new (.ofText ['i']) ⟨['l', 'a', 't', 'i', 'n', '1'], some (.ofText ['o']), false⟩)]⟩⟩

theorem process_then_write_accented :
    let processed := accented.step .beforeMedia (.process ['p'])
    let written := processed.1.step .beforeMedia (.write ['p'] none)
    let target : Location := ⟨.above 0, [['o']]⟩
    ∃ cleaned bytes, processed.2.value = .ok (.processed cleaned) ∧
      Encoding.encode .latin1 cleaned.css = .ok bytes ∧
      written.2.value = .ok (.written (some (.ofText ['o']))) ∧
      accented.store.Rewritten target bytes written.1.store := by
  intro processed written target
  have hp : accented.processors.get? ['p'] = some _ := rfl
  have htarget : accented.store.target (.ofText ['o']) = .ok target := rfl
  have hname : Encoding.ofName? ['l', 'a', 't', 'i', 'n', '1'] = some .latin1 := by decide +kernel
  have hok : processed.2.value.isOk = true := by decide +kernel
  have h := process_then_write .beforeMedia hp rfl htarget
  cases hvalue : processed.2.value with
  | error failure =>
    rw [hvalue] at hok
    cases hok
  | ok reply =>
    simp only [processed] at hvalue
    simp only [hvalue] at h
    obtain ⟨_, encoding, _, cleaned, bytes, _, hencoding, _, _, rfl, hbytes, hwritten, hstore, _⟩ :=
      h
    cases hname.symm.trans hencoding
    exact ⟨cleaned, bytes, rfl, hbytes, hwritten, hstore⟩

end Session

end MediaCascade
