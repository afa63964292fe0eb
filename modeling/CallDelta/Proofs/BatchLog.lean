import CallDelta.Proofs.BatchAccount
import CallDelta.Proofs.LogGrowth
import CallDelta.Proofs.TextLines

/-!
# Reading the log of a batch

The log of a batch is a sequence of frames, each between two markers, and its first two lines have
the values of the record. The values are not escaped. So a value with a line feed takes more than
one line of the file, and a line feed followed by a marker forges the end of a frame or the
beginning of another.

* `readFrames?`: the frames of a log
* `readsBack_iff`: when a log can be read back
* `batch_log_reads_back_iff`: the same for the logs that batches leave
* `frame_forged_by_commit`: a record that is taken for two
-/

namespace CallDelta

/-! ## Frames -/

/-- Reads the frames of a log, with the lines of a frame that has begun in reverse order. Frames do
not nest, and nothing stands outside of them. -/
def readFramesFrom : Option (List String) → List String → Option (List (List String))
  | none, [] => some []
  | some _, [] => none
  | none, line :: lines => if line = beginMarker then readFramesFrom (some []) lines else none
  | some body, line :: lines =>
    if line = endMarker then (readFramesFrom none lines).map (body.reverse :: ·)
    else if line = beginMarker then none
    else readFramesFrom (some (line :: body)) lines

/-- Reads the frames of a log, without the markers. -/
def readFrames? (lines : List String) : Option (List (List String)) := readFramesFrom none lines

/-- Whether a line is one of the markers. -/
def isMarker (line : String) : Bool := line == beginMarker || line == endMarker

theorem readFramesFrom_body {body : List String} (hbody : ∀ line ∈ body, isMarker line = false)
    (before rest : List String) :
    readFramesFrom (some before) (body ++ endMarker :: rest) =
      (readFrames? rest).map ((before.reverse ++ body) :: ·) := by
  induction body generalizing before with
  | nil =>
    rw [List.nil_append, readFramesFrom, if_pos rfl, List.append_nil]
    rfl
  | cons line body ih =>
    have hline := hbody line List.mem_cons_self
    simp only [isMarker, Bool.or_eq_false_iff, beq_eq_false_iff_ne] at hline
    rw [List.cons_append, readFramesFrom, if_neg hline.2, if_neg hline.1,
      ih fun other hother => hbody other (List.mem_cons_of_mem _ hother)]
    simp

/-- A frame is read if no line in it is a marker. -/
theorem readFrames?_frame {body : List String} (hbody : ∀ line ∈ body, isMarker line = false)
    (rest : List String) :
    readFrames? (beginMarker :: (body ++ endMarker :: rest)) =
      (readFrames? rest).map (body :: ·) := by
  rw [readFrames?, readFramesFrom, if_pos rfl, readFramesFrom_body hbody, List.reverse_nil,
    List.nil_append]

/-- What is read has as many frames as there are markers of each kind, and its lines are those of
the text. -/
theorem of_readFramesFrom {before : Option (List String)} {lines : List String}
    {frames : List (List String)} (h : readFramesFrom before lines = some frames) :
    lines.count beginMarker + before.toList.length = frames.length ∧
      lines.count endMarker = frames.length ∧
      ∀ frame ∈ frames, ∀ line ∈ frame, line ∈ before.toList.flatten ∨ line ∈ lines := by
  have hmarkers : beginMarker ≠ endMarker := by decide
  induction lines generalizing before frames with
  | nil =>
    cases before with
    | none =>
      cases h
      simp
    | some body => cases h
  | cons line lines ih =>
    cases before with
    | none =>
      rw [readFramesFrom] at h
      split at h
      next hbegin =>
        subst hbegin
        obtain ⟨hbegins, hends, hmem⟩ := ih h
        refine ⟨by simpa using hbegins, by simpa [List.count_cons, hmarkers] using hends, ?_⟩
        intro frame hframe other hother
        exact Or.inr (List.mem_cons_of_mem _ (by simpa using hmem frame hframe other hother))
      next => cases h
    | some body =>
      rw [readFramesFrom] at h
      split at h
      next hend =>
        subst hend
        obtain ⟨later, hlater, rfl⟩ := Option.map_eq_some_iff.mp h
        obtain ⟨hbegins, hends, hmem⟩ := ih hlater
        refine ⟨by simpa [List.count_cons, hmarkers.symm] using hbegins, by simpa using hends, ?_⟩
        intro frame hframe other hother
        rcases List.mem_cons.mp hframe with rfl | hframe
        · exact Or.inl (by simpa using hother)
        · exact Or.inr (List.mem_cons_of_mem _ (by simpa using hmem frame hframe other hother))
      next hend =>
        split at h
        next => cases h
        next hbegin =>
          obtain ⟨hbegins, hends, hmem⟩ := ih h
          refine ⟨by simpa [List.count_cons, hbegin] using hbegins,
            by simpa [List.count_cons, hend] using hends, ?_⟩
          intro frame hframe other hother
          have := hmem frame hframe other hother
          simp only [Option.toList_some, List.flatten_singleton, List.mem_cons] at this ⊢
          tauto

/-! ## The log of records -/

/-- The records that are reported, with what is found in them. -/
def Pipeline.reported (p : Pipeline) (records : List DiffRecord) :
    List (DiffRecord × DiffOutcome) :=
  records.filterMap (fun r => (p.diff r.before r.after).toOption.map (r, ·))

/-- The frames of records that are reported. -/
def reportedLines (reported : List (DiffRecord × DiffOutcome)) : List String :=
  reported.flatMap fun e => e.1.frame e.2

theorem flatMap_frame_eq (p : Pipeline) (records : List DiffRecord) :
    records.flatMap p.frame = reportedLines (p.reported records) := by
  unfold reportedLines Pipeline.reported
  rw [List.filterMap_eq_flatMap_toList, List.flatMap_assoc]
  refine List.flatMap_congr fun r _ => ?_
  rw [Pipeline.frame, BatchItem.frame?, BatchItem.outcome?]
  cases p.diff r.before r.after with
  | error e => rfl
  | ok outcome => exact (List.append_nil _).symm

/-- A log can be read back: it has one frame for each record, in order, and each begins with the two
lines that have the values of the record. -/
def ReadsBack (records : List DiffRecord) (text : String) : Prop :=
  ∃ frames, readFrames? (textLines text) = some frames ∧
    List.Forall₂ (fun r frame => [r.commitLine, r.diffLine] <+: frame) records frames

/-- A reported record that can be read back: its values have no line feed, and no line feed in its
report is followed by a marker. -/
structure IsPlain (e : DiffRecord × DiffOutcome) : Prop where
  commit : '\n' ∉ (e.1.commit.getD "").toList
  diff : '\n' ∉ (e.1.diff.getD "").toList
  report : ∀ line ∈ e.2.lines, ∀ piece ∈ linePieces line, isMarker piece = false

instance (e : DiffRecord × DiffOutcome) : Decidable (IsPlain e) :=
  decidable_of_iff
    ('\n' ∉ (e.1.commit.getD "").toList ∧ '\n' ∉ (e.1.diff.getD "").toList ∧
      ∀ line ∈ e.2.lines, ∀ piece ∈ linePieces line, isMarker piece = false)
    ⟨fun ⟨hcommit, hdiff, hreport⟩ => ⟨hcommit, hdiff, hreport⟩,
     fun h => ⟨h.commit, h.diff, h.report⟩⟩

section

variable {e : DiffRecord × DiffOutcome} {reported : List (DiffRecord × DiffOutcome)}

theorem linePieces_marker :
    linePieces beginMarker = [beginMarker] ∧ linePieces endMarker = [endMarker] := by
  constructor <;> exact linePieces_of_notMem (by decide +kernel)

theorem notMem_append_iff {words : String} (hwords : '\n' ∉ words.toList) (value : String) :
    '\n' ∉ (words ++ value).toList ↔ '\n' ∉ value.toList := by
  rw [String.toList_append, List.mem_append, not_or, and_iff_right hwords]

theorem notMem_commitLine_iff (r : DiffRecord) :
    '\n' ∉ r.commitLine.toList ↔ '\n' ∉ (r.commit.getD "").toList :=
  notMem_append_iff (by decide +kernel) _

theorem notMem_diffLine_iff (r : DiffRecord) :
    '\n' ∉ r.diffLine.toList ↔ '\n' ∉ (r.diff.getD "").toList :=
  notMem_append_iff (by decide +kernel) _

/-- The lines of a file with the frame of a record. -/
theorem flatMap_linePieces_frame (r : DiffRecord) (outcome : DiffOutcome) :
    (r.frame outcome).flatMap linePieces =
      beginMarker :: ((r.body outcome).flatMap linePieces ++ [endMarker]) := by
  simp [DiffRecord.frame, linePieces_marker]

theorem textLines_frames (reported : List (DiffRecord × DiffOutcome)) :
    textLines (linesText (reportedLines reported)) =
      reported.flatMap
        (fun e => beginMarker :: ((e.1.body e.2).flatMap linePieces ++ [endMarker])) := by
  rw [textLines_linesText, reportedLines, List.flatMap_assoc]
  exact List.flatMap_congr fun e _ => flatMap_linePieces_frame e.1 e.2

theorem IsPlain.body_eq (h : IsPlain e) : (e.1.body e.2).flatMap linePieces =
    e.1.commitLine :: e.1.diffLine :: e.2.lines.flatMap linePieces := by
  rw [DiffRecord.body, List.flatMap_cons, List.flatMap_cons,
    linePieces_of_notMem ((notMem_commitLine_iff _).mpr h.commit),
    linePieces_of_notMem ((notMem_diffLine_iff _).mpr h.diff)]
  rfl

/-- A line that begins with words of its own is no marker. -/
theorem isMarker_append {words : String} {c : Char} (h : words.toList.head? = some c) (hc : c ≠ '-')
    (rest : String) : isMarker (words ++ rest) = false := by
  have hhead : (words ++ rest).toList.head? = some c := by
    rw [String.toList_append, List.head?_append, h, Option.some_or]
  have hne : ∀ marker : String, marker.toList.head? = some '-' → words ++ rest ≠ marker := by
    rintro marker hmarker rfl
    exact hc (Option.some.inj (hhead.symm.trans hmarker))
  simp only [isMarker, beq_false_of_ne (hne beginMarker rfl), beq_false_of_ne (hne endMarker rfl),
    Bool.or_self]

theorem IsPlain.no_marker (h : IsPlain e) : ∀ line ∈ (e.1.body e.2).flatMap linePieces,
    isMarker line = false := by
  rw [h.body_eq]
  intro line hline
  rcases List.mem_cons.mp hline with rfl | hline
  · exact isMarker_append (c := 'c') rfl (by decide) _
  rcases List.mem_cons.mp hline with rfl | hline
  · exact isMarker_append (c := 'd') rfl (by decide) _
  · obtain ⟨reportLine, hreport, hpiece⟩ := List.mem_flatMap.mp hline
    exact h.report reportLine hreport line hpiece

/-- The frames of plain records are read one by one. -/
theorem readFrames?_of_plain (h : ∀ e ∈ reported, IsPlain e) :
    readFrames? (textLines (linesText (reportedLines reported))) =
      some (reported.map
        (fun e => e.1.commitLine :: e.1.diffLine :: e.2.lines.flatMap linePieces)) := by
  rw [textLines_frames]
  induction reported with
  | nil => rfl
  | cons e reported ih =>
    have he := h e List.mem_cons_self
    rw [List.flatMap_cons, List.cons_append, List.append_assoc, List.singleton_append,
      readFrames?_frame he.no_marker, ih fun e' he' => h e' (List.mem_cons_of_mem _ he'),
      he.body_eq]
    rfl

/-- Markers in the frames, besides the two of each. -/
theorem count_marker_frames {marker : String} (hmarker : marker = beginMarker ∨ marker = endMarker)
    (reported : List (DiffRecord × DiffOutcome)) :
    (textLines (linesText (reportedLines reported))).count marker =
      reported.length +
        (reported.flatMap (fun e => (e.1.body e.2).flatMap linePieces)).count marker := by
  have hmarkers : beginMarker ≠ endMarker := by decide
  rw [textLines_frames]
  induction reported with
  | nil => rfl
  | cons e reported ih =>
    rw [List.flatMap_cons, List.flatMap_cons, List.count_append, List.count_append, ih,
      List.length_cons]
    rcases hmarker with rfl | rfl
    · simp [List.count_append, hmarkers.symm]
      omega
    · simp [List.count_append, hmarkers]
      omega

/-- **A log can be read back exactly if its records are plain.** -/
theorem readsBack_iff (reported : List (DiffRecord × DiffOutcome)) :
    ReadsBack (reported.map (·.1)) (linesText (reportedLines reported)) ↔
      ∀ e ∈ reported, IsPlain e := by
  constructor
  · rintro ⟨frames, hread, hframes⟩ e he
    obtain ⟨hbegins, hends, hlines⟩ := of_readFramesFrom hread
    have hlength : frames.length = reported.length := by simpa using hframes.length_eq.symm
    -- the markers of the frames are all there are
    have hnone : ∀ marker, marker = beginMarker ∨ marker = endMarker →
        marker ∉ (e.1.body e.2).flatMap linePieces := by
      intro marker hmarker hmem
      have hcount := count_marker_frames hmarker reported
      have hpos :
          0 < (reported.flatMap (fun e => (e.1.body e.2).flatMap linePieces)).count marker :=
        List.count_pos_iff.mpr (List.mem_flatMap.mpr ⟨e, he, hmem⟩)
      rcases hmarker with rfl | rfl
      · simp only [Option.toList_none, List.length_nil] at hbegins
        omega
      · omega
    -- the lines with the values are lines of the file
    obtain ⟨frame, hframe, hvalues⟩ :
        ∃ frame ∈ frames, [e.1.commitLine, e.1.diffLine] <+: frame := by
      obtain ⟨i, hi, hget⟩ := List.mem_iff_getElem.mp (List.mem_map_of_mem (f := (·.1)) he)
      have hi' : i < frames.length := by
        rw [hlength]
        simpa using hi
      refine ⟨frames[i], List.getElem_mem hi', ?_⟩
      rw [← hget]
      exact hframes.get hi hi'
    have hplain : ∀ line ∈ frame, '\n' ∉ line.toList := by
      intro line hline
      have hmem := hlines frame hframe line hline
      simp only [Option.toList_none, List.flatten_nil, List.not_mem_nil, false_or] at hmem
      rw [textLines_linesText] at hmem
      obtain ⟨written, -, hpiece⟩ := List.mem_flatMap.mp hmem
      exact notMem_of_mem_linePieces hpiece
    refine ⟨(notMem_commitLine_iff _).mp (hplain _ (hvalues.subset (by simp))),
      (notMem_diffLine_iff _).mp (hplain _ (hvalues.subset (by simp))),
      fun line hline piece hpiece => ?_⟩
    have hmem : piece ∈ (e.1.body e.2).flatMap linePieces :=
      List.mem_flatMap.mpr ⟨line, by simp [DiffRecord.body, hline], hpiece⟩
    have hne : ∀ marker, marker = beginMarker ∨ marker = endMarker → piece ≠ marker := by
      rintro marker hmarker rfl
      exact hnone piece hmarker hmem
    simp [isMarker, hne beginMarker (Or.inl rfl), hne endMarker (Or.inr rfl)]
  · intro h
    refine ⟨_, readFrames?_of_plain h, ?_⟩
    rw [List.forall₂_map_left_iff, List.forall₂_map_right_iff]
    exact List.forall₂_same.mpr fun e _ => ⟨_, rfl⟩

end

/-! ## The log of a batch -/

theorem length_reported (p : Pipeline) (records : List DiffRecord) :
    (p.reported records).length = (p.outcomes records).length := by
  have houtcomes : (p.reported records).map (·.2) = p.outcomes records := by
    rw [Pipeline.reported, List.map_filterMap, Pipeline.outcomes]
    refine List.filterMap_congr fun r _ => ?_
    rw [Option.map_map]
    exact Option.map_id'
  rw [← houtcomes, List.length_map]

theorem reported_runBatch {σ ω : Type} [ReportSink σ ω] (p : Pipeline) (records : List DiffRecord)
    (sinks : List σ) (w : ω) :
    (p.runBatch records sinks w).summary.reported = (p.reported records).length := by
  have hrun : (p.runBatch records sinks w).summary =
      (p.diffAll records).foldl .count (.zero (p.diffAll records).length) := rfl
  rw [hrun, foldl_count, length_reported]
  exact Nat.zero_add _

/-- A batch with one log, which is a file: nothing fails, and the file takes the frames of all
records. -/
theorem runBatch_on_file {host : Host} {path : String} {f : LogFile} {content : ByteArray}
    (h : host.disk.FileAt path f.place content) (p : Pipeline) (records : List DiffRecord) :
    let run := p.runBatch records [f] host
    run.errors = [] ∧ run.world.disk.FileAt path f.place
      (content ++ (f.pending ++ linesText (reportedLines (p.reported records))).toUTF8) := by
  obtain ⟨herrors, hworld⟩ := reportBatch_singleton (p.diffAll records) f host
  rw [flatten_frames, flatMap_frame_eq] at herrors hworld
  have hfailure : (emit (reportedLines (p.reported records)) f host).failure = none := by
    rw [LogFile.emit_host]
    exact LogFile.failure_emit_on_file h _
  constructor
  · exact herrors.trans (congrArg Option.toList hfailure)
  · show (reportBatch (p.diffAll records) [f] host).world.disk.FileAt path f.place _
    rw [hworld]
    exact h.took (LogFile.took_emit_host _ f host hfailure)

/-- **The log that a batch leaves can be read back exactly if the reported records are plain.** It
is then cut at the markers into one frame for each of them. -/
theorem batch_log_reads_back_iff (p : Pipeline) (records : List DiffRecord) (host : Host)
    (path : String) (hd : host.disk.Grounded)
    (hentry : host.disk.entryAt? path = some (.file .empty)) :
    ∃ f, Destination.openLog path host = (.ok f, host) ∧
      let run := p.runBatch records [f] host
      run.errors = [] ∧ run.summary.reported = (p.reported records).length ∧
        ∃ text, run.world.disk.entryAt? path = some (.file text.toUTF8) ∧
          (ReadsBack ((p.reported records).map (·.1)) text ↔
            ∀ e ∈ p.reported records, IsPlain e) := by
  obtain ⟨place, hfile⟩ := Disk.FileAt.of_entryAt? hd hentry
  obtain ⟨herrors, hleft⟩ := runBatch_on_file (f := ⟨path, place, ""⟩) hfile p records
  refine ⟨⟨path, place, ""⟩, ?_, herrors, reported_runBatch .., _, hleft.entryAt?_eq.trans ?_,
    readsBack_iff (p.reported records)⟩
  · rw [Destination.openLog, hfile.openAt_eq]
  · rw [String.empty_append, ByteArray.empty_append]

/-- A host with an empty log. -/
def emptyLogHost : Host where
  disk := Disk.fresh.store "calls.log" (.file .empty)
  output := .fresh

/-- A record without a diff has a line feed, one has a carriage return, and the commit of another is
a marker. -/
theorem log_reads_back_beside_skipped_record :
    let renamed : DiffRecord := ⟨"f", "g", some "c1", some "-f\r+g"⟩
    let skipped : DiffRecord := ⟨"", "g", some "x\ny", none⟩
    let same : DiffRecord := ⟨"f", "f", some endMarker, none⟩
    emptyLogHost.disk.Grounded ∧ emptyLogHost.disk.entryAt? "calls.log" = some (.file .empty) ∧
      ∃ f, Destination.openLog "calls.log" emptyLogHost = (.ok f, emptyLogHost) ∧
        let run := nameReader.runBatch [renamed, skipped, same] [f] emptyLogHost
        run.errors = [] ∧ run.summary.reported = 2 ∧
          ∃ text, run.world.disk.entryAt? "calls.log" = some (.file text.toUTF8) ∧
            ReadsBack [renamed, same] text := by
  intro renamed skipped same
  have hd : emptyLogHost.disk.Grounded := by decide +kernel
  have hentry : emptyLogHost.disk.entryAt? "calls.log" = some (.file .empty) := by decide +kernel
  have hreported : (nameReader.reported [renamed, skipped, same]).map (·.1) = [renamed, same] := by
    decide +kernel
  have hplain : ∀ e ∈ nameReader.reported [renamed, skipped, same], IsPlain e := by decide +kernel
  obtain ⟨f, hopen, herrors, hcount, text, htext, hback⟩ :=
    batch_log_reads_back_iff nameReader [renamed, skipped, same] emptyLogHost "calls.log" hd hentry
  rw [hreported] at hback
  rw [← List.length_map (f := (·.1)), hreported] at hcount
  exact ⟨hd, hentry, f, hopen, herrors, hcount, text, htext, hback.mpr hplain⟩

/-- A record whose commit has the rest of a frame and the beginning of another. -/
def forgingRecord : DiffRecord where
  before := "f"
  after := "f"
  commit := some ("a\ndiff_source: \nedit script: 0 actions\n-------- end --------\n" ++
    "-------- begin --------\ncommit_id_source: b")
  diff := none

/-- One record leaves the log of two, so the log cannot be read back. -/
theorem frame_forged_by_commit :
    let f : LogFile := { path := "calls.log", place := ["work", "calls.log"], pending := "" }
    let run (records : List DiffRecord) := nameReader.runBatch records [f] emptyLogHost
    let log (records : List DiffRecord) := (run records).world.disk.entryAt? "calls.log"
    Destination.openLog "calls.log" emptyLogHost = (.ok f, emptyLogHost) ∧
      (run [forgingRecord]).errors = [] ∧ (run [forgingRecord]).summary.reported = 1 ∧
      log [forgingRecord] = log [⟨"f", "f", some "a", none⟩, ⟨"f", "f", some "b", none⟩] ∧
      ∃ text, log [forgingRecord] = some (.file text.toUTF8) ∧
        (readFrames? (textLines text)).map List.length = some 2 ∧
        ¬ ReadsBack [forgingRecord] text := by
  intro f run log
  have hfile : emptyLogHost.disk.FileAt "calls.log" f.place .empty := by
    refine ⟨?_, ?_, ?_⟩ <;> decide +kernel
  have hopen : Destination.openLog "calls.log" emptyLogHost = (.ok f, emptyLogHost) := by
    rw [Destination.openLog, hfile.openAt_eq]
  let pair : List DiffRecord := [⟨"f", "f", some "a", none⟩, ⟨"f", "f", some "b", none⟩]
  obtain ⟨herrors, hforged⟩ := runBatch_on_file hfile nameReader [forgingRecord]
  obtain ⟨-, hpair⟩ := runBatch_on_file hfile nameReader pair
  have htext : linesText (reportedLines (nameReader.reported [forgingRecord])) =
      linesText (reportedLines (nameReader.reported pair)) := by
    decide +kernel
  rw [htext, String.empty_append, ByteArray.empty_append] at hforged
  rw [String.empty_append, ByteArray.empty_append] at hpair
  have hplain : ∀ e ∈ nameReader.reported pair, IsPlain e := by decide +kernel
  have hframes : (readFrames? (textLines
      (linesText (reportedLines (nameReader.reported pair))))).map List.length = some 2 := by
    rw [readFrames?_of_plain hplain, Option.map_some, List.length_map]
    decide +kernel
  refine ⟨hopen, herrors, (reported_runBatch ..).trans (by decide +kernel),
    hforged.entryAt?_eq.trans hpair.entryAt?_eq.symm, _, hforged.entryAt?_eq, hframes, ?_⟩
  rintro ⟨frames, hread, hback⟩
  rw [hread] at hframes
  exact absurd (hback.length_eq.trans (Option.some.inj hframes)) (by decide)

end CallDelta
