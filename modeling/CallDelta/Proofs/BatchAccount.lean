import CallDelta.Proofs.SinkIsolation
import CallDelta.Report.Destination
import CallDelta.Sum
import CallDelta.Tree.Growth

/-!
# The accounts of a batch

A batch keeps three accounts: the lines in its sinks, the counts of its summary, and the news for
whoever watches. Lines and counts follow the order of the records. The news come from workers that
run side by side, each with the news of one record, in any interleaving. All three tell the same
story, which is told here by the records alone.

* `LinesAccount`: one frame for each record that has a diff
* `SummaryAccount`: the counts are sums over the records
* `ProgressAccount`: each record is done once, and a bar ends with the counts of the summary

`batch_accounts` puts them together.
-/

namespace CallDelta

/-! ## Lines -/

/-- Whether a pipeline has no diff for a record. -/
def Pipeline.fails (p : Pipeline) (r : DiffRecord) : Bool :=
  (p.diff r.before r.after).toOption.isNone

section

variable {σ : Type} [ReportSink σ Unit]

/-- A sink that never fails, whatever it is given. -/
def Unfailing (s : σ) : Prop := ∀ lines, (emit lines s ()).failure = none

/-- A sink that never fails gets all lines and is finished. -/
theorem Unfailing.calls_eq {s : σ} (hs : Unfailing s) {lines : List String} {calls : List SinkCall}
    (h : Receives s lines calls) : calls = lines.map .writeLine ++ [.finish] := by
  cases h with
  | all => rfl
  | @upTo before line rest taken refused =>
    have hfail := hs (before ++ [line])
    rw [← Option.not_isSome_iff_eq_none] at hfail
    refine absurd ?_ hfail
    have hwrite : (writeLines (before ++ [line]) s ()).failure.isSome = true := by
      simp [writeLines_append, taken, writeLines, refused]
    simp [emit, hwrite]

/-- The sinks that a batch leaves if they are watched. -/
def Pipeline.watchBatch (p : Pipeline) (records : List DiffRecord) (sinks : List σ) :
    List (WatchedSink σ) :=
  (p.runBatch records (sinks.map (fun sink => { sink })) ()).sinks

/-- The lines of a batch: a sink that never fails gets the frames of all records in order, and
records without a diff make no difference. -/
structure LinesAccount (p : Pipeline) (records : List DiffRecord) (sinks : List σ) : Prop where
  frames : List.Forall₂
    (fun s watched => Unfailing s →
      watched.calls = (records.flatMap p.frame).map .writeLine ++ [.finish])
    sinks (p.watchBatch records sinks)
  without_failing :
    p.watchBatch (records.filter (fun r => !p.fails r)) sinks = p.watchBatch records sinks

theorem flatMap_frame_filter (p : Pipeline) (records : List DiffRecord) :
    (records.filter (fun r => !p.fails r)).flatMap p.frame = records.flatMap p.frame := by
  induction records with
  | nil => rfl
  | cons r records ih =>
    rw [List.filter_cons, List.flatMap_cons, ← ih]
    cases h : p.diff r.before r.after with
    | ok outcome => simp [Pipeline.fails, h, Except.toOption]
    | error e =>
      simp [Pipeline.fails, Pipeline.frame, BatchItem.frame?, BatchItem.outcome?, h,
        Except.toOption]

theorem linesAccount (p : Pipeline) (records : List DiffRecord) (sinks : List σ) :
    LinesAccount p records sinks where
  frames := (batchIsolation p records sinks).calls.imp fun _ _ h hs => hs.calls_eq h.2
  without_failing := by
    rw [Pipeline.watchBatch, Pipeline.watchBatch, runBatch_sinks, runBatch_sinks,
      flatMap_frame_filter]

end

/-! ## Counts -/

/-- The diffs of the records that have one. -/
def Pipeline.outcomes (p : Pipeline) (records : List DiffRecord) : List DiffOutcome :=
  records.filterMap (fun r => (p.diff r.before r.after).toOption)

/-- The counts of a batch. -/
structure SummaryAccount (p : Pipeline) (records : List DiffRecord) (s : BatchSummary) : Prop where
  size : s.records = records.length
  parts : s.records = s.reported + s.skipped
  reported : s.reported = (p.outcomes records).length
  skipped : s.skipped = records.countP p.fails
  inserted : s.inserted = sumOf ((p.outcomes records).map (·.summary.inserted))
  deleted : s.deleted = sumOf ((p.outcomes records).map (·.summary.deleted))
  renamed : s.renamed = sumOf ((p.outcomes records).map (·.summary.renamed))

/-- **Counting changes one by one adds the counts of their summary.** -/
theorem foldl_countChange (actions : Nat) (changes : List ChangeRecord) (s : BatchSummary) :
    changes.foldl .countChange s =
      { s with
        inserted := s.inserted + (ReportSummary.ofRecords actions changes).inserted
        deleted := s.deleted + (ReportSummary.ofRecords actions changes).deleted
        renamed := s.renamed + (ReportSummary.ofRecords actions changes).renamed } := by
  induction changes generalizing s with
  | nil => rfl
  | cons change changes ih =>
    rw [List.foldl_cons, ih]
    cases h : change.change <;>
      simp [BatchSummary.countChange, ReportSummary.ofRecords, h, Nat.add_assoc, Nat.add_comm 1]

/-- Counting records one by one adds what they have. -/
theorem foldl_count (p : Pipeline) (records : List DiffRecord) (s : BatchSummary) :
    (p.diffAll records).foldl .count s =
      { records := s.records
        reported := s.reported + (p.outcomes records).length
        skipped := s.skipped + records.countP p.fails
        inserted := s.inserted + sumOf ((p.outcomes records).map (·.summary.inserted))
        deleted := s.deleted + sumOf ((p.outcomes records).map (·.summary.deleted))
        renamed := s.renamed + sumOf ((p.outcomes records).map (·.summary.renamed)) } := by
  induction records generalizing s with
  | nil => rfl
  | cons r records ih =>
    have hstep : (p.diffAll (r :: records)).foldl .count s =
        (p.diffAll records).foldl .count
          (s.count { record := r, outcome := p.diff r.before r.after }) := rfl
    rw [hstep, ih]
    cases h : p.diff r.before r.after with
    | ok outcome =>
      simp [BatchSummary.count, BatchItem.outcome?, Pipeline.outcomes, Pipeline.fails, h,
        Except.toOption, foldl_countChange outcome.script.length, DiffOutcome.summary,
        Nat.add_assoc, Nat.add_comm 1]
    | error e =>
      simp [BatchSummary.count, BatchItem.outcome?, Pipeline.outcomes, Pipeline.fails, h,
        Except.toOption, Nat.add_assoc, Nat.add_comm 1]

theorem length_outcomes (p : Pipeline) (records : List DiffRecord) :
    (p.outcomes records).length + records.countP p.fails = records.length := by
  have hreported : (p.outcomes records).length = records.countP (fun r => ¬ p.fails r = true) := by
    rw [Pipeline.outcomes, List.length_filterMap_eq_countP]
    refine List.countP_congr fun r _ => ?_
    simp [Pipeline.fails, Option.isSome_iff_ne_none]
  rw [hreported, Nat.add_comm, ← List.length_eq_countP_add_countP]

theorem summaryAccount {σ : Type} [ReportSink σ Unit] (p : Pipeline) (records : List DiffRecord)
    (sinks : List σ) : SummaryAccount p records (p.runBatch records sinks ()).summary := by
  have hsize : (p.diffAll records).length = records.length := List.length_map ..
  have hsummary := foldl_count p records (.zero records.length)
  simp only [BatchSummary.zero, Nat.zero_add] at hsummary
  have hrun : (p.runBatch records sinks ()).summary = (p.diffAll records).foldl .count
      (.zero (p.diffAll records).length) := rfl
  rw [hrun, hsize, BatchSummary.zero, hsummary]
  exact ⟨rfl, (length_outcomes p records).symm, rfl, rfl, rfl, rfl, rfl⟩

/-! ## News -/

/-- What workers tell who run side by side: at each step one of them tells the next of its news. -/
inductive Told : List (List ProgressEvent) → List ProgressEvent → Prop
  | done {workers : List (List ProgressEvent)} (silent : ∀ news ∈ workers, news = []) :
    Told workers []
  | step {workers : List (List ProgressEvent)} {i : Nat} {e : ProgressEvent}
    {later told : List ProgressEvent}
    (next : workers[i]? = some (e :: later)) (rest : Told (workers.set i later) told) :
    Told workers (e :: told)

/-- Nothing is lost and nothing is told twice. -/
theorem Told.perm {workers : List (List ProgressEvent)} {told : List ProgressEvent}
    (h : Told workers told) : told.Perm workers.flatten := by
  induction h with
  | done silent => rw [List.flatten_eq_nil_iff.mpr silent]
  | @step workers i e later told next rest ih =>
    obtain ⟨hi, hget⟩ := List.getElem?_eq_some_iff.mp next
    have hsplit : workers = workers.take i ++ (e :: later) :: workers.drop (i + 1) := by
      rw [← hget, List.getElem_cons_drop, List.take_append_drop]
    rw [List.set_eq_take_append_cons_drop, if_pos hi, List.flatten_append, List.flatten_cons] at ih
    have hmiddle : ((workers.take i).flatten ++ e :: (later ++ (workers.drop (i + 1)).flatten)) =
        workers.flatten := by
      conv_rhs => rw [hsplit]
      simp
    rw [← hmiddle]
    exact (ih.cons e).trans List.perm_middle.symm

namespace ProgressEvent

/-- The text of a note. -/
def note? : ProgressEvent → Option String
  | note text => some text
  | _ => none

/-- The number of a record that is done, and whether it was skipped. -/
def done? : ProgressEvent → Option (Nat × Bool)
  | done index skipped => some (index, skipped)
  | _ => none

/-- Whether the news are about the batch and not about one of its records. -/
def isBound : ProgressEvent → Bool
  | start _ | finish => true
  | note _ | done .. => false

end ProgressEvent

namespace ProgressBar

/-- News about records add to a bar what is done in them. -/
theorem foldl_after {news : List ProgressEvent} (h : ∀ e ∈ news, e.isBound = false)
    (bar : ProgressBar) :
    news.foldl after bar =
      { done := bar.done + (news.filterMap (·.done?)).length
        skipped := bar.skipped + (news.filterMap (·.done?)).countP (·.2) } := by
  induction news generalizing bar with
  | nil => rfl
  | cons e news ih =>
    rw [List.foldl_cons, ih fun e he => h e (List.mem_cons_of_mem _ he)]
    cases e with
    | start | finish => cases h _ List.mem_cons_self
    | note text => rfl
    | done index skipped =>
      cases skipped <;> simp [after, ProgressEvent.done?, Nat.add_assoc, Nat.add_comm 1]

end ProgressBar

/-- The note about a record that has no diff. -/
def Pipeline.skipNote? (p : Pipeline) (r : DiffRecord) (index : Nat) : Option String :=
  match p.diff r.before r.after with
  | .ok _ => none
  | .error e => some ("skipping record " ++ toString index ++ ": " ++ (DiffError.source e).message)

/-- The news about a batch with a summary: they begin with the number of records and close with the
end, each record is done once, skipped or not, with one note if it has no diff, and a bar comes to
the counts of the summary. -/
structure ProgressAccount (p : Pipeline) (records : List DiffRecord) (s : BatchSummary)
    (news : List ProgressEvent) : Prop where
  bounds :
    ∃ told, news = .start records.length :: (told ++ [.finish]) ∧ ∀ e ∈ told, e.isBound = false
  done_once : (news.filterMap (·.done?)).Perm (records.zipIdx.map (fun (r, i) => (i, p.fails r)))
  one_note :
    (news.filterMap (·.note?)).Perm (records.zipIdx.filterMap (fun (r, i) => p.skipNote? r i))
  bar : ∀ bar, news.foldl ProgressBar.after bar = { done := s.records, skipped := s.skipped }

/-- The news of the workers of a batch, one worker for each record. -/
def Pipeline.workers (p : Pipeline) (records : List DiffRecord) : List (List ProgressEvent) :=
  (p.diffAll records).zipIdx.map (fun (item, i) => item.news i)

section

variable (p : Pipeline) (records : List DiffRecord)

theorem flatten_workers :
    (p.workers records).flatten = records.zipIdx.flatMap (fun (r, i) =>
      BatchItem.news { record := r, outcome := p.diff r.before r.after } i) := by
  rw [Pipeline.workers, Pipeline.diffAll, List.zipIdx_map, List.map_map, List.flatMap_def]
  rfl

theorem isBound_of_mem_workers {e : ProgressEvent} (h : e ∈ (p.workers records).flatten) :
    e.isBound = false := by
  rw [flatten_workers, List.mem_flatMap] at h
  obtain ⟨⟨r, i⟩, -, he⟩ := h
  simp only [BatchItem.news] at he
  split at he
  · rw [List.mem_singleton.mp he]
    rfl
  · rcases List.mem_pair.mp he with rfl | rfl <;> rfl

theorem done?_workers : (p.workers records).flatten.filterMap (·.done?) =
    records.zipIdx.map (fun (r, i) => (i, p.fails r)) := by
  rw [flatten_workers, List.filterMap_flatMap, List.map_eq_flatMap]
  refine List.flatMap_congr fun (r, i) _ => ?_
  simp only [BatchItem.news, Pipeline.fails]
  cases p.diff r.before r.after <;> rfl

theorem note?_workers : (p.workers records).flatten.filterMap (·.note?) =
    records.zipIdx.filterMap (fun (r, i) => p.skipNote? r i) := by
  rw [flatten_workers, List.filterMap_flatMap, List.filterMap_eq_flatMap_toList]
  refine List.flatMap_congr fun (r, i) _ => ?_
  simp only [BatchItem.news, Pipeline.skipNote?]
  cases p.diff r.before r.after <;> rfl

theorem countP_skipped : (records.zipIdx.map (fun (r, i) => (i, p.fails r))).countP (·.2) =
    records.countP p.fails := by
  conv_rhs => rw [← List.zipIdx_map_fst 0 records, List.countP_map]
  rw [List.countP_map]
  rfl

/-- The news of the workers may be told in any order. -/
theorem progressAccount {s : BatchSummary} (hs : SummaryAccount p records s)
    {told : List ProgressEvent} (h : told.Perm (p.workers records).flatten) :
    ProgressAccount p records s (.start records.length :: (told ++ [.finish])) := by
  have hbound : ∀ e ∈ told, e.isBound = false := fun e he =>
    isBound_of_mem_workers p records (h.mem_iff.mp he)
  have hdone :
      (told.filterMap (·.done?)).Perm (records.zipIdx.map (fun (r, i) => (i, p.fails r))) :=
    done?_workers p records ▸ h.filterMap _
  refine ⟨⟨told, rfl, hbound⟩, ?_, ?_, fun bar => ?_⟩
  · simpa [ProgressEvent.done?] using hdone
  · have hnote := h.filterMap (·.note?)
    rw [note?_workers] at hnote
    simpa [ProgressEvent.note?] using hnote
  · rw [List.foldl_cons, List.foldl_append, ProgressBar.foldl_after hbound, hdone.length_eq,
      hdone.countP_eq, countP_skipped, List.length_map, List.length_zipIdx, hs.size, hs.skipped]
    simp [ProgressBar.after]

/-- Records that are done one after another are one way of telling the news. -/
theorem batchNews_perm {order : List Nat} (h : order.Perm (List.range records.length)) :
    ∃ told, batchNews (p.diffAll records) order = .start records.length :: (told ++ [.finish]) ∧
      told.Perm (p.workers records).flatten := by
  have hlength : (p.diffAll records).length = records.length := List.length_map ..
  refine ⟨_, by rw [batchNews, hlength]; rfl, (h.flatMap_right _).trans (.of_eq ?_)⟩
  rw [← hlength, List.range_eq_range', ← List.zipIdx_map_snd 0 (p.diffAll records),
    List.flatMap_map, Pipeline.workers, ← List.flatMap_def]
  refine List.flatMap_congr fun (item, i) h => ?_
  rw [List.mem_zipIdx_iff_getElem?.mp h, Option.map_some, Option.getD_some]

end

/-- **The accounts of a batch agree.** In whatever order the workers tell their news, the lines, the
counts and the news are those of the records. -/
theorem batch_accounts {σ : Type} [ReportSink σ Unit] (p : Pipeline) (records : List DiffRecord)
    (sinks : List σ) :
    let summary := (p.runBatch records sinks ()).summary
    LinesAccount p records sinks ∧ SummaryAccount p records summary ∧
      (∀ told, Told (p.workers records) told →
        ProgressAccount p records summary (.start records.length :: (told ++ [.finish]))) ∧
      ∀ order, order.Perm (List.range records.length) →
        ProgressAccount p records summary (batchNews (p.diffAll records) order) := by
  have hsummary := summaryAccount p records sinks
  refine ⟨linesAccount p records sinks, hsummary,
    fun told h => progressAccount p records hsummary h.perm, fun order horder => ?_⟩
  obtain ⟨told, hnews, htold⟩ := batchNews_perm p records horder
  rw [hnews]
  exact progressAccount p records hsummary htold

/-- Memory takes every line. -/
theorem MemorySink.writeLines_eq {ω : Type} (lines : List String) (s : MemorySink) (w : ω) :
    writeLines lines s w =
      { failure := none, sink := { lines := s.lines ++ lines }, world := w } := by
  induction lines generalizing s with
  | nil => simp
  | cons line lines ih =>
    show writeLines lines ({ lines := s.lines ++ [line] } : MemorySink) w = _
    rw [ih, List.append_assoc, List.singleton_append]

theorem MemorySink.unfailing (s : MemorySink) : Unfailing s := by
  intro lines
  rw [emit, MemorySink.writeLines_eq]
  rfl

/-- A source is the name of a function, which is called once. An empty text is no source. -/
def nameReader : Pipeline :=
  .standard (fun source =>
    if source = "" then .error (.parse "<source>" "no tree")
    else .ok (.ofRose (callRose [identifierRose source none] none))) {}

/-- A callee is renamed, and the other record has no diff. Its note is told first, but it is done
last. -/
theorem batch_accounts_rename_and_empty :
    let records := [⟨"f", "g", some "c1", none⟩, ⟨"", "g", none, none⟩]
    let told := [.note "skipping record 1: Parse error: Parse error in <source>: no tree",
      .done 0 false, .done 1 true]
    let summary := (nameReader.runBatch records [({} : MemorySink)] ()).summary
    Unfailing ({} : MemorySink) ∧ Told (nameReader.workers records) told ∧
      [1, 0].Perm (List.range records.length) ∧
      (nameReader.watchBatch records [({} : MemorySink)]).map (·.calls) =
        [["-------- begin --------", "commit_id_source: c1", "diff_source: ",
            "edit script: 1 actions", "action 1: update-node f -> g", "function name: g",
            "-------- end --------"].map .writeLine ++ [.finish]] ∧
      ProgressAccount nameReader records summary (.start 2 :: (told ++ [.finish])) ∧
      ProgressAccount nameReader records summary
        (batchNews (nameReader.diffAll records) [1, 0]) := by
  intro records told summary
  obtain ⟨hlines, -, hold, horder⟩ := batch_accounts nameReader records [({} : MemorySink)]
  have htold : Told (nameReader.workers records) told := by
    have hworkers : nameReader.workers records =
        [[.done 0 false], [.note "skipping record 1: Parse error: Parse error in <source>: no tree",
          .done 1 true]] := by
      decide +kernel
    rw [hworkers]
    exact .step (i := 1) rfl (.step (i := 0) rfl (.step (i := 1) rfl (.done (by simp))))
  have hperm : [1, 0].Perm (List.range records.length) := by decide
  refine ⟨MemorySink.unfailing _, htold, hperm, ?_, hold told htold, horder [1, 0] hperm⟩
  obtain ⟨watched, rest, hcalls, hrest, hwatch⟩ := List.forall₂_cons_left_iff.mp hlines.frames
  rw [hwatch, List.forall₂_nil_left_iff.mp hrest, List.map_singleton,
    hcalls (MemorySink.unfailing _)]
  decide +kernel

end CallDelta
