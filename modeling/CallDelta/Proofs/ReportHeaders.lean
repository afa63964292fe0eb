import CallDelta.Proofs.ReportReading

/-!
# The headers of a report

Each action that has something to report has one header, and its number counts the actions of the
script. Whether a header is written depends on the header above, which may come from any action
further up: the records of one action stand together, behind those of the actions before it, so the
header above is one of an earlier action or their own.

* `filterMap_headerNumber?_recordLines`: one header for each action that reports
* `named_recordLines`: a name below each header
* `countP_isNameLine_recordLines`: a name for each record

`headers_of_reportLines` puts them together.
-/

namespace CallDelta

/-! ## Kinds of lines -/

/-- The number in a header. Other lines have none. -/
def headerNumber? (line : String) : Option Nat :=
  (line.toList.dropPrefix? "action ".toList).map (fun rest => (readNumber rest).1)

/-- Whether a line gives the name of a callee. -/
def isNameLine (line : String) : Bool := "function name: ".toList.isPrefixOf line.toList

theorem headerNumber?_title (n : Nat) :
    headerNumber? ("edit script: " ++ toString n ++ " actions") = none := by
  simp [headerNumber?, String.toList_append, List.dropPrefix?]

theorem isNameLine_title (n : Nat) :
    isNameLine ("edit script: " ++ toString n ++ " actions") = false := by
  simp [isNameLine, String.toList_append, List.isPrefixOf]

@[simp] theorem headerNumber?_argument (text : String) :
    headerNumber? ("argument: " ++ text) = none := by
  simp [headerNumber?, String.toList_append, List.dropPrefix?]

@[simp] theorem isNameLine_argument (text : String) :
    isNameLine ("argument: " ++ text) = false := by
  simp [isNameLine, String.toList_append, List.isPrefixOf]

namespace ChangeRecord

variable (r : ChangeRecord)

theorem headerNumber?_headerStart (rest : String) :
    headerNumber? (r.headerStart ++ rest) = some r.actionIndex := by
  have hline : (r.headerStart ++ rest).toList =
      "action ".toList ++ ((toString r.actionIndex).toList ++ ':' :: ([' '] ++
        (r.action.name.toList ++ ' ' :: rest.toList))) := by
    simp [headerStart, String.toList_append]
  rw [headerNumber?, hline, dropPrefix?_append, Option.map_some,
    readNumber_toString _ (show ':'.isDigit = false from rfl)]

theorem isNameLine_headerStart (rest : String) : isNameLine (r.headerStart ++ rest) = false := by
  simp [isNameLine, headerStart, String.toList_append, List.isPrefixOf]

@[simp] theorem headerNumber?_renameHeader : headerNumber? r.renameHeader = some r.actionIndex := by
  rw [renameHeader, String.append_assoc, String.append_assoc]
  exact r.headerNumber?_headerStart _

@[simp] theorem headerNumber?_callHeader : headerNumber? r.callHeader = some r.actionIndex := by
  rw [callHeader, String.append_assoc]
  exact r.headerNumber?_headerStart _

@[simp] theorem isNameLine_renameHeader : isNameLine r.renameHeader = false := by
  rw [renameHeader, String.append_assoc, String.append_assoc]
  exact r.isNameLine_headerStart _

@[simp] theorem isNameLine_callHeader : isNameLine r.callHeader = false := by
  rw [callHeader, String.append_assoc]
  exact r.isNameLine_headerStart _

@[simp] theorem headerNumber?_nameLine : headerNumber? r.nameLine = none := by
  simp [headerNumber?, nameLine, String.toList_append, List.dropPrefix?]

@[simp] theorem isNameLine_nameLine : isNameLine r.nameLine = true := by
  simp [isNameLine, nameLine, String.toList_append]

@[simp] theorem filterMap_headerNumber?_argumentLines :
    r.argumentLines.filterMap headerNumber? = [] := by
  simp [argumentLines]

@[simp] theorem countP_isNameLine_argumentLines : r.argumentLines.countP isNameLine = 0 := by
  simp [argumentLines, List.countP_eq_zero]

/-- A record has a header unless it can do with the one above. -/
theorem filterMap_headerNumber?_lines (above : Option Nat) :
    (r.lines above).filterMap headerNumber? =
      if r.change ≠ .renamed ∧ above = some r.actionIndex then [] else [r.actionIndex] := by
  rw [lines]
  by_cases hrenamed : r.change = .renamed
  · simp [hrenamed]
  · by_cases habove : above = some r.actionIndex
    · simp [hrenamed, habove]
    · simp [hrenamed, habove]

/-- A record has one name. -/
theorem countP_isNameLine_lines (above : Option Nat) : (r.lines above).countP isNameLine = 1 := by
  rw [lines]
  by_cases hrenamed : r.change = .renamed
  · simp [hrenamed]
  · by_cases habove : above = some r.actionIndex
    · simp [hrenamed, habove]
    · simp [hrenamed, habove]

end ChangeRecord

/-! ## A name below each header -/

/-- Lines in which each header has a name directly below it. -/
def HeadersNamed (lines : List String) : Prop :=
  ∀ i header, lines[i]? = some header → (headerNumber? header).isSome = true →
    ∃ name, lines[i + 1]? = some name ∧ isNameLine name = true

theorem HeadersNamed.append {upper lower : List String} (hupper : HeadersNamed upper)
    (hlower : HeadersNamed lower) : HeadersNamed (upper ++ lower) := by
  intro i header hget hheader
  by_cases hi : i < upper.length
  · rw [List.getElem?_append_left hi] at hget
    obtain ⟨name, hnext, hname⟩ := hupper i header hget hheader
    have hlt : i + 1 < upper.length := (List.getElem?_eq_some_iff.mp hnext).1
    exact ⟨name, by rw [List.getElem?_append_left hlt, hnext], hname⟩
  · have hle : upper.length ≤ i := Nat.le_of_not_lt hi
    rw [List.getElem?_append_right hle] at hget
    obtain ⟨name, hnext, hname⟩ := hlower _ header hget hheader
    refine ⟨name, ?_, hname⟩
    rw [List.getElem?_append_right (by omega),
      show i + 1 - upper.length = i - upper.length + 1 by omega]
    exact hnext

/-- Lines without a header. -/
theorem HeadersNamed.of_no_header {lines : List String} (h : lines.filterMap headerNumber? = []) :
    HeadersNamed lines := by
  intro i header hget hheader
  have hnone := List.filterMap_eq_nil_iff.mp h header (List.mem_of_getElem? hget)
  rw [hnone] at hheader
  cases hheader

theorem HeadersNamed.cons_header {name : String} {lines : List String} (header : String)
    (hname : isNameLine name = true) (h : HeadersNamed (name :: lines)) :
    HeadersNamed (header :: name :: lines) := by
  intro i line hget hheader
  cases i with
  | zero => exact ⟨name, rfl, hname⟩
  | succ i => exact h i line hget hheader

theorem ChangeRecord.headersNamed_lines (r : ChangeRecord) (above : Option Nat) :
    HeadersNamed (r.lines above) := by
  have hbody : HeadersNamed (r.nameLine :: r.argumentLines) := .of_no_header (by simp)
  rw [lines]
  split
  · exact .cons_header _ r.isNameLine_nameLine (.of_no_header (by simp))
  · dsimp only
    split
    · exact hbody
    · exact .cons_header _ r.isNameLine_nameLine hbody

theorem named_recordLines (above : Option Nat) (records : List ChangeRecord) :
    HeadersNamed (recordLines above records) := by
  induction records generalizing above with
  | nil => exact .of_no_header rfl
  | cons r rest ih => exact (r.headersNamed_lines above).append (ih _)

/-! ## A name for each record -/

theorem countP_isNameLine_recordLines (above : Option Nat) (records : List ChangeRecord) :
    (recordLines above records).countP isNameLine = records.length := by
  induction records generalizing above with
  | nil => rfl
  | cons r rest ih =>
    rw [recordLines, List.countP_append, r.countP_isNameLine_lines, ih, List.length_cons,
      Nat.add_comm]

/-- Each record is counted once in a summary. -/
theorem ReportSummary.parts_ofRecords (actions : Nat) (records : List ChangeRecord) :
    (ofRecords actions records).inserted + (ofRecords actions records).deleted +
      (ofRecords actions records).renamed = records.length := by
  simp only [ofRecords]
  induction records with
  | nil => rfl
  | cons r rest ih =>
    cases hr : r.change with
    | inserted | deleted | renamed =>
      simp only [List.filter_cons, hr, List.length_cons, reduceCtorEq, beq_iff_eq, if_true,
        if_false]
      omega

/-! ## One header for each action -/

/-- The action of the header above what follows some records. -/
def lastAbove (above : Option Nat) (records : List ChangeRecord) : Option Nat :=
  records.foldl (fun _ r => some r.actionIndex) above

theorem recordLines_append (above : Option Nat) (upper lower : List ChangeRecord) :
    recordLines above (upper ++ lower) =
      recordLines above upper ++ recordLines (lastAbove above upper) lower := by
  induction upper generalizing above with
  | nil => rfl
  | cons r rest ih =>
    rw [List.cons_append, recordLines, recordLines, ih, List.append_assoc]
    rfl

/-- The records of one action: they have its number, and a renaming is alone. -/
structure RecordsOf (number : Nat) (records : List ChangeRecord) : Prop where
  numbered : ∀ r ∈ records, r.actionIndex = number
  alone : (∃ r ∈ records, r.change = .renamed) → records.length ≤ 1

namespace RecordsOf

variable {number : Nat} {records : List ChangeRecord}

/-- Behind the records of an action the header above is their own, if there are any. -/
theorem lastAbove_eq (h : RecordsOf number records) (above : Option Nat) :
    lastAbove above records = if records.isEmpty then above else some number := by
  rcases List.eq_nil_or_concat records with rfl | ⟨rest, r, rfl⟩
  · rfl
  · simp [lastAbove, h.numbered r (by simp)]

/-- Below a header of their own, calls need no other. -/
theorem no_header_below (h : ∀ r ∈ records, r.actionIndex = number ∧ r.change ≠ .renamed) :
    (recordLines (some number) records).filterMap headerNumber? = [] := by
  induction records with
  | nil => rfl
  | cons r rest ih =>
    obtain ⟨hnumber, hchange⟩ := h r List.mem_cons_self
    rw [recordLines, List.filterMap_append, r.filterMap_headerNumber?_lines, hnumber,
      if_pos ⟨hchange, rfl⟩, List.nil_append]
    exact ih fun q hq => h q (List.mem_cons_of_mem _ hq)

/-- **The records of an action have one header**, if the header above is another's. -/
theorem filterMap_headerNumber? (h : RecordsOf number records) {above : Option Nat}
    (habove : above ≠ some number) :
    (recordLines above records).filterMap CallDelta.headerNumber? =
      if records.isEmpty then [] else [number] := by
  cases records with
  | nil => rfl
  | cons r rest =>
    have hnumber := h.numbered r List.mem_cons_self
    have hrest : ∀ q ∈ rest, q.actionIndex = number ∧ q.change ≠ .renamed := by
      intro q hq
      refine ⟨h.numbered q (List.mem_cons_of_mem _ hq), fun hrenamed => ?_⟩
      have hle := h.alone ⟨q, List.mem_cons_of_mem _ hq, hrenamed⟩
      have hpos := List.length_pos_of_mem hq
      rw [List.length_cons] at hle
      omega
    rw [recordLines, List.filterMap_append, r.filterMap_headerNumber?_lines, hnumber,
      if_neg fun hcond => habove hcond.2, no_header_below hrest]
    rfl

end RecordsOf

/-! ## The actions of a script -/

namespace Action

variable {trees : TreePair} {a : Action}

/-- Whether an action has something to report: a callee with another name, or a call that has a
callee. -/
def reports (trees : TreePair) (a : Action) : Bool :=
  match a.classify trees with
  | .rename .. => true
  | .calls nodes => nodes.any (fun c => ((trees.side a.side).signature c).callee != "")
  | .ignore => false

/-- The records of an action, given its place in the script. -/
def records (trees : TreePair) (a : Action) (index : Nat) : List ChangeRecord :=
  (a.events trees index).filterMap (·.record? trees)

/-- An action that carries calls changes those of its own tree. -/
theorem ofAction?_of_classify {nodes : List Nat} (h : a.classify trees = .calls nodes) :
    ∃ change, ChangeKind.ofAction? a.kind = some change ∧ change.side = a.side := by
  cases a with
  | insertTree | insertNode => exact ⟨.inserted, rfl, rfl⟩
  | deleteTree => exact ⟨.deleted, rfl, rfl⟩
  | deleteNode | move => cases h
  | updateNode node newLabel =>
    rcases classifyUpdate_cases (trees.side .source) node newLabel with hu | ⟨old, new, hu⟩
    · cases hu.symm.trans h
    · cases hu.symm.trans h

/-- A call that an action carries is reported if it has a callee. -/
theorem isSome_record?_of_classify {nodes : List Nat} (h : a.classify trees = .calls nodes)
    (index c : Nat) : ((ChangeEvent.call index a.kind a.node c).record? trees).isSome =
      (((trees.side a.side).signature c).callee != "") := by
  obtain ⟨change, hchange, hside⟩ := ofAction?_of_classify h
  rw [ChangeEvent.record?, hchange, Option.bind_eq_bind, Option.bind_some, hside, Bool.eq_iff_iff,
    Option.isSome_ite, CallSignature.isReportable]
  simp

theorem isEmpty_records (trees : TreePair) (a : Action) (index : Nat) :
    (a.records trees index).isEmpty = !a.reports trees := by
  rw [records, events, reports]
  cases h : a.classify trees with
  | rename old new => rfl
  | ignore => rfl
  | calls nodes =>
    rw [Bool.eq_iff_iff, List.isEmpty_iff, List.filterMap_eq_nil_iff]
    simp [← isSome_record?_of_classify h index]

theorem recordsOf_records (trees : TreePair) (a : Action) (index : Nat) :
    RecordsOf (index + 1) (a.records trees index) where
  numbered _ hr := (EditScript.mem_records_of_action hr).1
  alone := by
    rintro ⟨r, hr, hrenamed⟩
    have hkind := (EditScript.mem_records_of_action hr).2.mp hrenamed
    refine Nat.le_trans (List.length_filterMap_le _ _) ?_
    cases a with
    | insertTree | insertNode | deleteTree | deleteNode | move => cases hkind
    | updateNode node newLabel =>
      rcases classifyUpdate_cases (trees.side .source) node newLabel with hu | ⟨old, new, hu⟩
      · simp [events, classify, side, hu]
      · simp [events, classify, side, hu]

end Action

/-- The numbers of the actions of a script that report, where the first has a place. -/
def reportingNumbers (trees : TreePair) (script : EditScript) (first : Nat) : List Nat :=
  (script.zipIdx first).filterMap
    (fun (a, index) => if a.reports trees then some (index + 1) else none)

/-- **There is one header for each action that reports**, if the header above is that of an earlier
action. -/
theorem filterMap_headerNumber?_recordLines (trees : TreePair) (script : EditScript) (first : Nat)
    (above : Option Nat) (habove : ∀ number ∈ above, number ≤ first) :
    (recordLines above ((script.zipIdx first).flatMap (fun e => e.1.records trees e.2))).filterMap
      headerNumber? = reportingNumbers trees script first := by
  induction script generalizing first above with
  | nil => rfl
  | cons a script ih =>
    have hrecords := a.recordsOf_records trees first
    have hnew : above ≠ some (first + 1) := fun h => by
      have := habove _ h
      omega
    have hrest := ih (first + 1) (lastAbove above (a.records trees first)) (by
      rw [hrecords.lastAbove_eq]
      split
      · exact fun number hnumber => Nat.le_succ_of_le (habove number hnumber)
      · rintro number ⟨⟩
        exact Nat.le_refl _)
    rw [List.zipIdx_cons, List.flatMap_cons, recordLines_append, List.filterMap_append, hrest,
      hrecords.filterMap_headerNumber? hnew, a.isEmpty_records, reportingNumbers, reportingNumbers,
      List.zipIdx_cons, List.filterMap_cons]
    cases hreports : a.reports trees with
    | false => simp [hreports]
    | true => simp [hreports]

theorem mem_reportingNumbers_iff {trees : TreePair} {script : EditScript} {number : Nat} :
    number ∈ reportingNumbers trees script 0 ↔
      ∃ a, 1 ≤ number ∧ script[number - 1]? = some a ∧ a.reports trees = true := by
  simp only [reportingNumbers, List.mem_filterMap, Prod.exists, List.mem_zipIdx_iff_getElem?,
    Option.ite_none_right_eq_some, Option.some.injEq]
  constructor
  · rintro ⟨a, index, hget, hreports, rfl⟩
    exact ⟨a, Nat.le_add_left .., hget, hreports⟩
  · rintro ⟨a, hpos, hget, hreports⟩
    exact ⟨a, number - 1, hget, hreports, Nat.sub_add_cancel hpos⟩

theorem reportingNumbers_pairwise_lt (trees : TreePair) (script : EditScript) (first : Nat) :
    (reportingNumbers trees script first).Pairwise (· < ·) := by
  have hplaces : (script.zipIdx first).Pairwise (fun e e' => e.2 < e'.2) := by
    rw [← List.pairwise_map, List.zipIdx_map_snd]
    exact List.pairwise_lt_range'
  refine hplaces.filterMap _ ?_
  intro e e' hlt number hnumber number' hnumber'
  simp only [Option.ite_none_right_eq_some, Option.some.injEq] at hnumber hnumber'
  omega

/-- **The headers of a report**: their numbers increase and are numbers of actions, there is a
header for an action exactly if it has something to report, a name stands directly below each
header, and there are as many names as the summary counts. -/
theorem headers_of_reportLines (trees : TreePair) (script : EditScript) :
    let lines := script.reportLines trees
    let numbers := lines.filterMap headerNumber?
    let summary := script.summary trees
    (numbers.Pairwise (· < ·) ∧ ∀ number ∈ numbers, 1 ≤ number ∧ number ≤ script.length) ∧
      (∀ number, number ∈ numbers ↔
        ∃ a, 1 ≤ number ∧ script[number - 1]? = some a ∧ a.reports trees = true) ∧
      HeadersNamed lines ∧
      lines.countP isNameLine = summary.inserted + summary.deleted + summary.renamed := by
  intro lines numbers summary
  have hnumbers : numbers = reportingNumbers trees script 0 := by
    show (script.reportLines trees).filterMap headerNumber? = _
    rw [EditScript.reportLines, reportLines, List.filterMap_cons, headerNumber?_title,
      EditScript.records_eq_flatMap]
    exact filterMap_headerNumber?_recordLines trees script 0 none (by simp)
  rw [hnumbers]
  refine ⟨⟨reportingNumbers_pairwise_lt trees script 0, fun number hnumber => ?_⟩,
    fun number => mem_reportingNumbers_iff, ?_, ?_⟩
  · obtain ⟨a, hpos, hget, -⟩ := mem_reportingNumbers_iff.mp hnumber
    have hlt := (List.getElem?_eq_some_iff.mp hget).1
    omega
  · have htitle : HeadersNamed ["edit script: " ++ toString script.length ++ " actions"] :=
      .of_no_header (by rw [List.filterMap_cons, headerNumber?_title]; rfl)
    exact htitle.append (named_recordLines none (script.records trees))
  · show List.countP isNameLine (_ :: recordLines none (script.records trees)) = _
    rw [List.countP_cons, isNameLine_title, countP_isNameLine_recordLines]
    exact (ReportSummary.parts_ofRecords script.length (script.records trees)).symm

end CallDelta
