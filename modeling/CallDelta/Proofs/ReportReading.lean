import CallDelta.Proofs.RenamedCallees
import CallDelta.Report.Script
import Mathlib.Data.List.Basic

/-!
# Reading a report

The lines of a report say as much as the records that they come from: which action each call belongs
to, what that action does, the callee and the arguments. They can be read back whatever names the
sources have, even names that look like lines of a report.

## Why nothing is ambiguous

* A line begins with words of its own, and a name only ever ends a line. What a header says about
  nodes comes after the number and the kind of the action, and no kind has a blank in its name.
* A header is left out if the record above has the same action. Records of one action have one kind,
  so the header above still holds.

`readReport_reportLines` is the result.
-/

namespace CallDelta

/-! ## What a report says -/

/-- What a report says about one call. -/
structure ReportedFact where
  actionIndex : Nat
  action : ActionKind
  callee : String
  arguments : List String
  deriving DecidableEq

/-- What a report says of a record. -/
def ChangeRecord.fact (r : ChangeRecord) : ReportedFact :=
  { actionIndex := r.actionIndex, action := r.action, callee := r.callee, arguments := r.arguments }

/-- What happens to the calls that are reported with an action. -/
def ActionKind.change? : ActionKind → Option ChangeKind
  | updateNode => some .renamed
  | kind => ChangeKind.ofAction? kind

/-- What a whole report says. -/
structure ReportContents where
  actions : Nat
  facts : List ReportedFact
  deriving DecidableEq

namespace ReportContents

/-- The number of facts about one kind of change. -/
def count (c : ReportContents) (kind : ChangeKind) : Nat :=
  c.facts.countP (fun fact => fact.action.change? == some kind)

/-- The counts of a report. -/
def summary (c : ReportContents) : ReportSummary :=
  { actions := c.actions, inserted := c.count .inserted, deleted := c.count .deleted
    renamed := c.count .renamed }

end ReportContents

/-! ## The reader -/

/-- The number with which a text begins, and the rest of the text. -/
def readNumber (cs : List Char) : Nat × List Char :=
  (Nat.ofDigitChars 10 (cs.takeWhile Char.isDigit) 0, cs.dropWhile Char.isDigit)

/-- The number of actions in the first line of a report. -/
def readTitle? (line : String) : Option Nat := do
  let (actions, rest) := readNumber (← line.toList.dropPrefix? "edit script: ".toList)
  if rest = " actions".toList then some actions else none

/-- The kind of action with a name. -/
def ActionKind.ofName? (name : List Char) : Option ActionKind :=
  all.find? (fun kind => kind.name.toList == name)

/-- What a line below the first says. -/
inductive ReportLine where
  | header (index : Nat) (action : ActionKind)
  | callee (name : String)
  | argument (text : String)

namespace ReportLine

/-- Reads a header behind its first word. The name of the kind ends at a blank. -/
def readHeader? (cs : List Char) : Option ReportLine := do
  let (index, rest) := readNumber cs
  let rest ← rest.dropPrefix? ": ".toList
  let action ← ActionKind.ofName? (rest.takeWhile (· != ' '))
  some (.header index action)

/-- Reads a line by the words with which it begins. -/
def read? (line : String) : Option ReportLine :=
  match line.toList.dropPrefix? "action ".toList with
  | some rest => readHeader? rest
  | none =>
    match line.toList.dropPrefix? "function name: ".toList with
    | some rest => some (.callee (String.ofList rest))
    | none =>
      (line.toList.dropPrefix? "argument: ".toList).map (fun rest => .argument (String.ofList rest))

end ReportLine

/-- Reads the lines below a header. Arguments at the beginning belong to a callee further up and
come first. -/
def readFacts (above : Option (Nat × ActionKind)) :
    List String → Option (List String × List ReportedFact)
  | [] => some ([], [])
  | line :: lines =>
    match ReportLine.read? line with
    | some (.header index action) => readFacts (some (index, action)) lines
    | some (.callee callee) => do
      let (actionIndex, action) ← above
      let (arguments, facts) ← readFacts above lines
      some ([], { actionIndex, action, callee, arguments } :: facts)
    | some (.argument text) => do
      let (arguments, facts) ← readFacts above lines
      some (text :: arguments, facts)
    | none => none

/-- Reads a report. -/
def readReport : List String → Option ReportContents
  | [] => none
  | title :: lines => do
    let actions ← readTitle? title
    let (_, facts) ← readFacts none lines
    some { actions, facts }

/-! ## Single lines -/

theorem readNumber_toString (n : Nat) {c : Char} (hc : c.isDigit = false) (rest : List Char) :
    readNumber ((toString n).toList ++ c :: rest) = (n, c :: rest) := by
  have hdigits : ∀ d ∈ Nat.toDigits 10 n, d.isDigit = true := fun d hd =>
    Nat.isDigit_of_mem_toDigits (by omega) (by omega) hd
  have hnot : ¬ c.isDigit = true := by simp [hc]
  rw [Nat.toString_eq_ofList_toDigits, String.toList_ofList]
  simp only [readNumber, List.takeWhile_append_of_pos hdigits, List.dropWhile_append_of_pos hdigits,
    List.takeWhile_cons_of_neg hnot, List.dropWhile_cons_of_neg hnot, List.append_nil,
    Nat.ofDigitChars_ten_toDigits]

theorem dropPrefix?_append (p rest : List Char) : (p ++ rest).dropPrefix? p = some rest :=
  List.dropPrefix?_append_of_beq rest (beq_self_eq_true p)

theorem readTitle?_title (n : Nat) :
    readTitle? ("edit script: " ++ toString n ++ " actions") = some n := by
  have hline : ("edit script: " ++ toString n ++ " actions").toList =
      "edit script: ".toList ++ ((toString n).toList ++ ' ' :: "actions".toList) := by
    simp [String.toList_append]
  simp only [readTitle?, hline, dropPrefix?_append, Option.bind_eq_bind, Option.bind_some,
    readNumber_toString n (show ' '.isDigit = false from rfl)]
  rfl

theorem ActionKind.ofName?_name (kind : ActionKind) (rest : List Char) :
    ofName? ((kind.name.toList ++ ' ' :: rest).takeWhile (· != ' ')) = some kind := by
  have hname : kind.name.toList.all (· != ' ') = true := by cases kind <;> decide
  rw [List.takeWhile_append_of_pos (List.all_eq_true.mp hname),
    List.takeWhile_cons_of_neg (by decide), List.append_nil]
  cases kind <;> decide

namespace ChangeRecord

variable (r : ChangeRecord)

/-- The number and the kind of the action are read off a header, whatever follows them. -/
theorem read?_headerStart (rest : String) :
    ReportLine.read? (r.headerStart ++ rest) = some (.header r.actionIndex r.action) := by
  have hline : (r.headerStart ++ rest).toList =
      "action ".toList ++ ((toString r.actionIndex).toList ++ ':' :: ([' '] ++
        (r.action.name.toList ++ ' ' :: rest.toList))) := by
    simp [headerStart, String.toList_append]
  rw [ReportLine.read?, hline, dropPrefix?_append]
  show ReportLine.readHeader? _ = _
  have hcolon : (':' :: ([' '] ++ (r.action.name.toList ++ ' ' :: rest.toList))).dropPrefix?
      ": ".toList = some (r.action.name.toList ++ ' ' :: rest.toList) := by
    simp [List.dropPrefix?]
  simp only [ReportLine.readHeader?, readNumber_toString _ (show ':'.isDigit = false from rfl),
    hcolon, Option.bind_eq_bind, Option.bind_some, ActionKind.ofName?_name]

theorem read?_renameHeader :
    ReportLine.read? r.renameHeader = some (.header r.actionIndex r.action) := by
  rw [renameHeader, String.append_assoc, String.append_assoc]
  exact r.read?_headerStart _

theorem read?_callHeader :
    ReportLine.read? r.callHeader = some (.header r.actionIndex r.action) := by
  rw [callHeader, String.append_assoc]
  exact r.read?_headerStart _

theorem read?_nameLine : ReportLine.read? r.nameLine = some (.callee r.callee) := by
  simp [ReportLine.read?, nameLine, String.toList_append, List.dropPrefix?]

end ChangeRecord

theorem read?_argument (text : String) :
    ReportLine.read? ("argument: " ++ text) = some (.argument text) := by
  simp [ReportLine.read?, String.toList_append, List.dropPrefix?]

/-! ## The lines of records -/

theorem readFacts_arguments (above : Option (Nat × ActionKind)) {lines texts : List String}
    {facts : List ReportedFact} (h : readFacts above lines = some (texts, facts))
    (arguments : List String) :
    readFacts above (arguments.map ("argument: " ++ ·) ++ lines) =
      some (arguments ++ texts, facts) := by
  induction arguments with
  | nil => exact h
  | cons text arguments ih =>
    rw [List.map_cons, List.cons_append, readFacts, read?_argument]
    simp only [ih, Option.bind_eq_bind, Option.bind_some, List.cons_append]

/-- What every record of a script keeps to: the action tells what happens, and a renaming has no
arguments. -/
structure ChangeRecord.IsTold (r : ChangeRecord) : Prop where
  change : r.action.change? = some r.change
  arguments : r.change = .renamed → r.arguments = []

section

variable {kindOf : Nat → ActionKind}

/-- **A record is read off its lines.** Where its header is left out, the header above has the
number of its action, and with that the kind. -/
theorem readFacts_lines {r : ChangeRecord} (hr : r.IsTold) (hkind : r.action = kindOf r.actionIndex)
    (above : Option Nat) {lines : List String} {facts : List ReportedFact}
    (h : readFacts (some (r.actionIndex, kindOf r.actionIndex)) lines = some ([], facts)) :
    readFacts (above.map (fun index => (index, kindOf index))) (r.lines above ++ lines) =
      some ([], r.fact :: facts) := by
  -- the callee and the arguments, below a header that holds for the record
  have hbody : readFacts (some (r.actionIndex, kindOf r.actionIndex))
      (r.nameLine :: r.argumentLines ++ lines) = some ([], r.fact :: facts) := by
    have harguments := readFacts_arguments _ h r.arguments
    rw [List.cons_append, readFacts, r.read?_nameLine, ChangeRecord.argumentLines]
    simp only [harguments, Option.bind_eq_bind, Option.bind_some, List.append_nil]
    rw [← hkind]
    rfl
  rw [ChangeRecord.lines]
  split
  case isTrue hrenamed =>
    have hnone : r.argumentLines = [] := by
      rw [ChangeRecord.argumentLines, hr.arguments hrenamed, List.map_nil]
    rw [hnone] at hbody
    rw [List.cons_append, readFacts, r.read?_renameHeader, hkind]
    exact hbody
  case isFalse =>
    dsimp only
    split
    case isTrue hsame =>
      rw [List.nil_append, hsame]
      exact hbody
    case isFalse =>
      rw [List.append_assoc, List.singleton_append, readFacts, r.read?_callHeader, hkind]
      exact hbody

/-- **Records are read off their lines**, if the number of an action tells its kind. -/
theorem readFacts_recordLines {records : List ChangeRecord} (htold : ∀ r ∈ records, r.IsTold)
    (hkind : ∀ r ∈ records, r.action = kindOf r.actionIndex) (above : Option Nat) :
    readFacts (above.map (fun index => (index, kindOf index))) (recordLines above records) =
      some ([], records.map (·.fact)) := by
  induction records generalizing above with
  | nil => rfl
  | cons r rest ih =>
    have hrest := ih (fun q hq => htold q (List.mem_cons_of_mem _ hq))
      (fun q hq => hkind q (List.mem_cons_of_mem _ hq)) (some r.actionIndex)
    exact readFacts_lines (htold r List.mem_cons_self) (hkind r List.mem_cons_self) above hrest

end

/-! ## The records of a script -/

namespace EditScript

variable {trees : TreePair} {script : EditScript} {r : ChangeRecord}

theorem of_mem_records (h : r ∈ script.records trees) :
    ∃ (a : Action) (index : Nat), script[index]? = some a ∧
      r ∈ (a.events trees index).filterMap (·.record? trees) := by
  rw [records_eq_flatMap, List.mem_flatMap] at h
  obtain ⟨⟨a, index⟩, ha, hr⟩ := h
  exact ⟨a, index, List.mem_zipIdx_iff_getElem?.mp ha, hr⟩

/-- A record has the kind of its action, and is told. -/
theorem told_of_action {a : Action} {index : Nat}
    (h : r ∈ (a.events trees index).filterMap (·.record? trees)) :
    r.action = a.kind ∧ r.IsTold := by
  obtain ⟨e, he, hr⟩ := List.mem_filterMap.mp h
  cases e with
  | call i kind node c =>
    obtain ⟨-, hkind, -⟩ := Action.call_mem_events_iff.mp he
    rw [ChangeEvent.record?] at hr
    obtain ⟨change, hchange, hr⟩ := Option.bind_eq_some_iff.mp hr
    dsimp only at hr
    split at hr
    · cases hr
      cases kind <;> cases hchange <;> exact ⟨hkind.symm, rfl, by simp⟩
    · cases hr
  | rename i node old new =>
    obtain ⟨-, -, hclass⟩ := Action.rename_mem_events_iff.mp he
    cases hr
    exact ⟨(Action.kind_of_classify_eq_rename hclass).symm, rfl, fun _ => rfl⟩

/-- The kind of an action by its number in a report. -/
def kindOf (script : EditScript) (index : Nat) : ActionKind :=
  (script[index - 1]?).elim .move (·.kind)

theorem action_eq_kindOf (h : r ∈ script.records trees) :
    r.action = script.kindOf r.actionIndex := by
  obtain ⟨a, index, ha, hr⟩ := of_mem_records h
  rw [kindOf, (mem_records_of_action hr).1, Nat.add_sub_cancel, ha,
    (told_of_action hr).1, Option.elim_some]

theorem isTold_of_mem_records (h : r ∈ script.records trees) : r.IsTold := by
  obtain ⟨a, index, -, hr⟩ := of_mem_records h
  exact (told_of_action hr).2

end EditScript

/-- The counts of a summary can be had from the facts. -/
theorem ReportContents.summary_eq_ofRecords (actions : Nat) {records : List ChangeRecord}
    (h : ∀ r ∈ records, r.IsTold) :
    summary { actions, facts := records.map (·.fact) } = .ofRecords actions records := by
  have hcount (kind : ChangeKind) :
      count { actions, facts := records.map (·.fact) } kind =
        (records.filter (fun r => r.change == kind)).length := by
    rw [count, List.countP_map, ← List.countP_eq_length_filter]
    refine List.countP_congr fun r hr => ?_
    show (r.action.change? == some kind) = true ↔ _
    rw [(h r hr).change, Option.some_beq_some]
  rw [summary, hcount, hcount, hcount]
  rfl

/-- **A report can be read back: the number of actions, and the action, the callee and the arguments
of every record in order, and with them the counts of the summary.** -/
theorem readReport_reportLines (trees : TreePair) (script : EditScript) :
    readReport (script.reportLines trees) =
        some { actions := script.length, facts := (script.records trees).map (·.fact) } ∧
      (readReport (script.reportLines trees)).map (·.summary) = some (script.summary trees) := by
  have htold : ∀ r ∈ script.records trees, r.IsTold :=
    fun r hr => EditScript.isTold_of_mem_records hr
  have hfacts : readFacts none (recordLines none (script.records trees)) =
      some ([], (script.records trees).map (·.fact)) :=
    readFacts_recordLines htold (fun r hr => EditScript.action_eq_kindOf hr) none
  have hread : readReport (script.reportLines trees) =
      some { actions := script.length, facts := (script.records trees).map (·.fact) } := by
    simp only [EditScript.reportLines, reportLines, readReport, readTitle?_title, hfacts,
      Option.bind_eq_bind, Option.bind_some]
  refine ⟨hread, ?_⟩
  rw [hread, Option.map_some, ReportContents.summary_eq_ofRecords script.length htold]
  rfl

end CallDelta
