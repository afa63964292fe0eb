import CallDelta.CommandLine.Failure
import Mathlib.Data.List.Infix

/-!
# Words in the text of a failure

The exit status of a failed run is read off the text of the failure, by words that may occur in it.
Part of that text is the program's own. The rest comes from outside: paths, names of sinks, and what
the system, the settings and the data set have to tell. A word occurs in the whole text exactly if
it occurs in one of these pieces, since none of the words can begin in one piece and end in another.

* `Failure.occurs_wording_iff`: the words of a text are those of its pieces
* `Failure.wording_pieces`: the pieces of a failure make up its text
* `Failure.exitStatus_eq_status_apparentStage`: the status is that of the first stage which either
  failed or has its word in a piece from outside
-/

namespace CallDelta

namespace Failure

/-! ## Occurrence -/

/-- A text in lower case. -/
def lowered (text : String) : List Char := text.toList.map lowerChar

/-- Whether a word occurs in a text, whatever the case. -/
def occurs (word text : String) : Bool := mentions word.toList (lowered text)

theorem mentions_iff {word cs : List Char} : mentions word cs = true ↔ word <:+: cs := by
  induction cs with
  | nil => simp [mentions]
  | cons c cs ih =>
    rw [mentions, Bool.or_eq_true, List.isPrefixOf_iff_prefix, ih, List.infix_cons_iff]

theorem occurs_iff {word text : String} : occurs word text = true ↔ word.toList <:+: lowered text :=
  mentions_iff

theorem occurs_empty (text : String) : occurs "" text = true :=
  occurs_iff.mpr List.nil_infix

/-! ## Pieces -/

/-- A piece of a text. -/
inductive Piece where
  /-- Words of the program. -/
  | own (text : String)
  /-- Something that comes from outside. -/
  | foreign (text : String)

namespace Piece

/-- The text of a piece. -/
def text : Piece → String
  | own text | foreign text => text

/-- The words of the program in a piece. -/
def own? : Piece → Option String
  | own text => some text
  | foreign _ => none

/-- What comes from outside in a piece. -/
def foreign? : Piece → Option String
  | own _ => none
  | foreign text => some text

end Piece

/-- The text of some pieces. -/
def wording (pieces : List Piece) : String := String.join (pieces.map (·.text))

theorem wording_nil : wording [] = "" := rfl

theorem wording_cons (p : Piece) (ps : List Piece) : wording (p :: ps) = p.text ++ wording ps := by
  rw [wording, List.map_cons, String.join_cons]
  rfl

theorem wording_append (ps qs : List Piece) : wording (ps ++ qs) = wording ps ++ wording qs := by
  rw [wording, List.map_append, String.join_append]
  rfl

theorem wording_intercalate (sep : String) (layers : List (List Piece)) :
    wording ([.own sep].intercalate layers) = sep.intercalate (layers.map wording) := by
  induction layers with
  | nil => rfl
  | cons layer layers ih =>
    cases layers with
    | nil => simp [List.intercalate, String.intercalate_singleton]
    | cons next layers =>
      simp only [List.map_cons] at ih ⊢
      rw [List.intercalate_cons_cons, wording_append, wording_append, ih,
        String.intercalate_cons_cons]
      simp [wording, Piece.text]

/-! ### Words across pieces -/

/-- No beginning of a word is the end of a text. -/
def endsApart (word : List Char) (text : List Char) : Bool :=
  (List.range word.length).all (fun k => k == 0 || !(word.take k).isSuffixOf text)

/-- No end of a word goes together with the beginning of a text. -/
def startsApart (word : List Char) (text : List Char) : Bool :=
  (List.range word.length).all (fun k =>
    k == 0 || !((word.drop k).isPrefixOf text || text.isPrefixOf (word.drop k)))

theorem not_suffix_of_endsApart {word text : List Char} (h : endsApart word text = true)
    {a b : List Char} (hword : word = a ++ b) (ha : a ≠ []) (hb : b ≠ []) : ¬ a <:+ text := by
  have hlength : a.length < word.length := by
    rw [hword, List.length_append]
    exact Nat.lt_add_of_pos_right (List.length_pos_iff.mpr hb)
  have hk := List.all_eq_true.mp h a.length (List.mem_range.mpr hlength)
  rw [hword, List.take_left] at hk
  simpa [ha, ← List.isSuffixOf_iff_suffix] using hk

theorem not_begins_of_startsApart {word text : List Char} (h : startsApart word text = true)
    {a b : List Char}
    (hword : word = a ++ b) (ha : a ≠ []) (hb : b ≠ []) : ¬ b <+: text ∧ ¬ text <+: b := by
  have hlength : a.length < word.length := by
    rw [hword, List.length_append]
    exact Nat.lt_add_of_pos_right (List.length_pos_iff.mpr hb)
  have hk := List.all_eq_true.mp h a.length (List.mem_range.mpr hlength)
  rw [hword, List.drop_left] at hk
  simpa [ha, ← List.isPrefixOf_iff_prefix] using hk

/-- Whether no word can lie across the boundary of two neighbours in a list of own words and
gaps. -/
def isCut (word : List Char) (left right : Option String) : Bool :=
  left.any (fun text => endsApart word (lowered text)) ||
    right.any (fun text => startsApart word (lowered text))

theorem infix_append_of_isCut {word : List Char} {left right : Piece} {rest : List Char}
    (h : isCut word left.own? right.own? = true) :
    word <:+: lowered left.text ++ (lowered right.text ++ rest) ↔
      word <:+: lowered left.text ∨ word <:+: lowered right.text ++ rest := by
  rw [List.infix_append_iff_ne_nil]
  refine ⟨fun hw => ?_, fun hw => hw.imp_right Or.inl⟩
  rcases hw with hw | hw | ⟨a, b, ha, hb, hword, hleft, hright⟩
  · exact Or.inl hw
  · exact Or.inr hw
  -- The word lies across the boundary, so that one of its parts meets the neighbour that is known.
  exfalso
  rw [isCut, Bool.or_eq_true] at h
  rcases h with h | h
  · cases left with
    | foreign => cases h
    | own text => exact not_suffix_of_endsApart h hword ha hb hleft
  · cases right with
    | foreign => cases h
    | own text =>
      obtain ⟨hb', htext⟩ := not_begins_of_startsApart h hword ha hb
      rcases List.prefix_or_prefix_of_prefix hright (List.prefix_append _ _) with h' | h'
      · exact hb' h'
      · exact htext h'

/-- Whether no word can lie across a boundary in a list of own words and gaps. -/
def isCutUp (word : List Char) : List (Option String) → Bool
  | left :: right :: shape => isCut word left right && isCutUp word (right :: shape)
  | _ => true

theorem lowered_wording (pieces : List Piece) :
    lowered (wording pieces) = pieces.flatMap (fun p => lowered p.text) := by
  simp [lowered, wording, String.toList_join, List.map_flatMap, List.flatMap_map]

theorem occurs_wording_of_mem {word : String} {piece : Piece} {pieces : List Piece}
    (hpiece : piece ∈ pieces) (h : occurs word piece.text = true) :
    occurs word (wording pieces) = true := by
  rw [occurs_iff] at h ⊢
  obtain ⟨front, back, rfl⟩ := List.append_of_mem hpiece
  refine h.trans ⟨lowered (wording front), lowered (wording back), ?_⟩
  simp only [lowered_wording, List.flatMap_append, List.flatMap_cons, List.append_assoc]

/-- **A word occurs in a text exactly if it occurs in a piece of it.** -/
theorem occurs_wording_iff {word : String} {pieces : List Piece}
    (h : isCutUp word.toList (pieces.map (·.own?)) = true) (hword : word.toList ≠ []) :
    occurs word (wording pieces) = true ↔ ∃ piece ∈ pieces, occurs word piece.text = true := by
  simp only [occurs_iff, lowered_wording]
  induction pieces with
  | nil => simp [hword]
  | cons left pieces ih =>
    cases pieces with
    | nil => simp
    | cons right pieces =>
      simp only [List.map_cons, isCutUp, Bool.and_eq_true] at h
      have hrest := ih h.2
      simp only [List.flatMap_cons] at hrest ⊢
      refine (infix_append_of_isCut h.1).trans ((or_congr_right hrest).trans ?_)
      simp

/-- Whether a word occurs in no text of a shape but in what comes from outside. -/
def isQuiet (word : String) (shape : List (Option String)) : Bool :=
  !word.toList.isEmpty && isCutUp word.toList shape &&
    shape.all (fun own => own.all (!occurs word ·))

theorem isCutUp_append_cons (word : List Char) (front : List (Option String)) (own : Option String)
    (back : List (Option String)) :
    isCutUp word (front ++ own :: back) =
      (isCutUp word (front ++ [own]) && isCutUp word (own :: back)) := by
  induction front with
  | nil => simp [isCutUp]
  | cons first front ih =>
    cases front with
    | nil => simp [isCutUp]
    | cons second front =>
      simp only [List.cons_append, isCutUp, Bool.and_assoc] at ih ⊢
      rw [ih]

theorem isQuiet_append_cons {word : String} {front back : List (Option String)}
    {own : Option String} :
    isQuiet word (front ++ own :: back) = true ↔
      isQuiet word (front ++ [own]) = true ∧ isQuiet word (own :: back) = true := by
  simp only [isQuiet, isCutUp_append_cons word.toList front own back, Bool.and_eq_true,
    List.all_append, List.all_cons, List.all_nil]
  tauto

theorem isQuiet_fill {word text : String} {shape : List (Option String)}
    (h : isQuiet word (none :: shape) = true) (htext : occurs word text = false) :
    isQuiet word (some text :: shape) = true := by
  cases shape <;> simp_all [isQuiet, isCutUp, isCut]

theorem occurs_wording_iff_of_isQuiet {word : String} {pieces : List Piece}
    (h : isQuiet word (pieces.map (·.own?)) = true) :
    occurs word (wording pieces) = true ↔
      ∃ part ∈ pieces.filterMap (·.foreign?), occurs word part = true := by
  simp only [isQuiet, Bool.and_eq_true, Bool.not_eq_true', List.isEmpty_eq_false_iff,
    List.all_eq_true] at h
  obtain ⟨⟨hword, hcut⟩, hown⟩ := h
  rw [occurs_wording_iff hcut hword]
  constructor
  · rintro ⟨text | text, hpiece, hoccurs⟩
    · have hquiet := hown (some text) (List.mem_map.mpr ⟨.own text, hpiece, rfl⟩)
      simp_all [Piece.text]
    · exact ⟨text, List.mem_filterMap.mpr ⟨.foreign text, hpiece, rfl⟩, hoccurs⟩
  · rintro ⟨part, hpart, hoccurs⟩
    obtain ⟨text | text, hpiece, heq⟩ := List.mem_filterMap.mp hpart
    · cases heq
    · cases heq
      exact ⟨.foreign part, hpiece, hoccurs⟩

end Failure

/-! ## The pieces of failures -/

open Failure (Piece)

/-- The wording of a failure to read sources, in pieces. -/
def SourceError.pieces : SourceError → List Piece
  | parse path text => [.own "Parse error in ", .foreign path, .own ": ", .foreign text]
  | unsupportedLanguage path => [.own "Unsupported language: ", .foreign path]
  | grammar text => [.own "Tree-sitter error: ", .foreign text]
  | io cause => [.own "IO error: ", .foreign cause.message]

/-- The wording of a failure to have settings, in pieces. -/
def ConfigError.pieces : ConfigError → List Piece
  | notFound path => [.own "Config file not found: ", .foreign path]
  | invalid text => [.own "Invalid config: ", .foreign text]
  | parse text => [.own "Cannot parse config: ", .foreign text]

/-- The wording of a failure of a sink, in pieces. -/
def ReportError.pieces : ReportError → List Piece
  | cannotOpen path cause =>
    [.own "Cannot open log sink ", .foreign path, .own ": ", .foreign cause.message]
  | cannotWrite sink cause =>
    [.own "Write to ", .foreign sink, .own " sink failed: ", .foreign cause.message]

/-- The wording of a failure to have the data set, in pieces. -/
def DatasetError.pieces : DatasetError → List Piece
  | notFound path => [.own "Input not found: ", .foreign path]
  | malformed path text => [.own "Malformed dataset ", .foreign path, .own ": ", .foreign text]
  | io cause => [.own "IO error: ", .foreign cause.message]

namespace Failure

/-- The layers of a failure, in pieces. -/
def layerPieces : Failure → List (List Piece)
  | workingDirectory cause => [[.own "Cannot read working directory"], [.foreign cause.message]]
  | settings cause => [[.own "Cannot load config"], cause.pieces]
  | inputMissing path => [[.own "Input not found: ", .foreign path]]
  | inputUnreadable path cause => [[.own "Cannot read ", .foreign path], [.foreign cause.message]]
  | noLanguage path cause =>
    [.own "Cannot choose a parser for ", .foreign path] :: cause.pieces ::
      cause.causes.map ([.foreign ·])
  | diffFailed before after cause =>
    [.own "Cannot diff ", .foreign before, .own " against ", .foreign after] ::
      (.own "Parse error: " :: cause.pieces) :: cause.pieces :: cause.causes.map ([.foreign ·])
  | parseFailed path cause =>
    [.own "Cannot parse ", .foreign path] ::
      (.own "Parse error: " :: cause.pieces) :: cause.pieces :: cause.causes.map ([.foreign ·])
  | dataset path cause =>
    [.own "Cannot load dataset ", .foreign path] ::
      (.own "Dataset error: " :: cause.pieces) :: cause.pieces :: cause.causes.map ([.foreign ·])
  | sinks errors =>
    [.own (toString errors.length) :: .own " report sink(s) failed: " ::
      [.own "; "].intercalate (errors.map ReportError.pieces)]

/-- The whole text, in pieces. -/
def pieces (f : Failure) : List Piece := [.own ": "].intercalate f.layerPieces

/-- What comes from outside in the text. -/
def foreign (f : Failure) : List String := f.pieces.filterMap (·.foreign?)

theorem wording_sourcePieces (cause : SourceError) : wording cause.pieces = cause.message := by
  cases cause <;> dsimp only [SourceError.pieces, SourceError.message] <;>
    simp only [wording_cons, wording_nil, Piece.text, String.append_assoc, String.append_empty]

theorem wording_configPieces (cause : ConfigError) : wording cause.pieces = cause.message := by
  cases cause <;> dsimp only [ConfigError.pieces, ConfigError.message] <;>
    simp only [wording_cons, wording_nil, Piece.text, String.append_empty]

theorem wording_reportPieces (e : ReportError) : wording e.pieces = e.message := by
  cases e <;> dsimp only [ReportError.pieces, ReportError.message] <;>
    simp only [wording_cons, wording_nil, Piece.text, String.append_assoc, String.append_empty]

theorem wording_datasetPieces (cause : DatasetError) : wording cause.pieces = cause.message := by
  cases cause <;> dsimp only [DatasetError.pieces, DatasetError.message] <;>
    simp only [wording_cons, wording_nil, Piece.text, String.append_assoc, String.append_empty]

theorem map_wording_reportPieces (errors : List ReportError) :
    (errors.map ReportError.pieces).map wording = errors.map ReportError.message := by
  rw [List.map_map]
  exact List.map_congr_left (fun e _ => wording_reportPieces e)

theorem map_wording_foreign (texts : List String) :
    (texts.map ([.foreign ·])).map wording = texts := by
  rw [List.map_map]
  refine List.map_id'' (fun text => ?_) texts
  rw [Function.comp, wording_cons, wording_nil, String.append_empty]
  rfl

theorem map_wording_layerPieces (f : Failure) : f.layerPieces.map wording = f.layers := by
  cases f <;>
    dsimp only [layerPieces, layers, chain, DiffError.message, DiffError.causes] <;>
    simp only [List.map_cons, List.map_nil, map_wording_foreign, map_wording_reportPieces,
      wording_intercalate, wording_cons, wording_nil, wording_sourcePieces, wording_configPieces,
      wording_datasetPieces, Piece.text, String.append_assoc, String.append_empty]

theorem wording_pieces (f : Failure) : wording f.pieces = f.text := by
  rw [pieces, wording_intercalate, map_wording_layerPieces, text]

end Failure

/-! ## Stages -/

/-- The stage at which a run fails, in the order in which their words are looked for. -/
inductive Stage where
  /-- A source or the data set is missing. -/
  | input
  /-- A sink could not be opened or written. -/
  | sinks
  /-- There are no settings. -/
  | settings
  /-- A source has no syntax tree. -/
  | source
  | other
  deriving DecidableEq

namespace Stage

/-- The exit status for a stage. -/
def status : Stage → Nat
  | input => 3
  | sinks => 4
  | settings => 2
  | source => 5
  | other => 1

/-- The word that stands for a stage. The last one is in every text. -/
def word : Stage → String
  | input => "input not found"
  | sinks => "sink"
  | settings => "config"
  | source => "parse error"
  | other => ""

/-- All stages. -/
def order : List Stage := [input, sinks, settings, source, other]

/-- The stages whose words are looked for before that of a stage. -/
def earlier (stage : Stage) : List Stage := order.takeWhile (· != stage)

/-- The first stage with a property. -/
def first (p : Stage → Bool) : Stage := (order.find? p).getD other

theorem status_inj {s t : Stage} : s.status = t.status ↔ s = t := by
  cases s <;> cases t <;> decide

theorem ne_of_mem_earlier {s stage : Stage} : s ∈ stage.earlier → s ≠ stage := by
  cases s <;> cases stage <;> decide

theorem first_congr {p q : Stage → Bool} (stage : Stage) (hp : p stage = true) (hq : q stage = true)
    (h : ∀ s ∈ stage.earlier, p s = q s) : first p = first q := by
  cases stage <;> simp_all [first, order, earlier, List.find?_cons]

theorem first_eq_iff {p : Stage → Bool} {stage : Stage} (hp : p stage = true) :
    first p = stage ↔ ∀ s ∈ stage.earlier, p s = false := by
  cases stage <;> simp [first, order, earlier, List.find?_cons, hp] <;> grind

end Stage

namespace Failure

theorem statusOf_eq (text : String) :
    statusOf text = (Stage.first (fun s => occurs s.word text)).status := by
  change (if occurs "input not found" text then 3 else if occurs "sink" text then 4
    else if occurs "config" text then 2 else if occurs "parse error" text then 5 else 1) = _
  cases hinput : occurs "input not found" text <;> cases hsinks : occurs "sink" text <;>
    cases hsettings : occurs "config" text <;> cases hsource : occurs "parse error" text <;>
    simp [Stage.first, Stage.order, Stage.word, Stage.status, occurs_empty, *]

/-- The stage at which a run fails with a failure. -/
def stage : Failure → Stage
  | settings _ => .settings
  | inputMissing _ | dataset _ (.notFound _) => .input
  | sinks _ => .sinks
  | diffFailed .. | parseFailed .. => .source
  | workingDirectory _ | inputUnreadable .. | noLanguage .. | dataset .. => .other

end Failure

/-- Whether a text of this shape has the word of a stage, and the words before it only in what comes
from outside. -/
def Stage.fits (stage : Stage) (shape : List (Option String)) : Bool :=
  stage.earlier.all (fun s => Failure.isQuiet s.word shape) &&
    shape.any (fun own => own.any (Failure.occurs stage.word))

namespace Failure

/-- The stage that the text of a failure is taken for: the first that is the one that failed, or has
its word in what comes from outside. -/
def apparentStage (f : Failure) : Stage :=
  .first (fun s => s == f.stage || f.foreign.any (occurs s.word))

theorem exitStatus_eq_of_fits {f : Failure} (h : f.stage.fits (f.pieces.map (·.own?)) = true) :
    f.exitStatus = f.apparentStage.status := by
  rw [Stage.fits, Bool.and_eq_true, List.all_eq_true, List.any_eq_true] at h
  obtain ⟨hquiet, own, hown, hword⟩ := h
  rw [exitStatus, statusOf_eq, apparentStage, ← wording_pieces]
  refine congrArg Stage.status (Stage.first_congr f.stage ?_ ?_ (fun s hs => ?_))
  · obtain ⟨piece, hpiece, rfl⟩ := List.mem_map.mp hown
    cases piece with
    | own text => exact occurs_wording_of_mem hpiece hword
    | foreign text => cases hword
  · simp
  · have hne : (s == f.stage) = false := by
      simpa using Stage.ne_of_mem_earlier hs
    rw [hne, Bool.false_or, Bool.eq_iff_iff, List.any_eq_true,
      occurs_wording_iff_of_isQuiet (hquiet s hs)]
    rfl

/-! ### Every failure fits its stage -/

theorem lowerChar_of_isDigit {c : Char} (h : c.isDigit = true) : lowerChar c = c := by
  have hkelvin : c ≠ '\u212A' := by
    rintro rfl
    exact absurd h (by decide)
  rw [lowerChar, if_neg hkelvin]
  simp only [Char.isDigit, Bool.and_eq_true, decide_eq_true_eq] at h
  exact dif_neg (fun hupper => absurd (UInt32.le_trans hupper.1 h.2) (by decide))

/-- A number is no word. -/
theorem occurs_toString {word : String} (hword : word.toList.all (·.isDigit) = false) (n : Nat) :
    occurs word (toString n) = false := by
  rw [Bool.eq_false_iff]
  intro h
  rw [occurs_iff] at h
  rw [List.all_eq_false] at hword
  obtain ⟨c, hc, hdigit⟩ := hword
  obtain ⟨d, hd, rfl⟩ := List.mem_map.mp (h.subset hc)
  rw [Nat.toString_eq_ofList_toDigits, String.toList_ofList] at hd
  have hd' : d.isDigit = true := Nat.isDigit_of_mem_toDigits (by omega) (by omega) hd
  exact hdigit ((lowerChar_of_isDigit hd').symm ▸ hd')

/-- The own words of failed sinks behind a text. -/
def sinkShape (lead : String) (errors : List ReportError) : List (Option String) :=
  some lead :: ([Piece.own "; "].intercalate (errors.map ReportError.pieces)).map (·.own?)

theorem sinkShape_cons_cons (lead : String) (e next : ReportError) (errors : List ReportError) :
    sinkShape lead (e :: next :: errors) =
      some lead :: e.pieces.map (·.own?) ++ sinkShape "; " (next :: errors) := by
  simp only [sinkShape, List.map_cons, List.intercalate_cons_cons, List.map_append, Piece.own?,
    List.cons_append, List.nil_append, List.append_assoc]

theorem isQuiet_sinkShape {lead : String} (hlead : lead = " report sink(s) failed: " ∨ lead = "; ")
    (errors : List ReportError) : isQuiet Stage.input.word (sinkShape lead errors) = true := by
  induction errors generalizing lead with
  | nil => rcases hlead with rfl | rfl <;> decide +kernel
  | cons e errors ih =>
    cases errors with
    | nil =>
      simp only [sinkShape, List.map_cons, List.map_nil, List.intercalate_singleton]
      rcases hlead with rfl | rfl <;> cases e <;>
        simp only [ReportError.pieces, List.map_cons, List.map_nil, Piece.own?] <;> decide +kernel
    | cons next errors =>
      rw [sinkShape_cons_cons, sinkShape, isQuiet_append_cons, ← sinkShape]
      refine ⟨?_, ih (Or.inr rfl)⟩
      rcases hlead with rfl | rfl <;> cases e <;>
        simp only [ReportError.pieces, List.map_cons, List.map_nil, Piece.own?] <;> decide +kernel

theorem fits_sinks (errors : List ReportError) :
    Stage.sinks.fits ((sinks errors).pieces.map (·.own?)) = true := by
  have hshape : (sinks errors).pieces.map (·.own?) =
      [some (toString errors.length)] ++ sinkShape " report sink(s) failed: " errors := by
    simp only [pieces, layerPieces, List.intercalate_singleton, List.map_cons, Piece.own?,
      sinkShape]
    rfl
  have hcount : isQuiet Stage.input.word
      [some (toString errors.length), some " report sink(s) failed: "] = true :=
    isQuiet_fill (by decide +kernel) (occurs_toString (by decide) errors.length)
  rw [Stage.fits, hshape, Bool.and_eq_true]
  constructor
  · change ([Stage.input].all _) = true
    rw [List.all_cons, List.all_nil, Bool.and_true, sinkShape, isQuiet_append_cons, ← sinkShape]
    exact ⟨hcount, isQuiet_sinkShape (Or.inl rfl) errors⟩
  · have hword : occurs Stage.sinks.word " report sink(s) failed: " = true := by decide +kernel
    simp [sinkShape, hword]

theorem fits_stage {f : Failure}
    (h : ∀ path cause, f = .noLanguage path cause → cause = .unsupportedLanguage path) :
    f.stage.fits (f.pieces.map (·.own?)) = true := by
  -- But for the sinks there are finitely many shapes, since what comes from outside is left out of
  -- them.
  cases f
  case sinks errors => exact fits_sinks errors
  case' noLanguage path cause => cases h path cause rfl
  case' settings cause => cases cause
  case' diffFailed before after cause => cases cause
  case' parseFailed path cause => cases cause
  case' dataset path cause => cases cause
  all_goals
    simp only [stage, pieces, layerPieces, ConfigError.pieces, SourceError.pieces,
      SourceError.causes, DatasetError.pieces, DatasetError.causes, List.intercalate_cons_cons,
      List.intercalate_singleton, List.map_cons, List.map_nil, Piece.own?, List.cons_append,
      List.nil_append]
    decide +kernel

/-- **The exit status of a failure.** It is that of the first stage which either is the one that
failed or has its word in what comes from outside. -/
theorem exitStatus_eq_status_apparentStage {f : Failure}
    (h : ∀ path cause, f = .noLanguage path cause → cause = .unsupportedLanguage path) :
    f.exitStatus = f.apparentStage.status :=
  exitStatus_eq_of_fits (fits_stage h)

theorem apparentStage_eq_stage_iff (f : Failure) :
    f.apparentStage = f.stage ↔
      ∀ s ∈ f.stage.earlier, ∀ part ∈ f.foreign, occurs s.word part = false := by
  rw [apparentStage, Stage.first_eq_iff (by simp)]
  refine forall₂_congr (fun s hs => ?_)
  simp [Stage.ne_of_mem_earlier hs]

end Failure

end CallDelta
