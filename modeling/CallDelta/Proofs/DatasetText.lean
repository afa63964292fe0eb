import CallDelta.Dataset
import CallDelta.Proofs.JsonGrammar
import Mathlib.Data.List.Perm.Basic

/-!
# Texts of data sets

The fields of a record may be written in any order and beside members that mean nothing to it. A
field without a value is null or left out.

* `IsRecord`, `IsDataset`: the texts of a record and of a data set
* `exists_reads_of_isRecord`: a text of a record is read as the record
* `isDataset_compact`: what is written without blanks is a text of the data set
* `dataset_reads_back`: every text of a data set is read as its records
-/

namespace CallDelta

namespace JsonText

/-! ## Texts -/

/-- The name of a member. -/
def MemberText.IsNamed (m : MemberText) (name : String) : Prop := Denotes name.toList m.name.items

/-- A string, in quotes. -/
inductive IsText (s : String) : List Char → Prop where
  | quoted (t : StringText) : Denotes s.toList t.items → IsText s t.chars

/-- The members that give a field its value. -/
inductive IsField (name : String) : Option String → List MemberText → Prop where
  | missing : IsField name none []
  | null {m : MemberText} : m.IsNamed name → m.value.value = "null".toList → IsField name none [m]
  | text {m : MemberText} {s : String} :
    m.IsNamed name → IsText s m.value.value → IsField name (some s) [m]

/-- The names of the fields of a record. -/
def fieldNames : List String :=
  ["func_before_target", "func_after_source", "commit_id_source", "diff_source"]

/-- A member that means nothing to a record. -/
structure IsUnknown (m : MemberText) : Prop where
  named : ∃ name, name ∉ fieldNames ∧ m.IsNamed name
  value : IsValue m.value.value

/-- The text of a record: an object with its fields and other members, in any order. -/
inductive IsRecord (r : DiffRecord) : List Char → Prop where
  | object (blanks : Blanks) {members before after commit diff unknown : List MemberText} :
      IsField "func_before_target" (some r.before) before →
      IsField "func_after_source" (some r.after) after →
      IsField "commit_id_source" r.commit commit →
      IsField "diff_source" r.diff diff →
      (∀ m ∈ unknown, IsUnknown m) →
      members.Perm (before ++ (after ++ (commit ++ (diff ++ unknown)))) →
      IsRecord r (objectChars blanks members)

/-- The text of a data set: an array of records. -/
inductive IsDataset (records : List DiffRecord) : List Char → Prop where
  | array (before blanks after : Blanks) {elements : List Padded} :
      List.Forall₂ (fun r e => IsRecord r e.value) records elements →
      IsDataset records (Padded.chars ⟨before, arrayChars blanks elements, after⟩)

/-! ## Reading records -/

section

variable {name : String} {value : Option String} {r : DiffRecord}

theorem IsText.reads {s : String} {cs : List Char} (h : IsText s cs) : Reads cs (.text s) := by
  obtain ⟨t, ht⟩ := h
  rw [Json.text, ← stringOf_of_denotes ht]
  exact reads_string t

/-- The value that a field may have in an object, if it is there. -/
inductive IsFieldValue : Option String → Option Json → Prop where
  | missing : IsFieldValue none none
  | null : IsFieldValue none (some .null)
  | text (s : String) : IsFieldValue (some s) (some (.text s))

theorem IsField.reads {members : List MemberText} (h : IsField name value members) :
    ∃ v : Option Json, List.Forall₂ ReadsMember members (v.toList.map (JsonString.text name, ·)) ∧
      IsFieldValue value v := by
  cases h with
  | missing => exact ⟨none, .nil, .missing⟩
  | null hname hvalue =>
    exact ⟨some .null, .cons ⟨stringOf_of_denotes hname, hvalue ▸ reads_null⟩ .nil, .null⟩
  | text hname hvalue =>
    exact ⟨some _, .cons ⟨stringOf_of_denotes hname, hvalue.reads⟩ .nil, .text _⟩

theorem exists_reads_unknown {members : List MemberText} (h : ∀ m ∈ members, IsUnknown m) :
    ∃ nvs, List.Forall₂ ReadsMember members nvs ∧
      ∀ nv ∈ nvs, ∃ name, name ∉ fieldNames ∧ nv.1 = JsonString.text name := by
  have hread : ∀ m ∈ members, ∃ nv, ReadsMember m nv ∧
      ∃ name, name ∉ fieldNames ∧ nv.1 = JsonString.text name := by
    intro m hm
    obtain ⟨⟨name, hname, hnamed⟩, hvalue⟩ := h m hm
    obtain ⟨v, hv⟩ := reads_of_isValue hvalue
    exact ⟨(.text name, v), ⟨stringOf_of_denotes hnamed, hv⟩, name, hname, rfl⟩
  have : Nonempty (JsonString × Json) := ⟨(.unpaired, .null)⟩
  choose! nv hnv using hread
  refine ⟨members.map nv, ?_, ?_⟩
  · exact List.forall₂_map_right_iff.mpr (List.forall₂_same.mpr fun m hm => (hnv m hm).1)
  · intro nv' hmem
    obtain ⟨m, hm, rfl⟩ := List.mem_map.mp hmem
    exact (hnv m hm).2

/-! ## Finding fields -/

theorem membersNamed_append (nvs nvs' : List (JsonString × Json)) :
    Json.membersNamed name (nvs ++ nvs') =
      Json.membersNamed name nvs ++ Json.membersNamed name nvs' :=
  List.filterMap_append

theorem membersNamed_eq_nil {nvs : List (JsonString × Json)} (h : ∀ nv ∈ nvs, nv.1 ≠ .text name) :
    Json.membersNamed name nvs = [] := by
  rw [Json.membersNamed, List.filterMap_eq_nil_iff]
  exact fun nv hnv => if_neg (h nv hnv)

theorem membersNamed_self (vs : List Json) :
    Json.membersNamed name (vs.map (JsonString.text name, ·)) = vs := by
  simp [Json.membersNamed, List.filterMap_map]

/-- The members of some fields. -/
def fieldMembers (fields : List (String × Option Json)) : List (JsonString × Json) :=
  fields.flatMap (fun f => f.2.toList.map (JsonString.text f.1, ·))

section

variable {fields : List (String × Option Json)} {f : String × Option Json} {nv : JsonString × Json}

theorem mem_fieldMembers (h : nv ∈ fieldMembers fields) :
    ∃ name ∈ fields.map (·.1), nv.1 = .text name := by
  obtain ⟨f, hf, hnv⟩ := List.mem_flatMap.mp h
  obtain ⟨v, -, rfl⟩ := List.mem_map.mp hnv
  exact ⟨f.1, List.mem_map_of_mem hf, rfl⟩

theorem membersNamed_fieldMembers_of_notMem (h : name ∉ fields.map (·.1)) :
    Json.membersNamed name (fieldMembers fields) = [] := by
  refine membersNamed_eq_nil fun nv hnv heq => h ?_
  obtain ⟨other, hother, htext⟩ := mem_fieldMembers hnv
  obtain rfl : other = name := JsonString.text.inj (htext.symm.trans heq)
  exact hother

theorem membersNamed_fieldMembers (hnames : (fields.map (·.1)).Nodup) (hf : f ∈ fields) :
    Json.membersNamed f.1 (fieldMembers fields) = f.2.toList := by
  induction fields with
  | nil => cases hf
  | cons g fields ih =>
    rw [List.map_cons, List.nodup_cons] at hnames
    obtain ⟨hg, hnames⟩ := hnames
    have hsplit : fieldMembers (g :: fields) =
        g.2.toList.map (JsonString.text g.1, ·) ++ fieldMembers fields :=
      List.flatMap_cons
    rw [hsplit, membersNamed_append]
    rcases List.mem_cons.mp hf with rfl | hf
    · rw [membersNamed_self, membersNamed_fieldMembers_of_notMem hg, List.append_nil]
    · have hfirst : Json.membersNamed f.1 (g.2.toList.map (JsonString.text g.1, ·)) = [] := by
        refine membersNamed_eq_nil fun nv hnv heq => hg ?_
        obtain ⟨v, -, rfl⟩ := List.mem_map.mp hnv
        rw [JsonString.text.inj heq]
        exact List.mem_map_of_mem hf
      rw [hfirst, List.nil_append, ih hnames hf]

theorem member?_of_perm {nvs : List (JsonString × Json)} {v : Option Json}
    (h : (Json.membersNamed name nvs).Perm v.toList) : Json.member? nvs name = some v := by
  unfold Json.member?
  cases v with
  | none => rw [List.perm_nil.mp h]
  | some v => rw [List.perm_singleton.mp h]

end

/-- Fields are found in whatever order they and other members stand. -/
theorem fields?_of_perm (fields : List (String × Option Json))
    {nvs unknown : List (JsonString × Json)} (needed : Nat) (hnames : (fields.map (·.1)).Nodup)
    (hunknown : ∀ nv ∈ unknown, ∃ name, name ∉ fields.map (·.1) ∧ nv.1 = .text name)
    (hperm : nvs.Perm (fieldMembers fields ++ unknown)) :
    (Json.obj nvs).fields? (fields.map (·.1)) needed = some (fields.map (·.2)) := by
  have htexts : ∀ nv ∈ nvs, nv.1 ≠ .unpaired := by
    intro nv hnv
    rcases List.mem_append.mp (hperm.mem_iff.mp hnv) with hnv | hnv
    · obtain ⟨name, -, htext⟩ := mem_fieldMembers hnv
      simp [htext]
    · obtain ⟨name, -, htext⟩ := hunknown nv hnv
      simp [htext]
  have hmember : ∀ f ∈ fields, Json.member? nvs f.1 = some f.2 := by
    intro f hf
    have hother : Json.membersNamed f.1 unknown = [] := by
      refine membersNamed_eq_nil fun nv hnv heq => ?_
      obtain ⟨name, hname, htext⟩ := hunknown nv hnv
      obtain rfl : name = f.1 := JsonString.text.inj (htext.symm.trans heq)
      exact hname (List.mem_map_of_mem hf)
    have hall : Json.membersNamed f.1 (fieldMembers fields ++ unknown) = f.2.toList := by
      rw [membersNamed_append, membersNamed_fieldMembers hnames hf, hother, List.append_nil]
    exact member?_of_perm (hall ▸ hperm.filterMap _)
  rw [Json.fields?, if_pos (List.all_eq_true.mpr fun nv hnv => bne_iff_ne.mpr (htexts nv hnv))]
  clear hnames hunknown hperm
  induction fields with
  | nil => rfl
  | cons f fields ih =>
    rw [List.map_cons, List.mapM_cons, hmember f List.mem_cons_self,
      ih fun g hg => hmember g (List.mem_cons_of_mem _ hg)]
    rfl

/-! ## Records -/

theorem IsFieldValue.optional {v : Option Json} (h : IsFieldValue value v) :
    Json.optional Json.asText? v = some value := by
  cases h <;> rfl

theorem IsFieldValue.required {s : String} {v : Option Json} (h : IsFieldValue (some s) v) :
    Json.required Json.asText? v = some s := by
  cases h
  rfl

/-- **A text of a record is read as the record.** -/
theorem exists_reads_of_isRecord {cs : List Char} (h : IsRecord r cs) :
    ∃ v, Reads cs v ∧ DiffRecord.ofJson? v = some r := by
  obtain @⟨blanks, members, _, _, _, _, _, hbefore, hafter, hcommit, hdiff, hunknown, hperm⟩ := h
  obtain ⟨before, hreadBefore, hbefore⟩ := hbefore.reads
  obtain ⟨after, hreadAfter, hafter⟩ := hafter.reads
  obtain ⟨commit, hreadCommit, hcommit⟩ := hcommit.reads
  obtain ⟨diff, hreadDiff, hdiff⟩ := hdiff.reads
  obtain ⟨unknown, hreadUnknown, hunknown⟩ := exists_reads_unknown hunknown
  have hread := List.rel_append hreadBefore (List.rel_append hreadAfter
    (List.rel_append hreadCommit (List.rel_append hreadDiff hreadUnknown)))
  obtain ⟨nvs, hnvs, hperm⟩ := List.perm_comp_forall₂ hperm hread
  have hfields := fields?_of_perm [("func_before_target", before), ("func_after_source", after),
    ("commit_id_source", commit), ("diff_source", diff)] 2 (show fieldNames.Nodup by decide)
    hunknown (by simpa [fieldMembers] using hperm)
  simp only [List.map_cons, List.map_nil] at hfields
  refine ⟨.obj nvs, reads_object hnvs, ?_⟩
  rw [DiffRecord.ofJson?, hfields]
  simp only [hbefore.required, hafter.required, hcommit.optional, hdiff.optional]
  rfl

/-- The records of an array are read one by one. -/
theorem exists_reads_of_isRecord_all {records : List DiffRecord} {elements : List Padded}
    (h : List.Forall₂ (fun r e => IsRecord r e.value) records elements) :
    ∃ vs, List.Forall₂ (fun e v => Reads e.value v) elements vs ∧
      Dataset.ofElements vs = .ok records := by
  induction h with
  | nil => exact ⟨[], .nil, rfl⟩
  | cons hrecord _ ih =>
    obtain ⟨v, hread, hv⟩ := exists_reads_of_isRecord hrecord
    obtain ⟨vs, hreads, hvs⟩ := ih
    refine ⟨v :: vs, .cons hread hreads, ?_⟩
    rw [Dataset.ofElements, hv, hvs]
    rfl

end

/-! ## Writing data sets -/

/-- The item that is written for a character. -/
def escapedItem (c : Char) : Token.StringItem :=
  if c.toNat < 0x20 ∧ c ∉ ['\x08', '\x0c', '\n', '\r', '\t'] then .unit c.toNat else .char c

theorem isHexDigit_hexDigit {n : Nat} (h : n < 16) : IsHexDigit n (Json.hexDigit n) := by
  have hall : ∀ n < 16, "0123456789abcdef".toList[n]? = some (Json.hexDigit n) := by decide
  exact Or.inl (hall n h)

theorem written_escapeChar (c : Char) : Written (escapedItem c) (Json.escapeChar c) := by
  by_cases hshort : c ∈ ['"', '\\', '\x08', '\x0c', '\n', '\r', '\t']
  · simp only [List.mem_cons, List.not_mem_nil, or_false] at hshort
    rcases hshort with rfl | rfl | rfl | rfl | rfl | rfl | rfl <;> exact .short (by decide)
  · simp only [List.mem_cons, List.not_mem_nil, or_false, not_or] at hshort
    obtain ⟨hquote, hslash, hback, hfeed, hline, hreturn, htab⟩ := hshort
    simp only [Json.escapeChar, escapedItem, List.mem_cons, List.not_mem_nil, or_false, hquote,
      hslash, hback, hfeed, hline, hreturn, htab, not_false_eq_true, and_true, if_false]
    split
    next hcontrol =>
      have hhigh : c.toNat / 4096 = 0 ∧ c.toNat / 256 % 16 = 0 ∧ c.toNat / 16 % 16 = c.toNat / 16 :=
        by omega
      obtain ⟨hfirst, hsecond, hthird⟩ := hhigh
      refine .unit
        (.digits (hfirst ▸ Or.inl rfl) (hsecond ▸ Or.inl rfl) ?_ (isHexDigit_hexDigit (by omega)))
      rw [hthird]
      exact isHexDigit_hexDigit (by omega)
    next hcontrol => exact .plain (by omega) hquote hslash

theorem denotes_escapedItem (cs : List Char) : Denotes cs (cs.map escapedItem) := by
  induction cs with
  | nil => exact .nil
  | cons c cs ih =>
    rw [List.map_cons, escapedItem]
    split
    · exact .unit ih
    · exact .char ih

/-- A text in quotes. -/
def quoteText (s : String) : StringText where
  items := s.toList.map escapedItem
  parts := s.toList.map Json.escapeChar
  written := by
    rw [List.forall₂_map_left_iff, List.forall₂_map_right_iff]
    exact List.forall₂_same.mpr fun c _ => written_escapeChar c

theorem chars_quoteText (s : String) : (quoteText s).chars = (Json.quote s).toList := by
  simp [StringText.chars, quoteText, Json.quote, List.flatMap_def]

/-- No blanks. -/
def noBlanks : Blanks := ⟨[], by simp⟩

/-- A value without blanks around it. -/
def bare (value : List Char) : Padded := ⟨noBlanks, value, noBlanks⟩

/-- A member without blanks. -/
def bareMember (name : String) (value : List Char) : MemberText :=
  ⟨noBlanks, quoteText name, noBlanks, bare value⟩

theorem value_bare (value : List Char) : (bare value).value = value := rfl

theorem chars_bare (value : List Char) : (bare value).chars = value := by
  simp [Padded.chars, bare, noBlanks]

theorem value_bareMember (name : String) (value : List Char) :
    (bareMember name value).value.value = value := rfl

theorem chars_bareMember (name : String) (value : List Char) :
    (bareMember name value).chars = (Json.quote name).toList ++ ':' :: value := by
  rw [← chars_quoteText]
  simp [MemberText.chars, bareMember, noBlanks, Padded.chars, bare]

theorem isText_quote (s : String) : IsText s (Json.quote s).toList := by
  rw [← chars_quoteText]
  exact .quoted _ (denotes_escapedItem _)

/-- A field is written as one member, which is null if there is no value. -/
theorem isField_opt (name : String) (value : Option String) :
    IsField name value [bareMember name (Json.compact (.opt .text value)).toList] := by
  have hname : Denotes name.toList (quoteText name).items := denotes_escapedItem _
  cases value with
  | none =>
    refine .null hname ?_
    rw [value_bareMember, Json.opt, Option.elim_none, Json.compact]
  | some s =>
    refine .text hname ?_
    rw [value_bareMember, Json.opt, Option.elim_some, Json.text, Json.compact, Json.writeString]
    exact isText_quote s

theorem compactElements_eq (vs : List Json) : Json.compactElements vs = vs.map Json.compact := by
  induction vs with
  | nil => rfl
  | cons v vs ih => rw [Json.compactElements, ih, List.map_cons]

theorem compactMembers_eq (nvs : List (JsonString × Json)) :
    Json.compactMembers nvs =
      nvs.map (fun nv => Json.writeString nv.1 ++ ":" ++ Json.compact nv.2) := by
  induction nvs with
  | nil => rfl
  | cons nv nvs ih => rw [Json.compactMembers, ih, List.map_cons]

theorem compact_list {α : Type} (write : α → Json) (values : List α) :
    (Json.compact (.list write values)).toList =
      arrayChars noBlanks (values.map fun a => bare (Json.compact (write a)).toList) := by
  rw [Json.list, Json.compact, compactElements_eq]
  simp [arrayChars, noBlanks, String.toList_append, String.toList_intercalate, Function.comp_def,
    chars_bare]

theorem compact_record (members : List (String × Json)) :
    (Json.compact (.record members)).toList =
      objectChars noBlanks (members.map fun m => bareMember m.1 (Json.compact m.2).toList) := by
  rw [Json.record, Json.compact, compactMembers_eq]
  simp [objectChars, noBlanks, String.toList_append, String.toList_intercalate, Function.comp_def,
    chars_bareMember, Json.writeString]

theorem isRecord_compact (r : DiffRecord) : IsRecord r (Json.compact r.toJson).toList := by
  have hsome (s : String) : Json.text s = .opt .text (some s) := rfl
  have hunknown : ∀ m ∈ ([] : List MemberText), IsUnknown m := by simp
  rw [DiffRecord.toJson, compact_record, hsome r.before, hsome r.after]
  exact .object noBlanks (isField_opt _ (some r.before)) (isField_opt _ (some r.after))
    (isField_opt _ r.commit) (isField_opt _ r.diff) hunknown (.refl _)

theorem isDataset_compact (records : List DiffRecord) :
    IsDataset records (Json.compact (.list DiffRecord.toJson records)).toList := by
  have hrecords : List.Forall₂ (fun r e => IsRecord r (Padded.value e)) records
      (records.map fun r => bare (Json.compact r.toJson).toList) := by
    rw [List.forall₂_map_right_iff, List.forall₂_same]
    intro r _
    rw [value_bare]
    exact isRecord_compact r
  rw [compact_list, ← chars_bare (arrayChars noBlanks _)]
  exact .array noBlanks noBlanks noBlanks hrecords

/-- **Every text of a data set is read as its records**, and one of them is what is written without
blanks. -/
theorem dataset_reads_back (records : List DiffRecord) :
    IsDataset records (Json.compact (.list DiffRecord.toJson records)).toList ∧
      ∀ content : String, IsDataset records content.toList →
        Dataset.ofText content = .ok records := by
  refine ⟨isDataset_compact records, fun content h => ?_⟩
  generalize hcs : content.toList = cs at h
  obtain ⟨before, blanks, after, helements⟩ := h
  obtain ⟨vs, hreads, hvs⟩ := exists_reads_of_isRecord_all helements
  rw [Dataset.ofText, read?_of_reads hcs (reads_array hreads)]
  exact hvs

/-- The name of a field, with an escape. -/
def afterName : StringText where
  items := .unit 0x66 :: (quoteText "unc_after_source").items
  parts := "\\u0066".toList :: (quoteText "unc_after_source").parts
  written := .cons (.unit (.digits (Or.inl rfl) (Or.inl rfl) (Or.inl rfl) (Or.inl rfl)))
    (quoteText "unc_after_source").written

/-- A surrogate pair, with digits in both cases, and a short escape. -/
def pairText : StringText where
  items := [.unit 0xD83D, .unit 0xDE00, .char '/']
  parts := ["\\ud83d".toList, "\\uDE00".toList, "\\/".toList]
  written := .cons (.unit (.digits (Or.inl rfl) (Or.inl rfl) (Or.inl rfl) (Or.inl rfl)))
    (.cons (.unit (.digits (Or.inr rfl) (Or.inr rfl) (Or.inl rfl) (Or.inl rfl)))
      (.cons (.short (by decide)) .nil))

/-- One half of a surrogate pair. -/
def halfText : StringText where
  items := [.unit 0xD800]
  parts := ["\\ud800".toList]
  written := .cons (.unit (.digits (Or.inl rfl) (Or.inl rfl) (Or.inl rfl) (Or.inl rfl))) .nil

def oneBlank : Blanks := ⟨[' '], by simp⟩

/-- A member that means nothing to a record, with a number and an object in an array. -/
def unknownMember : MemberText where
  before := noBlanks
  name := quoteText "x"
  between := oneBlank
  value := ⟨oneBlank, arrayChars noBlanks [bare "-1.5E+03".toList,
    bare (objectChars noBlanks [⟨noBlanks, halfText, noBlanks, bare (arrayChars oneBlank [])⟩])],
    noBlanks⟩

theorem isUnknown_unknownMember : IsUnknown unknownMember := by
  have hdigits {cs : List Char} (hne : cs ≠ []) (h : cs.all Char.isDigit = true) : IsDigits cs :=
    ⟨hne, List.all_eq_true.mp h⟩
  have hwhole : IsWhole ['1'] := .digits (by decide) (hdigits (by simp) rfl)
  have hfraction : IsFraction ['.', '5'] := .digits (hdigits (by simp) rfl)
  have hexponent : IsExponent ('E' :: (['+'] ++ ['0', '3'])) :=
    .digits (by decide) (by decide) (hdigits (by simp) rfl)
  have hnumber : IsNumber (['-'] ++ (['1'] ++ (['.', '5'] ++ ('E' :: (['+'] ++ ['0', '3']))))) :=
    .parts (by decide) hwhole hfraction hexponent
  have hobject : IsValue (objectChars noBlanks
      [⟨noBlanks, halfText, noBlanks, bare (arrayChars oneBlank [])⟩]) := by
    refine .object _ fun m hm => ?_
    rw [List.mem_singleton.mp hm]
    exact .array _ fun e he => absurd he List.not_mem_nil
  refine ⟨⟨"x", by decide, denotes_escapedItem _⟩, .array _ fun e he => ?_⟩
  rcases List.mem_cons.mp he with rfl | he
  · exact .number hnumber
  · rw [List.mem_singleton.mp he]
    exact hobject

/-- The fields stand in another order, one of them is missing and one is null, and there is a member
that is unknown. -/
theorem dataset_reads_back_reordered :
    let content := "\n[ \x7b\"x\" : [-1.5E+03,\x7b\"\\ud800\":[ ]\x7d],\"diff_source\": null," ++
      "\"\\u0066unc_after_source\" :\"\\ud83d\\uDE00\\/\",\"func_before_target\":\"\\u0001\"\x7d]"
    let r : DiffRecord := { before := "\x01", after := "😀/", commit := none, diff := none }
    IsDataset [r] content.toList ∧ Dataset.ofText content = .ok [r] := by
  intro content r
  let before := bareMember "func_before_target" (quoteText "\x01").chars
  let after : MemberText := ⟨noBlanks, afterName, oneBlank, bare pairText.chars⟩
  let diff : MemberText :=
    ⟨noBlanks, quoteText "diff_source", noBlanks, ⟨oneBlank, "null".toList, noBlanks⟩⟩
  have hbefore : IsField "func_before_target" (some r.before) [before] :=
    .text (denotes_escapedItem _) (.quoted _ (denotes_escapedItem _))
  have hpair : Denotes r.after.toList pairText.items := by
    have hchars : r.after.toList = ['😀', '/'] := by decide +kernel
    rw [hchars]
    exact @Denotes.pair '😀' 0x3D 0x200 ['/'] [.char '/'] (by decide) (by decide) rfl (.char .nil)
  have hafter : IsField "func_after_source" (some r.after) [after] :=
    .text (.unit (denotes_escapedItem _)) (.quoted _ hpair)
  have hdiff : IsField "diff_source" r.diff [diff] := .null (denotes_escapedItem _) rfl
  have hunknown : ∀ m ∈ [unknownMember], IsUnknown m := by
    intro m hm
    rw [List.mem_singleton.mp hm]
    exact isUnknown_unknownMember
  have hrecord : IsRecord r (objectChars noBlanks [unknownMember, diff, after, before]) :=
    .object noBlanks hbefore hafter .missing hdiff hunknown
      (List.reverse_perm [before, after, diff, unknownMember])
  have hcontent : content.toList = Padded.chars ⟨⟨['\n'], by simp⟩,
      arrayChars oneBlank [bare (objectChars noBlanks [unknownMember, diff, after, before])],
      noBlanks⟩ := by
    decide +kernel
  have htext : IsDataset [r] content.toList := by
    rw [hcontent]
    exact .array _ _ _ (.cons hrecord .nil)
  exact ⟨htext, (dataset_reads_back [r]).2 content htext⟩

end JsonText

end CallDelta
