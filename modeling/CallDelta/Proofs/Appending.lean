import CallDelta.Files.LogFile
import Mathlib.Data.List.Basic

/-!
# Opening and extending a file

On a disk where everything lies in a directory, a path that leads to a file opens it as a log, and
nothing on the disk changes. Text that goes behind the end of the file changes nothing but its
content, so the same path opens the same file again.

* `Disk.Grounded`: everything on a disk lies in a directory
* `Disk.FileAt`: a path leads to a file
* `Disk.FileAt.openAt_eq`: the path opens the file
* `Disk.FileAt.append`: what becomes of the file when text is appended
-/

namespace CallDelta

/-- Files are equal if their bytes are. -/
instance : DecidableEq Entry
  | .file content, .file content' =>
    decidable_of_iff (content.data = content'.data)
      ⟨fun h => congrArg Entry.file (ByteArray.ext h),
       fun h => congrArg ByteArray.data (Entry.file.inj h)⟩
  | .directory, .directory | .nullDevice, .nullDevice | .fullDevice, .fullDevice => isTrue rfl
  | .file _, .directory | .file _, .nullDevice | .file _, .fullDevice
  | .directory, .file _ | .directory, .nullDevice | .directory, .fullDevice
  | .nullDevice, .file _ | .nullDevice, .directory | .nullDevice, .fullDevice
  | .fullDevice, .file _ | .fullDevice, .directory | .fullDevice, .nullDevice =>
    isFalse (fun h => by cases h)

namespace Disk

/-- Everything lies in a directory. -/
def Grounded (d : Disk) : Prop :=
  ∀ entry ∈ d.entries, d.lookup entry.1.dropLast = some .directory

instance (d : Disk) : Decidable d.Grounded :=
  inferInstanceAs (Decidable (∀ entry ∈ d.entries, d.lookup entry.1.dropLast = some .directory))

variable {d : Disk} {place around : Location} {path : String} {content : ByteArray}

theorem ne_nil_of_lookup (h : d.lookup place = some (.file content)) : place ≠ [] := by
  rintro rfl
  cases h

/-- Around whatever is there, there is a directory. -/
theorem Grounded.dropLast (hd : d.Grounded) (h : (d.lookup place).isSome = true) :
    d.lookup place.dropLast = some .directory := by
  cases place with
  | nil => rfl
  | cons name rest =>
    obtain ⟨entry, hmem, hkey⟩ := List.lookup_isSome_iff.mp h
    rw [eq_of_beq hkey]
    exact hd entry hmem

/-! ## Following paths -/

theorem follow_ok_iff {name : String} :
    d.follow around name = .ok place ↔ d.lookup around = some .directory ∧
      (name = "." ∧ place = around ∨ name = ".." ∧ place = around.dropLast ∨
        name ≠ "." ∧ name ≠ ".." ∧ (d.lookup (around ++ [name])).isSome = true ∧
          place = around ++ [name]) := by
  unfold follow
  split
  next hdirectory =>
    by_cases hdot : name = "."
    · simp [hdot, hdirectory, eq_comm (a := place)]
    · by_cases hdots : name = ".."
      · simp [hdots, hdirectory, eq_comm (a := place)]
      · by_cases hsome : (d.lookup (around ++ [name])).isSome = true
        · simp [hdot, hdots, hsome, hdirectory, eq_comm (a := place)]
        · simp [hdot, hdots, hsome]
  next h => simp_all
  next h => simp [h]

theorem followAll_concat {absolute : Bool} {parts : List String} {name : String} :
    d.followAll absolute (parts ++ [name]) = .ok place ↔
      ∃ around, d.followAll absolute parts = .ok around ∧ d.follow around name = .ok place := by
  unfold followAll
  rw [List.foldlM_append]
  cases parts.foldlM d.follow (if absolute then [] else d.workingDirectory) with
  | error e => simp [bind, Except.bind]
  | ok around =>
    show [name].foldlM d.follow around = .ok place ↔ _
    simp

/-- A `.` on the way makes no difference. -/
theorem foldlM_follow_filter {start : Location} {parts : List String}
    (h : parts.foldlM d.follow start = .ok place) :
    (parts.filter (· != ".")).foldlM d.follow start = .ok place := by
  induction parts generalizing start with
  | nil => exact h
  | cons name parts ih =>
    rw [List.foldlM_cons] at h
    cases hnext : d.follow start name with
    | error e =>
      rw [hnext] at h
      cases h
    | ok next =>
      rw [hnext] at h
      have hrest : (parts.filter (· != ".")).foldlM d.follow next = .ok place := ih h
      by_cases hdot : name = "."
      · subst hdot
        obtain ⟨-, ⟨-, rfl⟩ | ⟨hno, -⟩ | ⟨hno, -⟩⟩ := follow_ok_iff.mp hnext
        · simpa using hrest
        · exact absurd hno (by decide)
        · exact absurd rfl hno
      · rw [List.filter_cons_of_pos (by simpa using hdot), List.foldlM_cons, hnext]
        exact hrest

end Disk

/-- Each character beside the separators is in a stretch. -/
theorem exists_mem_splitAtChar {sep c : Char} {cs : List Char} (h : c ∈ cs) (hc : c ≠ sep) :
    ∃ part ∈ splitAtChar sep cs, c ∈ part := by
  induction cs with
  | nil => cases h
  | cons a cs ih =>
    rw [splitAtChar]
    rcases List.mem_cons.mp h with rfl | hmem
    · rw [if_neg hc]
      split <;> exact ⟨_, List.mem_cons_self, List.mem_cons_self⟩
    · obtain ⟨part, hpart, hmem'⟩ := ih hmem
      split
      · exact ⟨part, List.mem_cons_of_mem _ hpart, hmem'⟩
      · split
        next hnil => simp [hnil] at hpart
        next first others hcons =>
          rw [hcons] at hpart
          rcases List.mem_cons.mp hpart with rfl | hothers
          · exact ⟨_, List.mem_cons_self, List.mem_cons_of_mem _ hmem'⟩
          · exact ⟨part, List.mem_cons_of_mem _ hothers, hmem'⟩

/-- A path that does not end in a slash has a part. -/
theorem Path.rawParts_ne_nil {path : String} (hpath : path ≠ "")
    (hslash : endsInSlash path = false) : rawParts path ≠ [] := by
  have hne : path.toList ≠ [] := by simpa using hpath
  have hlast : path.toList.getLast hne ≠ '/' := by
    intro hlast
    rw [endsInSlash, List.getLast?_eq_some_getLast hne, hlast] at hslash
    cases hslash
  obtain ⟨part, hpart, hmem⟩ := exists_mem_splitAtChar (List.getLast_mem hne) hlast
  have hkept : part ∈ (splitAtChar '/' path.toList).filter (fun part => !part.isEmpty) :=
    List.mem_filter.mpr ⟨hpart, by simpa using List.ne_nil_of_mem hmem⟩
  simpa [rawParts] using List.ne_nil_of_mem hkept

namespace Disk

variable {d : Disk} {place around : Location} {path : String} {content : ByteArray}

/-! ## Files -/

/-- A path leads to a file at a place. -/
structure FileAt (d : Disk) (path : String) (place : Location) (content : ByteArray) : Prop where
  grounded : d.Grounded
  locate : d.locate path = .ok place
  lookup : d.lookup place = some (.file content)

theorem FileAt.entryAt?_eq (h : d.FileAt path place content) :
    d.entryAt? path = some (.file content) := by
  rw [entryAt?, h.locate]
  exact h.lookup

theorem FileAt.of_entryAt? (hd : d.Grounded) (h : d.entryAt? path = some (.file content)) :
    ∃ place, d.FileAt path place content := by
  unfold entryAt? at h
  split at h
  next place hplace => exact ⟨place, hd, hplace, h⟩
  next => cases h

/-- The name of a file, and the directory it is in. -/
structure NamedIn (d : Disk) (path : String) (place : Location) (init : List String) (name : String)
    (around : Location) : Prop where
  parts : Path.rawParts path = init ++ [name]
  no_slash : Path.endsInSlash path = false
  followed : d.followAll (Path.startsAtRoot path) init = .ok around
  directory : d.lookup around = some .directory
  ne_dot : name ≠ "."
  ne_dots : name ≠ ".."
  place_eq : place = around ++ [name]

/-- The last part of a path to a file is its name. -/
theorem FileAt.namedIn (h : d.FileAt path place content) :
    ∃ init name around, d.NamedIn path place init name around := by
  have hlocate := h.locate
  have hnot : d.lookup place ≠ some .directory := by simp [h.lookup]
  rw [Disk.locate] at hlocate
  split at hlocate
  · cases hlocate
  next hempty =>
    dsimp only at hlocate
    cases hslash : Path.endsInSlash path with
    | true =>
      rw [hslash, if_pos rfl] at hlocate
      obtain ⟨around, -, hlast⟩ := followAll_concat.mp hlocate
      obtain ⟨hdirectory, ⟨-, rfl⟩ | ⟨hno, -⟩ | ⟨hno, -⟩⟩ := follow_ok_iff.mp hlast
      · exact absurd hdirectory hnot
      · exact absurd hno (by decide)
      · exact absurd rfl hno
    | false =>
      rw [hslash, if_neg (by simp)] at hlocate
      have hparts := Path.rawParts_ne_nil (by simpa using hempty) hslash
      obtain ⟨init, name, hsplit⟩ := (List.eq_nil_or_concat _).resolve_left hparts
      rw [List.concat_eq_append] at hsplit
      rw [hsplit] at hlocate
      obtain ⟨around, hfollowed, hlast⟩ := followAll_concat.mp hlocate
      obtain ⟨hdirectory, ⟨-, rfl⟩ | ⟨-, rfl⟩ | ⟨hdot, hdots, -, rfl⟩⟩ := follow_ok_iff.mp hlast
      · exact absurd hdirectory hnot
      · exact absurd (h.grounded.dropLast (by rw [hdirectory]; rfl)) hnot
      · exact ⟨init, name, around, hsplit, hslash, hfollowed, hdirectory, hdot, hdots, rfl⟩

theorem FileAt.openForAppending_eq (h : d.FileAt path place content) :
    d.openForAppending path = .ok (place, d) := by
  obtain ⟨init, name, around, hnamed⟩ := h.namedIn
  have hplace : d.placeFor (Path.startsAtRoot path) init name = .ok place := by
    simp only [placeFor, hnamed.followed, hnamed.directory, hnamed.place_eq, bind, Except.bind]
  have hnotback : (leadsBack name || Path.endsInSlash path) = false := by
    simp [leadsBack, hnamed.ne_dot, hnamed.ne_dots, hnamed.no_slash]
  rw [openForAppending, hnamed.parts, List.getLast?_concat, List.dropLast_concat]
  simp only [hplace, bind, Except.bind, hnotback, h.lookup]
  rfl

/-! ## The directories around a file -/

/-- Making a directory that is there does nothing. -/
theorem makeDirectories_of_isDirectory {p : Path} (h : d.isDirectory p = true) :
    d.makeDirectories p = (none, d) := by
  rw [makeDirectories]
  rcases List.eq_nil_or_concat p.parts with hparts | ⟨init, name, hparts⟩
  · rw [hparts]
    rfl
  · rw [List.concat_eq_append] at hparts
    have hwhole :
        ({ absolute := p.absolute, parts := (name :: init.reverse).reverse } : Path) = p := by
      simp [← hparts]
    have hthere := h
    rw [isDirectory, hparts] at hthere
    split at hthere
    next place hfollowed =>
      obtain ⟨around, hinit, hlast⟩ := followAll_concat.mp hfollowed
      obtain ⟨hdirectory, hname⟩ := follow_ok_iff.mp hlast
      have htaken : (leadsBack name || (d.lookup (around ++ [name])).isSome) = true := by
        rcases hname with ⟨rfl, -⟩ | ⟨rfl, -⟩ | ⟨-, -, hsome, -⟩
        · rfl
        · rfl
        · simp [hsome]
      have hrefused : d.makeDirectory p = .error .alreadyExists := by
        simp only [makeDirectory, hparts, List.getLast?_concat, List.dropLast_concat, placeFor,
          hinit, hdirectory, bind, Except.bind, htaken]
        rfl
      rw [hparts, List.reverse_append, List.reverse_singleton, List.singleton_append,
        makeDirectoriesFrom]
      simp only [hwhole, hrefused, h, if_true]
    next => cases hthere

/-- The directory around a file is there. -/
theorem FileAt.isDirectory_parent (h : d.FileAt path place content) :
    ∃ around, (Path.ofString path).parent? = some around ∧ d.isDirectory around = true := by
  obtain ⟨init, name, around, hnamed⟩ := h.namedIn
  have hkept : name != "." := by simpa using hnamed.ne_dot
  have hthere : ∀ parts, d.followAll (Path.startsAtRoot path) parts = .ok around →
      d.isDirectory { absolute := Path.startsAtRoot path, parts } = true := by
    intro parts hparts
    simp only [isDirectory, hparts, hnamed.directory]
  have hall := hnamed.followed
  unfold Path.ofString
  dsimp only
  split
  next parts hroot hraw =>
    -- a path that is relative and begins with a `.`
    rw [hnamed.parts] at hraw
    cases init with
    | nil =>
      simp only [List.nil_append, List.cons.injEq] at hraw
      exact absurd hraw.1 hnamed.ne_dot
    | cons first init =>
      rw [List.cons_append, List.cons.injEq] at hraw
      obtain ⟨rfl, rfl⟩ := hraw
      refine ⟨{ absolute := Path.startsAtRoot path, parts := "." :: init.filter (· != ".") },
        by simp [Path.parent?, List.filter_append, hkept, List.dropLast_cons_of_ne_nil],
        hthere _ ?_⟩
      rw [followAll, List.foldlM_cons] at hall ⊢
      cases hfirst : d.follow (if Path.startsAtRoot path then [] else d.workingDirectory) "." with
      | error e =>
        rw [hfirst] at hall
        cases hall
      | ok next =>
        rw [hfirst] at hall
        exact foldlM_follow_filter (show init.foldlM d.follow next = .ok around from hall)
  next =>
    refine ⟨{ absolute := Path.startsAtRoot path, parts := init.filter (· != ".") },
      by simp [Path.parent?, hnamed.parts, List.filter_append, hkept], hthere _ ?_⟩
    exact foldlM_follow_filter hall

/-- **A path that leads to a file opens it as a log**, and changes nothing. -/
theorem FileAt.openAt_eq (h : d.FileAt path place content) :
    LogFile.openAt path d = (.ok { path, place, pending := "" }, d) := by
  obtain ⟨around, hparent, hdirectory⟩ := h.isDirectory_parent
  rw [LogFile.openAt, hparent]
  have hmade : (if around.isEmpty then (none, d) else d.makeDirectories around) = (none, d) := by
    rw [makeDirectories_of_isDirectory hdirectory, ite_self]
  simp only [hmade, h.openForAppending_eq]

/-! ## Appending -/

theorem lookup_putEntry (place other : Location) (e : Entry) (entries : List (Location × Entry)) :
    (putEntry place e entries).lookup other =
      if other = place then some e else entries.lookup other := by
  induction entries with
  | nil =>
    by_cases h : other = place
    · simp [putEntry, h]
    · simp [putEntry, List.lookup_cons, h, beq_false_of_ne h]
  | cons entry rest ih =>
    obtain ⟨key, old⟩ := entry
    rw [putEntry]
    by_cases hkey : key = place
    · subst hkey
      by_cases h : other = key
      · simp [h]
      · simp [List.lookup_cons, h, beq_false_of_ne h]
    · rw [if_neg hkey, List.lookup_cons, List.lookup_cons, ih]
      by_cases h : other = key
      · subst h
        simp [hkey]
      · simp [beq_false_of_ne h]

theorem mem_putEntry {e : Entry} {entries : List (Location × Entry)} {entry : Location × Entry}
    (h : entry ∈ putEntry place e entries) : entry = (place, e) ∨ entry ∈ entries := by
  induction entries with
  | nil => exact Or.inl (List.mem_singleton.mp h)
  | cons first rest ih =>
    rw [putEntry] at h
    split at h
    · rcases List.mem_cons.mp h with heq | hmem
      · exact Or.inl heq
      · exact Or.inr (List.mem_cons_of_mem _ hmem)
    · rcases List.mem_cons.mp h with rfl | hmem
      · exact Or.inr List.mem_cons_self
      · exact (ih hmem).imp_right (List.mem_cons_of_mem _)

theorem lookup_put (hplace : place ≠ []) (e : Entry) (other : Location) :
    (d.put place e).lookup other = if other = place then some e else d.lookup other := by
  unfold lookup
  by_cases hother : other = []
  · subst hother
    simp [Ne.symm hplace]
  · have hne : other.isEmpty = false := by simpa using hother
    rw [hne]
    exact lookup_putEntry place other e d.entries

section

variable (h : d.lookup place = some (.file content)) (more : ByteArray)

include h

/-- Another content makes no difference for what is a directory. -/
theorem lookup_put_directory_iff (other : Location) :
    (d.put place (.file more)).lookup other = some .directory ↔
      d.lookup other = some .directory := by
  rw [lookup_put (ne_nil_of_lookup h)]
  split
  next heq =>
    subst heq
    simp [h]
  next => rfl

theorem isSome_lookup_put (other : Location) :
    ((d.put place (.file more)).lookup other).isSome = (d.lookup other).isSome := by
  rw [lookup_put (ne_nil_of_lookup h)]
  split
  next heq =>
    subst heq
    simp [h]
  next => rfl

/-- Another content makes no difference for where paths lead. -/
theorem follow_put (around : Location) (name : String) :
    (d.put place (.file more)).follow around name = d.follow around name := by
  have hlookup := lookup_put (d := d) (ne_nil_of_lookup h) (.file more) around
  unfold follow
  rw [isSome_lookup_put h]
  by_cases heq : around = place
  · subst heq
    rw [hlookup, if_pos rfl, h]
  · rw [hlookup, if_neg heq]

theorem locate_put (path : String) : (d.put place (.file more)).locate path = d.locate path := by
  have hfollow : (d.put place (.file more)).follow = d.follow := funext₂ (follow_put h more)
  unfold locate followAll
  rw [hfollow]
  rfl

theorem Grounded.put (hd : d.Grounded) : (d.put place (.file more)).Grounded := by
  intro entry hentry
  rw [lookup_put_directory_iff h]
  rcases mem_putEntry hentry with rfl | hold
  · exact hd.dropLast (by rw [h]; rfl)
  · exact hd entry hold

end

/-- **Appending to a file** puts the text behind its end, and the path leads to the same file. -/
theorem FileAt.append (h : d.FileAt path place content) (text : String) :
    ∃ d', d.append place text = .ok d' ∧ d'.FileAt path place (content ++ text.toUTF8) := by
  unfold Disk.append
  by_cases htext : text.isEmpty = true
  · rw [if_pos htext]
    obtain rfl : text = "" := by simpa using htext
    exact ⟨d, rfl, by simpa using h⟩
  · rw [if_neg htext, h.lookup]
    refine ⟨_, rfl, h.grounded.put h.lookup _, ?_, ?_⟩
    · rw [locate_put h.lookup, h.locate]
    · rw [lookup_put (ne_nil_of_lookup h.lookup), if_pos rfl]

end Disk

end CallDelta
