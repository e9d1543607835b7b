import Mathlib.Data.List.Basic
import ApiDef.CommandLine.Run
set_option autoImplicit false

/-!
# Written files

A file is read back as it was written. The directories on the way to it are still where they were.
-/

namespace ApiDef.CommandLine.Folder

variable {folder after : Folder} {place other : List String} {path : String} {contents : ByteArray}

/-!
## Places
-/

theorem lookup_put_self (folder : Folder) (place : List String) (node : Node) :
    (folder.put place node).nodes.lookup place = some node := by
  have removed : (folder.nodes.filter fun entry => entry.1 ≠ place).lookup place = none := by
    rw [List.lookup_eq_none_iff]
    intro entry member
    have kept := of_decide_eq_true (List.mem_filter.mp member).2
    simpa using Ne.symm kept
  rw [put, List.lookup_append, removed, Option.none_or, List.lookup_cons_self]

theorem lookup_put_of_ne (different : other ≠ place) (node : Node) :
    (folder.put place node).nodes.lookup other = folder.nodes.lookup other := by
  have elsewhere : (other == place) = false := beq_false_of_ne different
  have notAdded : [(place, node)].lookup other = none := by
    rw [List.lookup_cons, elsewhere]
    rfl
  rw [put, List.lookup_append, notAdded, Option.or_none]
  induction folder.nodes with
  | nil => rfl
  | cons entry nodes ih =>
    obtain ⟨key, value⟩ := entry
    by_cases same : key = place
    · rw [List.filter_cons_of_neg (by simpa using same), ih, List.lookup_cons, same, elsewhere]
    · rw [List.filter_cons_of_pos (by simpa using same), List.lookup_cons, List.lookup_cons, ih]

theorem at?_put_self (folder : Folder) (nonempty : place ≠ []) (node : Node) :
    (folder.put place node).at? place = some node := by
  have notRoot : place.isEmpty = false := by simpa using nonempty
  simp [at?, notRoot, lookup_put_self]

/-- What was a directory is one, unless a file is put in its place. -/
theorem at?_put_of_directory (different : other ≠ place) (node : Node)
    (directory : folder.at? other = some .directory) :
    (folder.put place node).at? other = some .directory := by
  unfold at? at directory ⊢
  split at directory
  next root => rw [if_pos root]
  next notRoot =>
    rw [if_neg notRoot, lookup_put_of_ne different]
    split at directory
    next found => simpa [found] using directory
    next notFound =>
      obtain ⟨above, -⟩ := Option.ite_none_right_eq_some.mp directory
      obtain ⟨entry, member, isPrefix⟩ := List.any_eq_true.mp above
      have still : (folder.put place node).nodes.any (fun entry => other.isPrefixOf entry.1) = true := by
        rw [List.any_eq_true]
        by_cases same : entry.1 = place
        · exact ⟨(place, node), by simp [put], same ▸ isPrefix⟩
        · exact ⟨entry, by simp [put, member, same], isPrefix⟩
      simp [still]

/-!
## Walks
-/

/-- Where a name leads to from a directory. -/
def step (place : List String) (name : String) : Except AccessProblem (List String) :=
  if name = "" ∨ name = "." then .ok place
  else if name = ".." then if place.isEmpty then .error .notFound else .ok place.dropLast
  else if longestName < name.utf8ByteSize then .error .nameTooLong
  else .ok (place ++ [name])

theorem walk_cons_eq_ok {name : String} {others target : List String} :
    folder.walk place (name :: others) = .ok target
      ↔ folder.at? place = some .directory
        ∧ ∃ next, step place name = .ok next ∧ folder.walk next others = .ok target := by
  rw [walk]
  cases found : folder.at? place with
  | none => simp
  | some node =>
    cases node with
    | file contents => simp
    | directory =>
      rw [step]
      split_ifs <;> simp

theorem walk_append_eq_ok {first second target : List String} :
    folder.walk place (first ++ second) = .ok target
      ↔ ∃ middle, folder.walk place first = .ok middle ∧ folder.walk middle second = .ok target := by
  induction first generalizing place with
  | nil => simp [walk]
  | cons name others ih =>
    simp only [List.cons_append, walk_cons_eq_ok, ih]
    constructor
    · intro ⟨directory, next, stepped, middle, walked, goesOn⟩
      exact ⟨middle, ⟨directory, next, stepped, walked⟩, goesOn⟩
    · intro ⟨middle, ⟨directory, next, stepped, walked⟩, goesOn⟩
      exact ⟨directory, next, stepped, middle, walked, goesOn⟩

/-- A file that is put where no directory was does not stand in the way. -/
theorem walk_put {target : List String} (notDirectory : folder.at? other ≠ some .directory) (node : Node)
    {names : List String} (walked : folder.walk place names = .ok target) :
    (folder.put other node).walk place names = .ok target := by
  induction names generalizing place with
  | nil => exact walked
  | cons name others ih =>
    obtain ⟨directory, next, stepped, later⟩ := walk_cons_eq_ok.mp walked
    have different : place ≠ other := by
      rintro rfl
      exact notDirectory directory
    exact walk_cons_eq_ok.mpr
      ⟨at?_put_of_directory different node directory, next, stepped, ih later⟩

/-!
## Files
-/

/-- Where a path leads that a file can be written to. -/
structure Reaches (folder : Folder) (path : String) (before : List String) (name : String)
    (place : List String) : Prop where
  checked : checkPath path = .ok ()
  parts : parts path = before ++ [name]
  walked : folder.walk [] before = .ok place
  directory : folder.at? place = some .directory
  named : step place name = .ok (place ++ [name])
  free : folder.at? (place ++ [name]) ≠ some .directory

theorem parts_of_splitName {before : List String} {name : String}
    (split : splitName path = (before, name, false)) : parts path = before ++ [name] ∧ name ≠ "" := by
  simp only [splitName] at split
  generalize reversed : (parts path).reverse = names at split
  cases names with
  | nil => cases split
  | cons last others =>
    by_cases empty : last = ""
    · -- Then a slash is at the end of the path.
      simp only [empty, List.head?_cons, decide_true] at split
      split at split <;> simp at split
    · rw [List.dropWhile_cons_of_neg (by simpa using empty)] at split
      obtain ⟨rfl, same⟩ := Prod.mk.inj split
      obtain ⟨rfl, -⟩ := Prod.mk.inj same
      exact ⟨by rw [List.reverse_eq_iff.mp reversed, List.reverse_cons], empty⟩

theorem reaches_of_write (written : folder.write path contents = .ok after) :
    ∃ before name place, folder.Reaches path before name place
      ∧ after = folder.put (place ++ [name]) (.file contents) := by
  unfold write at written
  simp only [bind, Except.bind, throw, throwThe, MonadExceptOf.throw, pure, Except.pure] at written
  split at written
  · cases written
  next checked =>
  split at written
  · cases written
  next place walked =>
  split at written
  · cases written
  · cases written
  next directory =>
  split_ifs at written with noFile long
  split at written
  · cases written
  next free =>
  obtain ⟨notSlashes, notDot, notDots⟩ : (splitName path).2.2 = false
      ∧ (splitName path).2.1 ≠ "." ∧ (splitName path).2.1 ≠ ".." := by
    simpa using noFile
  obtain ⟨parted, nonempty⟩ := parts_of_splitName
    (show splitName path = ((splitName path).1, (splitName path).2.1, false) by rw [← notSlashes])
  have named : step place (splitName path).2.1 = .ok (place ++ [(splitName path).2.1]) := by
    simp [step, nonempty, notDot, notDots, long]
  exact ⟨_, _, place, ⟨checked, parted, walked, directory, named, free⟩, (Except.ok.inj written).symm⟩

/-- What was written is found where it was written. -/
theorem find_of_write (written : folder.write path contents = .ok after) :
    after.find path = .ok (.file contents) := by
  obtain ⟨before, name, place, reaches, rfl⟩ := reaches_of_write written
  have walked : (folder.put (place ++ [name]) (.file contents)).walk [] (parts path)
      = .ok (place ++ [name]) := by
    have different : place ≠ place ++ [name] := by simp
    have directory := at?_put_of_directory different (.file contents) reaches.directory
    rw [reaches.parts, walk_append_eq_ok]
    exact ⟨place, walk_put reaches.free _ reaches.walked,
      walk_cons_eq_ok.mpr ⟨directory, _, reaches.named, rfl⟩⟩
  have nonempty : place ++ [name] ≠ [] := by simp
  have found := at?_put_self folder nonempty (.file contents)
  rw [find, reaches.checked, walked]
  simp only [bind, Except.bind, found]
  rfl

theorem text_toUTF8 (text : String) : (Node.file text.toUTF8).text = .ok text := by
  have valid : text.toUTF8.IsValidUTF8 := text.isValidUTF8
  rw [Node.text, String.fromUTF8?, dif_pos valid]
  rfl

/-- A text is read back as it was written, unless it is too large. -/
theorem readText_of_write {text : String} {limit : Nat}
    (written : folder.write path text.toUTF8 = .ok after) (fits : text.utf8ByteSize ≤ limit) :
    after.readText limit path = .ok text := by
  have size : (Node.file text.toUTF8).size = text.utf8ByteSize := String.size_toByteArray
  rw [readText, find_of_write written]
  simp only [Except.mapError, bind, Except.bind, size, if_neg (Nat.not_lt_of_le fits), text_toUTF8]

end ApiDef.CommandLine.Folder
