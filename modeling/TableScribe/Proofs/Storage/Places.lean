import Mathlib.Data.Fintype.EquivFin
import TableScribe.Storage.Tree

/-!
# The places that paths denote

Where a path leads does not depend on what there is on the way: `placeOf` follows its names from the
root or the working directory, and wherever the tree can follow them, it arrives there
(`placeOf_of_locate`).

1. `namesOf_joinPath`: a relative path seen from a directory has the names of both.
2. `StaysBelow path`: from whatever directory the path is seen, it leads below that directory.
3. `remains depth names`: the names never go up more than they and `depth` go down. For a path whose
   last name is that of a file this decides whether it stays below (`staysBelow_iff`).
-/

namespace TableScribe.Storage

/-! ## Names -/

section Names

variable {base path : String}

/-- The pieces between slashes, but the empty ones. -/
def segments (text : List Char) : List (List Char) :=
  (text.splitOn '/').filter (· ≠ [])

theorem namesOf_eq (path : String) : namesOf path = (segments path.toList).map String.ofList := by
  unfold namesOf segments
  rw [Text.splitOn_singleton]

theorem segments_append_slash (front back : List Char) :
    segments (front ++ '/' :: back) = segments front ++ segments back := by
  unfold segments
  rw [List.splitOn_append_cons_self, List.filter_append]

theorem namesOf_empty : namesOf "" = [] := by
  decide +kernel

/-- A path without a slash is one name. -/
theorem namesOf_of_no_slash (hslash : '/' ∉ path.toList) (hne : path ≠ "") :
    namesOf path = [path] := by
  rw [namesOf_eq]
  unfold segments
  rw [List.splitOn_eq_singleton hslash]
  simp [hne]

theorem isAbsolute_of_no_slash (hslash : '/' ∉ path.toList) : isAbsolute path = false := by
  unfold isAbsolute
  exact decide_eq_false fun h => hslash (List.mem_of_head? h)

/-- Only the beginning of a path tells whether it is absolute. -/
theorem isAbsolute_append (path : String) {suffix : String} (h : isAbsolute suffix = false) :
    isAbsolute (path ++ suffix) = isAbsolute path := by
  unfold isAbsolute at h ⊢
  rw [String.toList_append]
  cases hpath : path.toList with
  | nil => exact h
  | cons c rest => rfl

/-- A text with a slash has a last one. -/
theorem exists_last_slash (text : List Char) :
    '/' ∉ text ∨ ∃ front last, text = front ++ '/' :: last ∧ '/' ∉ last := by
  induction text with
  | nil => exact .inl List.not_mem_nil
  | cons c rest ih =>
    rcases ih with hnone | ⟨front, last, rfl, hlast⟩
    · by_cases hc : c = '/'
      · exact .inr ⟨[], rest, by rw [hc]; rfl, hnone⟩
      · exact .inl fun hmem => (List.mem_cons.1 hmem).elim (Ne.symm hc) hnone
    · exact .inr ⟨c :: front, last, rfl, hlast⟩

/-- The directories that a path goes through: the names in front of its last slash. -/
def directoriesOf (path : String) : List String :=
  ((path.toList.splitOn '/').dropLast.filter (· ≠ [])).map String.ofList

/-- What a text adds to a path without a further slash belongs to the last name. -/
theorem namesOf_append_file (path suffix : String) (hslash : '/' ∉ suffix.toList)
    (hne : suffix ≠ "") :
    ∃ last, namesOf (path ++ suffix) = directoriesOf path ++ [last ++ suffix] := by
  have hfile : ∀ last : List Char, '/' ∉ last →
      (last ++ suffix.toList).splitOn '/' = [last ++ suffix.toList] := fun last hlast =>
    List.splitOn_eq_singleton (by simp [hlast, hslash])
  have hkept : ∀ last : List Char, last ++ suffix.toList ≠ [] := fun last hnil =>
    hne (String.toList_eq_nil_iff.1 (List.append_eq_nil_iff.1 hnil).2)
  unfold directoriesOf
  rw [namesOf_eq, String.toList_append]
  unfold segments
  rcases exists_last_slash path.toList with hnone | ⟨front, last, hpath, hlast⟩
  · refine ⟨path, ?_⟩
    rw [List.splitOn_eq_singleton hnone, hfile _ hnone]
    simp [hkept]
  · refine ⟨String.ofList last, ?_⟩
    rw [hpath, List.append_assoc, List.cons_append, List.splitOn_append_cons_self,
      List.splitOn_append_cons_self, List.splitOn_eq_singleton hlast, hfile last hlast,
      List.dropLast_concat, List.filter_append, List.map_append]
    simp [hkept]

/-- What a joined path reads as: the relative path follows the base, with a slash between them
unless the base is empty or ends in one. -/
theorem toList_joinPath (h : isAbsolute path = false) :
    (joinPath base path).toList =
      if base = "" ∨ base.toList.getLast? = some '/' then base.toList ++ path.toList
      else base.toList ++ '/' :: path.toList := by
  unfold joinPath
  rw [if_neg (by simp [h])]
  split
  · rw [String.toList_append]
  · rw [String.toList_append, String.toList_append, List.append_assoc]
    rfl

theorem namesOf_joinPath (h : isAbsolute path = false) :
    namesOf (joinPath base path) = namesOf base ++ namesOf path := by
  rw [namesOf_eq, namesOf_eq, namesOf_eq, toList_joinPath h, ← List.map_append]
  refine congrArg _ ?_
  split
  · rename_i hbase
    rcases hbase with rfl | hlast
    · rfl
    · obtain ⟨front, hfront⟩ := List.getLast?_eq_some_iff.1 hlast
      rw [hfront, List.append_assoc, List.singleton_append, segments_append_slash,
        segments_append_slash, show segments [] = [] from rfl, List.append_nil]
  · exact segments_append_slash base.toList path.toList

theorem isAbsolute_joinPath (h : isAbsolute path = false) :
    isAbsolute (joinPath base path) = isAbsolute base := by
  unfold isAbsolute at h ⊢
  rw [toList_joinPath (by unfold isAbsolute; exact h)]
  by_cases hbase : base = ""
  · rw [if_pos (.inl hbase), hbase]
    exact h
  · obtain ⟨c, rest, hc⟩ :=
      List.exists_cons_of_ne_nil fun hnil => hbase (String.toList_eq_nil_iff.1 hnil)
    rw [hc]
    split <;> rfl

theorem joinPath_of_absolute (h : isAbsolute path = true) : joinPath base path = path := by
  unfold joinPath
  rw [if_pos h]

end Names

/-! ## Following names -/

/-- The place that a name leads to: `.` stays and `..` goes up. -/
def follow (place : Place) (name : String) : Place :=
  if name = "." then place else if name = ".." then place.dropLast else place ++ [name]

/-- The place that a path denotes for somebody in the directory `working`. -/
def placeOf (working : Place) (path : String) : Place :=
  (namesOf path).foldl follow (if isAbsolute path then [] else working)

section Follow

variable {tree : Tree} {place base : Place} {name : String} {names : List String}

@[simp]
theorem follow_dot : follow place "." = place :=
  if_pos rfl

@[simp]
theorem follow_up : follow place ".." = place.dropLast := by
  unfold follow
  rw [if_neg (by decide), if_pos rfl]

theorem follow_of_proper (h1 : name ≠ ".") (h2 : name ≠ "..") :
    follow place name = place ++ [name] := by
  unfold follow
  rw [if_neg h1, if_neg h2]

/-- A name stays, goes up or goes down. -/
theorem name_cases (name : String) : name = "." ∨ name = ".." ∨ name ≠ "." ∧ name ≠ ".." := by
  by_cases h1 : name = "."
  · exact .inl h1
  · by_cases h2 : name = ".."
    · exact .inr (.inl h2)
    · exact .inr (.inr ⟨h1, h2⟩)

theorem placeOf_empty (working : Place) : placeOf working "" = working := by
  unfold placeOf
  rw [namesOf_empty]
  rfl

theorem placeOf_joinPath {working : Place} {directory path : String} (h : isAbsolute path = false) :
    placeOf working (joinPath directory path) =
      (namesOf path).foldl follow (placeOf working directory) := by
  unfold placeOf
  rw [namesOf_joinPath h, isAbsolute_joinPath h, List.foldl_append]

/-- Proper names lead straight down. -/
theorem foldl_follow_of_proper (h : ∀ name ∈ names, name ≠ "." ∧ name ≠ "..") :
    names.foldl follow place = place ++ names := by
  induction names generalizing place with
  | nil => exact (List.append_nil place).symm
  | cons name rest ih =>
    obtain ⟨h1, h2⟩ := h name List.mem_cons_self
    rw [List.foldl_cons, follow_of_proper h1 h2, ih fun other hmem => h other (.tail name hmem),
      List.append_assoc, List.singleton_append]

/-! ## The tree follows paths to their places -/

/-- A step can be taken if its name stays or goes up, or is that of a directory. -/
theorem enter_eq_ok_iff {next : Place} :
    tree.enter place name = .ok next ↔
      next = follow place name ∧ (name = "." ∨ name = ".." ∨
        name.utf8ByteSize ≤ Tree.nameLimit ∧ tree.node? next = some .directory) := by
  rcases name_cases name with rfl | rfl | ⟨h1, h2⟩
  · simp [Tree.enter, eq_comm]
  · simp [Tree.enter, eq_comm]
  · rw [follow_of_proper h1 h2, or_iff_right h1, or_iff_right h2]
    unfold Tree.enter
    rw [if_neg h1, if_neg h2]
    constructor
    · intro h
      split at h
      · exact absurd h (by simp)
      · rename_i hshort
        split at h
        · exact absurd h (by simp)
        · exact absurd h (by simp)
        · rename_i hdirectory
          rw [← Except.ok.inj h]
          exact ⟨rfl, Nat.not_lt.1 hshort, hdirectory⟩
    · rintro ⟨rfl, hshort, hdirectory⟩
      rw [if_neg (Nat.not_lt.2 hshort), hdirectory]

theorem walk_cons_eq_ok_iff {last : Place} :
    tree.walk place (name :: names) = .ok last ↔
      ∃ next, tree.enter place name = .ok next ∧ tree.walk next names = .ok last := by
  rw [Tree.walk]
  cases tree.enter place name with
  | error e => simp
  | ok next => simp

theorem walk_eq_ok {last : Place} (h : tree.walk place names = .ok last) :
    last = names.foldl follow place := by
  induction names generalizing place with
  | nil => exact (Except.ok.inj h).symm
  | cons name rest ih =>
    obtain ⟨next, hnext, hrest⟩ := walk_cons_eq_ok_iff.1 h
    rw [List.foldl_cons, ← (enter_eq_ok_iff.1 hnext).1]
    exact ih hrest

/-- Names lead to an entry of a directory if they can be followed there and the last is one that
a file may have. -/
theorem target_eq_entry_iff {rooted : Bool} {node : Option Node} :
    tree.target rooted names = .ok (.entry place node) ↔
      ∃ directory last, tree.walk (tree.origin rooted) names.dropLast = .ok directory ∧
        names.getLast? = some last ∧ (last ≠ "." ∧ last ≠ "..") ∧
        last.utf8ByteSize ≤ Tree.nameLimit ∧ place = directory ++ [last] ∧
        node = tree.node? place := by
  unfold Tree.target
  constructor
  · intro h
    split at h
    · split at h <;> exact absurd h (by simp)
    · rename_i last hlast
      split at h
      · exact absurd h (by simp)
      · rename_i directory hdirectory
        split at h
        · exact absurd h (by simp)
        · rename_i hproper
          rw [not_or] at hproper
          split at h
          · exact absurd h (by simp)
          · rename_i hshort
            simp only [Except.ok.injEq, Tree.Target.entry.injEq] at h
            obtain ⟨rfl, rfl⟩ := h
            exact ⟨directory, last, hdirectory, hlast, hproper, Nat.not_lt.1 hshort, rfl, rfl⟩
  · rintro ⟨directory, last, hdirectory, hlast, ⟨h1, h2⟩, hshort, rfl, rfl⟩
    rw [hlast]
    dsimp only
    rw [hdirectory]
    dsimp only
    rw [if_neg (not_or.2 ⟨h1, h2⟩), if_neg (Nat.not_lt.2 hshort)]

theorem locate_eq_ok_iff {path : String} {target : Tree.Target} :
    tree.locate path = .ok target ↔
      '\x00' ∉ path.toList ∧ path.utf8ByteSize < Tree.pathLimit ∧
        tree.target (isAbsolute path) (namesOf path) = .ok target := by
  unfold Tree.locate
  by_cases hzero : '\x00' ∈ path.toList
  · simp [hzero]
  · by_cases hlong : Tree.pathLimit ≤ path.utf8ByteSize
    · simp [hzero, hlong, Nat.not_lt.2 hlong]
    · simp [hzero, hlong, Nat.not_le.1 hlong]

/-- A tree that can follow names up to the last arrives at the place that they lead to. -/
theorem place_of_target {rooted : Bool} {node : Option Node}
    (h : tree.target rooted names = .ok (.entry place node)) :
    place = names.foldl follow (tree.origin rooted) ∧ place ≠ [] ∧ node = tree.node? place := by
  obtain ⟨directory, last, hdirectory, hlast, ⟨h1, h2⟩, -, rfl, rfl⟩ := target_eq_entry_iff.1 h
  obtain ⟨front, rfl⟩ := List.getLast?_eq_some_iff.1 hlast
  rw [List.dropLast_concat] at hdirectory
  rw [List.foldl_append, ← walk_eq_ok hdirectory]
  exact ⟨(follow_of_proper h1 h2).symm, by simp, rfl⟩

theorem placeOf_of_locate {path : String} {node : Option Node}
    (h : tree.locate path = .ok (.entry place node)) :
    place = placeOf tree.workingPlace path ∧ place ≠ [] ∧ node = tree.node? place :=
  place_of_target (locate_eq_ok_iff.1 h).2.2

end Follow

/-! ## Staying below a directory -/

def Below (base place : Place) : Prop :=
  ∃ more, more ≠ [] ∧ place = base ++ more

/-- The path is relative, and seen from any directory it leads below that directory. -/
def StaysBelow (path : String) : Prop :=
  isAbsolute path = false ∧
    ∀ working directory,
      Below (placeOf working directory) (placeOf working (joinPath directory path))

/-- Whether following the names, `depth` levels below a directory, never leaves that directory. -/
def remains : Nat → List String → Bool
  | _, [] => true
  | depth, name :: names =>
    if name = "." then remains depth names
    else if name = ".." then
      match depth with
      | 0 => false
      | depth + 1 => remains depth names
    else remains (depth + 1) names

section Remains

variable {name : String} {names : List String} {depth : Nat}

@[simp]
theorem remains_dot : remains depth ("." :: names) = remains depth names := by
  conv_lhs => unfold remains
  exact if_pos rfl

@[simp]
theorem remains_up_zero : remains 0 (".." :: names) = false := by
  unfold remains
  rw [if_neg (by decide), if_pos rfl]

@[simp]
theorem remains_up_succ : remains (depth + 1) (".." :: names) = remains depth names := by
  conv_lhs => unfold remains
  rw [if_neg (by decide), if_pos rfl]

theorem remains_of_proper (h1 : name ≠ ".") (h2 : name ≠ "..") :
    remains depth (name :: names) = remains (depth + 1) names := by
  conv_lhs => unfold remains
  rw [if_neg h1, if_neg h2]

/-- Names that remain remain further down. -/
theorem remains_mono (h : remains depth names = true) : remains (depth + 1) names = true := by
  induction names generalizing depth with
  | nil => rfl
  | cons name rest ih =>
    rcases name_cases name with rfl | rfl | ⟨h1, h2⟩
    · rw [remains_dot] at h ⊢
      exact ih h
    · cases depth with
      | zero => exact absurd h (by simp)
      | succ depth =>
        rw [remains_up_succ] at h ⊢
        exact ih h
    · rw [remains_of_proper h1 h2] at h ⊢
      exact ih h

/-- Names that remain lead somewhere below the directory. -/
theorem exists_more_of_remains (base more : Place) (h : remains more.length names = true) :
    ∃ after, names.foldl follow (base ++ more) = base ++ after := by
  induction names generalizing more with
  | nil => exact ⟨more, rfl⟩
  | cons name rest ih =>
    rw [List.foldl_cons]
    rcases name_cases name with rfl | rfl | ⟨h1, h2⟩
    · rw [follow_dot]
      exact ih more (by rwa [remains_dot] at h)
    · -- Going up takes the last name off again.
      cases more using List.reverseRecOn with
      | nil => exact absurd h (by simp)
      | append_singleton front last =>
        rw [List.length_append, List.length_singleton, remains_up_succ] at h
        rw [follow_up, ← List.append_assoc, List.dropLast_concat]
        exact ih front h
    · rw [remains_of_proper h1 h2] at h
      rw [follow_of_proper h1 h2, List.append_assoc]
      exact ih (more ++ [name]) (by rwa [List.length_append])

theorem mem_foldl_follow {place : Place} (h : name ∈ names.foldl follow place) :
    name ∈ place ∨ name ∈ names := by
  induction names generalizing place with
  | nil => exact .inl h
  | cons first rest ih =>
    rcases ih h with h | h
    · rcases name_cases first with rfl | rfl | ⟨h1, h2⟩
      · exact .inl (by rwa [follow_dot] at h)
      · rw [follow_up] at h
        exact .inl (List.dropLast_subset place h)
      · rw [follow_of_proper h1 h2, List.mem_append, List.mem_singleton] at h
        rcases h with h | rfl
        · exact .inl h
        · exact .inr List.mem_cons_self
    · exact .inr (.tail first h)

/-- Names that do not remain leave a directory whose name is none of them. -/
theorem not_mem_of_not_remains {directory : String} (hfresh : directory ∉ names) (more : Place)
    (h : remains more.length names = false) :
    directory ∉ names.foldl follow (directory :: more) := by
  induction names generalizing more with
  | nil => exact absurd h (by simp [remains])
  | cons name rest ih =>
    have hrest : directory ∉ rest := fun hmem => hfresh (.tail name hmem)
    rw [List.foldl_cons]
    rcases name_cases name with rfl | rfl | ⟨h1, h2⟩
    · rw [follow_dot]
      exact ih hrest more (by rwa [remains_dot] at h)
    · cases more using List.reverseRecOn with
      | nil =>
        -- Here the directory is left, and no name leads into it again.
        intro hmem
        exact (mem_foldl_follow hmem).elim (by simp) hrest
      | append_singleton front last =>
        rw [List.length_append, List.length_singleton, remains_up_succ] at h
        rw [follow_up, ← List.cons_append, List.dropLast_concat]
        exact ih hrest front h
    · rw [remains_of_proper h1 h2] at h
      rw [follow_of_proper h1 h2, List.cons_append]
      exact ih hrest (more ++ [name]) (by rwa [List.length_append])

/-- The path of a file stays below every directory exactly if it is relative and the directories on
the way remain. -/
theorem staysBelow_iff {path last : String} {directories : List String}
    (hnames : namesOf path = directories ++ [last]) (hlast : last ≠ "." ∧ last ≠ "..") :
    StaysBelow path ↔ isAbsolute path = false ∧ remains 0 directories = true := by
  have harrive : ∀ place, (namesOf path).foldl follow place =
      directories.foldl follow place ++ [last] := by
    intro place
    rw [hnames, List.foldl_append]
    exact follow_of_proper hlast.1 hlast.2
  constructor
  · rintro ⟨hrelative, hbelow⟩
    refine ⟨hrelative, Bool.of_not_eq_false fun hleaves => ?_⟩
    -- A directory with a name of its own cannot be entered again.
    obtain ⟨fresh, hfresh⟩ := Infinite.exists_notMem_finset (directories ++ [last]).toFinset
    rw [List.mem_toFinset, List.mem_append, not_or] at hfresh
    obtain ⟨more, -, hplace⟩ := hbelow [fresh] ""
    rw [placeOf_joinPath hrelative, placeOf_empty, harrive] at hplace
    have hmem : fresh ∈ directories.foldl follow [fresh] ++ [last] := by
      rw [hplace]
      exact List.mem_cons_self
    rcases List.mem_append.1 hmem with hmem | hmem
    · exact not_mem_of_not_remains hfresh.1 [] hleaves hmem
    · exact hfresh.2 hmem
  · rintro ⟨hrelative, hremains⟩
    refine ⟨hrelative, fun working directory => ?_⟩
    rw [placeOf_joinPath hrelative, harrive]
    obtain ⟨after, hafter⟩ := exists_more_of_remains (placeOf working directory) [] hremains
    rw [List.append_nil] at hafter
    exact ⟨after ++ [last], by simp, by rw [hafter, List.append_assoc]⟩

end Remains

end TableScribe.Storage
