import TableScribe.Proofs.Code.Contents
import TableScribe.Proofs.Code.Imports
import TableScribe.Proofs.Storage.Places

/-!
# The paths of the generated files

Every path is made of the name of a table or is the same for all tables. The class file of a table
is called by its class name, and its router, in a directory for all routers, by its name.

1. `Recased text image`: the image is the text in other letters, with the same dots and slashes. So
   a class name is related to the name of the table (`recased_className`); it begins with no small
   letter (`not_isSmall_of_head?_className`), as the file of the enums does.
2. `mem_bundle`: which paths there are, and `map_namesOf_bundle`: their names, if no name of a table
   has a slash.
3. `nodup_paths_bundle`: no two files have the same path, or paths that denote the same place, if no
   two tables have the same name and no name has a slash.
-/

namespace TableScribe.Code

open Storage (isAbsolute joinPath namesOf placeOf)
open Text (Shift lower lowerSequences lowerShifts mapCase toNat_ofNat_cases upper upperSequences
  upperShifts)

/-! ## Letter case leaves dots and slashes alone -/

/-- The character is a dot or a slash. -/
def IsMark (c : Char) : Prop :=
  46 ≤ c.toNat ∧ c.toNat ≤ 47

instance (c : Char) : Decidable (IsMark c) :=
  inferInstanceAs (Decidable (_ ∧ _))

/-- The mapping neither moves a dot or a slash nor moves anything there, and nothing vanishes. -/
structure KeepsMarks (shifts : List Shift) (sequences : List (Nat × List Nat)) : Prop where
  shifts : ∀ s ∈ shifts, (s.last < 46 ∨ 47 < s.first) ∧
    (s.last + s.distance < 46 ∨ 47 < s.first + s.distance)
  sequences : ∀ pair ∈ sequences, (pair.1 < 46 ∨ 47 < pair.1) ∧ pair.2 ≠ [] ∧
    ∀ point ∈ pair.2, point < 46 ∨ 47 < point

theorem keepsMarks_upper : KeepsMarks upperShifts upperSequences :=
  ⟨by decide +kernel, by decide +kernel⟩

theorem keepsMarks_lower : KeepsMarks lowerShifts lowerSequences :=
  ⟨by decide +kernel, by decide +kernel⟩

theorem mapCase_cases {shifts : List Shift} {sequences : List (Nat × List Nat)}
    (h : KeepsMarks shifts sequences) (c : Char) :
    mapCase shifts sequences c = [c] ∨
      ¬ IsMark c ∧ mapCase shifts sequences c ≠ [] ∧
        ∀ image ∈ mapCase shifts sequences c, ¬ IsMark image := by
  rcases Text.mapCase_eq shifts sequences c with
    ⟨s, hs, hcovers, himages⟩ | ⟨points, hpair, himages⟩ | ⟨-, himages⟩
  · simp only [Shift.covers, Bool.and_eq_true, decide_eq_true_eq] at hcovers
    obtain ⟨hsource, htarget⟩ := h.shifts s hs
    rw [himages]
    refine .inr ⟨?_, by simp, fun image himage => ?_⟩
    · unfold IsMark
      omega
    · rw [List.mem_singleton.1 himage]
      unfold IsMark
      rcases toNat_ofNat_cases (c.toNat + s.distance).toNat with heq | heq <;> omega
  · obtain ⟨hsource, hne, htarget⟩ := h.sequences _ hpair
    rw [himages]
    refine .inr ⟨?_, by simpa using hne, fun image himage => ?_⟩
    · unfold IsMark
      omega
    · obtain ⟨point, hpoint, rfl⟩ := List.mem_map.1 himage
      have := htarget point hpoint
      unfold IsMark
      rcases toNat_ofNat_cases point with heq | heq <;> omega
  · exact .inl himages

/-- The image is the text with other letters: letters stand for letters, and dots and slashes for
themselves. -/
inductive Recased : List Char → List Char → Prop
  | nil : Recased [] []
  | same (c : Char) {text image : List Char} (h : Recased text image) :
      Recased (c :: text) (c :: image)
  | letter {c : Char} {letters text image : List Char} (hc : ¬ IsMark c) (hne : letters ≠ [])
      (hletters : ∀ letter ∈ letters, ¬ IsMark letter) (h : Recased text image) :
      Recased (c :: text) (letters ++ image)

section Recased

variable {text image : List Char}

theorem Recased.mapCase {shifts : List Shift} {sequences : List (Nat × List Nat)}
    (hkeeps : KeepsMarks shifts sequences) (c : Char) (h : Recased text image) :
    Recased (c :: text) (mapCase shifts sequences c ++ image) := by
  rcases mapCase_cases hkeeps c with heq | ⟨hc, hne, hletters⟩
  · rw [heq]
    exact .same c h
  · exact .letter hc hne hletters h

/-- A class name is the name of the table with other letters. -/
theorem recased_className (table : String) : Recased table.toList (className table).toList := by
  have hlower : ∀ rest : List Char, Recased rest (rest.flatMap lower) := by
    intro rest
    induction rest with
    | nil => exact .nil
    | cons c rest ih =>
      rw [List.flatMap_cons]
      exact ih.mapCase keepsMarks_lower c
  unfold className
  cases table.toList with
  | nil => exact .nil
  | cons first rest =>
    dsimp only
    rw [String.toList_ofList]
    exact (hlower rest).mapCase keepsMarks_upper first

theorem isMark_slash : IsMark '/' := by
  decide

theorem isMark_dot : IsMark '.' := by
  decide

/-- Dots and slashes are the same ones. -/
theorem Recased.mem_iff (h : Recased text image) {c : Char} (hc : IsMark c) :
    c ∈ image ↔ c ∈ text := by
  induction h with
  | nil => exact Iff.rfl
  | same other _ ih => rw [List.mem_cons, List.mem_cons, ih]
  | letter hother _ hletters _ ih =>
    rw [List.mem_append, List.mem_cons, ih, or_iff_right fun hmem => hletters c hmem hc,
      or_iff_right]
    rintro rfl
    exact hother hc

/-- A class name begins with no small letter. -/
theorem not_isSmall_of_head?_className {table : String} {c : Char}
    (h : (className table).toList.head? = some c) : ¬ IsSmall c.toNat := by
  unfold className at h
  cases htable : table.toList with
  | nil =>
    rw [htable] at h
    exact absurd h (by simp)
  | cons first rest =>
    rw [htable] at h
    dsimp only at h
    rw [String.toList_ofList, List.head?_append] at h
    have hne : upper first ≠ [] := by
      rcases mapCase_cases keepsMarks_upper first with heq | ⟨-, hne, -⟩
      · show mapCase upperShifts upperSequences first ≠ []
        rw [heq]
        simp
      · exact hne
    obtain ⟨capital, rest, hcapital⟩ := List.exists_cons_of_ne_nil hne
    rw [hcapital] at h
    obtain rfl : capital = c := by simpa using h
    exact not_isSmall_of_mem_upper (c := first) (by rw [hcapital]; exact List.mem_cons_self)

end Recased

/-! ## The paths, name by name -/

section Paths

variable {table : Table} {tables : List Table} {relations : List Relation}

/-- The path is relative, and none of its names is `.` or `..`. -/
def IsPlainPath (path : String) : Prop :=
  isAbsolute path = false ∧ ∀ name ∈ namesOf path, name ≠ "." ∧ name ≠ ".."

theorem ne_dots_of_suffix (name suffix : String) (h : 2 < suffix.toList.length) :
    name ++ suffix ≠ "." ∧ name ++ suffix ≠ ".." := by
  have hlength : 2 < (name ++ suffix).toList.length := by
    rw [String.toList_append, List.length_append]
    omega
  constructor <;> intro heq <;> rw [heq] at hlength <;> exact absurd hlength (by decide)

theorem namesOf_path_of_no_slash {name : String} (h : '/' ∉ name.toList) :
    '/' ∉ (ClassFile.path name).toList ∧ namesOf (ClassFile.path name) = [ClassFile.path name] := by
  have hslash : '/' ∉ (ClassFile.path name).toList := by
    unfold ClassFile.path
    rw [String.toList_append, List.mem_append, (recased_className name).mem_iff isMark_slash]
    exact fun hmem => hmem.elim h (by decide)
  refine ⟨hslash, Storage.namesOf_of_no_slash hslash fun hempty => ?_⟩
  exact absurd (String.append_eq_empty_iff.1 hempty).2 (by decide)

theorem namesOf_routerPath_of_no_slash {name : String} (h : '/' ∉ name.toList) :
    isAbsolute (routerPath name) = false ∧
      namesOf (routerPath name) = ["routers", name ++ "_router.ts"] := by
  have hslash : '/' ∉ (name ++ "_router.ts").toList := by
    rw [String.toList_append, List.mem_append]
    exact fun hmem => hmem.elim h (by decide)
  have hrelative := Storage.isAbsolute_of_no_slash hslash
  have hne : name ++ "_router.ts" ≠ "" := fun hempty =>
    absurd (String.append_eq_empty_iff.1 hempty).2 (by decide)
  have hrouters : namesOf "routers" = ["routers"] := by
    decide +kernel
  unfold routerPath
  rw [Storage.isAbsolute_joinPath hrelative, Storage.namesOf_joinPath hrelative, hrouters,
    Storage.namesOf_of_no_slash hslash hne]
  exact ⟨by decide, rfl⟩

theorem ClassOf.columns_ne_nil {catalog : EnumCatalog} {parent : Option Table} {file : ClassFile}
    (h : ClassOf catalog tables table parent file) : table.columns ≠ [] := by
  cases h with
  | plain ht hc => exact hc
  | extending hc hp hcolumns hown =>
    intro hnil
    unfold ownColumns at hown
    rw [hnil] at hown
    exact hown rfl

/-- A class file stands at the path of a table with columns. -/
theorem exists_table_of_classFile {catalog : EnumCatalog} {entry : String × ClassFile}
    (h : entry ∈ classFiles catalog tables relations) :
    ∃ table ∈ tables, table.columns ≠ [] ∧ entry.1 = ClassFile.path table.name := by
  obtain ⟨hpath, table, parent, hclass⟩ := putInPlace_of_mem h
  obtain ⟨ht, -, own, hfile, -⟩ := hclass.exists_own
  refine ⟨table, ht, hclass.columns_ne_nil, ?_⟩
  rw [hpath, hfile]
  rfl

/-- Every generated file is one of four kinds. -/
theorem mem_bundle {withMetadata : Bool} {output : OutputFile}
    (h : output ∈ bundle tables relations withMetadata) :
    output.path = "enums.ts" ∨
      (∃ table ∈ tables, table.columns ≠ [] ∧ output.path = ClassFile.path table.name) ∨
      (∃ table ∈ tables, output.path = routerPath table.name) ∨ output.path = "metadata.json" := by
  unfold bundle codeOutputs classOutputs at h
  rcases List.mem_append.1 h with h | h
  · rcases List.mem_append.1 h with h | h
    · rcases List.mem_cons.1 h with rfl | h
      · exact .inl rfl
      · obtain ⟨entry, hentry, rfl⟩ := List.mem_map.1 h
        exact .inr (.inl (exists_table_of_classFile hentry))
    · obtain ⟨table, ht, rfl⟩ := List.mem_map.1 h
      exact .inr (.inr (.inl ⟨table, ht, rfl⟩))
  · cases withMetadata with
    | false => exact absurd h (by simp)
    | true =>
      rw [List.mem_singleton.1 h]
      exact .inr (.inr (.inr rfl))

/-- Without slashes in the names of tables, every path is plain. -/
theorem isPlainPath_of_mem (hslash : ∀ table ∈ tables, '/' ∉ table.name.toList)
    {withMetadata : Bool} {output : OutputFile}
    (h : output ∈ bundle tables relations withMetadata) : IsPlainPath output.path := by
  unfold IsPlainPath
  rcases mem_bundle h with hpath | ⟨table, ht, -, hpath⟩ | ⟨table, ht, hpath⟩ | hpath
  · rw [hpath]
    decide +kernel
  · obtain ⟨hclass, hnames⟩ := namesOf_path_of_no_slash (hslash table ht)
    rw [hpath, hnames]
    exact ⟨Storage.isAbsolute_of_no_slash hclass,
      List.forall_mem_singleton.2 (ne_dots_of_suffix _ _ (by decide))⟩
  · obtain ⟨hrelative, hnames⟩ := namesOf_routerPath_of_no_slash (hslash table ht)
    rw [hpath, hnames]
    exact ⟨hrelative, List.forall_mem_cons.2 ⟨by decide,
      List.forall_mem_singleton.2 (ne_dots_of_suffix _ _ (by decide))⟩⟩
  · rw [hpath]
    decide +kernel

/-- The class files do not meet the files of the enums and of the metadata. -/
theorem path_ne (name : String) :
    ClassFile.path name ≠ "enums.ts" ∧ ClassFile.path name ≠ "metadata.json" := by
  constructor
  · intro heq
    have hclass : className name = "enums" := (String.append_left_inj ".ts").1 heq
    have hhead : (className name).toList.head? = some 'e' := by
      rw [hclass]
      decide
    exact not_isSmall_of_head?_className hhead (by decide)
  · intro heq
    have hlast : (ClassFile.path name).toList.getLast? = some 's' := by
      unfold ClassFile.path
      rw [String.toList_append, List.getLast?_append]
      rfl
    rw [heq] at hlast
    exact absurd hlast (by decide)

/-- Without slashes in the names of tables, the names of all paths are these. -/
theorem map_namesOf_bundle (relations : List Relation)
    (hslash : ∀ table ∈ tables, '/' ∉ table.name.toList) :
    (bundle tables relations true).map (fun output => namesOf output.path) =
      ["enums.ts"] ::
          ((classFiles (.ofTables tables) tables relations).map fun entry => [entry.1]) ++
        (tables.map fun table => ["routers", table.name ++ "_router.ts"]) ++
        [["metadata.json"]] := by
  have henums : namesOf "enums.ts" = ["enums.ts"] := by
    decide +kernel
  have hmetadata : namesOf "metadata.json" = ["metadata.json"] := by
    decide +kernel
  have hclasses : ∀ entry ∈ classFiles (.ofTables tables) tables relations,
      namesOf entry.1 = [entry.1] := by
    intro entry hentry
    obtain ⟨table, ht, -, hpath⟩ := exists_table_of_classFile hentry
    rw [hpath]
    exact (namesOf_path_of_no_slash (hslash table ht)).2
  have hrouters : ∀ table ∈ tables,
      namesOf (routerPath table.name) = ["routers", table.name ++ "_router.ts"] :=
    fun table ht => (namesOf_routerPath_of_no_slash (hslash table ht)).2
  unfold bundle codeOutputs classOutputs
  rw [if_pos rfl, List.map_append, List.map_append, List.map_cons, List.map_map, List.map_map,
    List.map_singleton]
  refine congrArg₂ (· ++ ·) (congrArg₂ (· ++ ·) (congrArg₂ List.cons henums ?_) ?_)
    (congrArg (fun names => [names]) hmetadata)
  · exact List.map_congr_left hclasses
  · exact List.map_congr_left hrouters

/-- Their names tell the generated files apart. -/
theorem nodup_namesOf_bundle (relations : List Relation)
    (hnames : (tables.map (·.name)).Nodup)
    (hslash : ∀ table ∈ tables, '/' ∉ table.name.toList) :
    ((bundle tables relations true).map fun output => namesOf output.path).Nodup := by
  rw [map_namesOf_bundle relations hslash]
  have hclasses : ((classFiles (.ofTables tables) tables relations).map fun entry =>
      [entry.1]).Nodup := by
    have hpaths := nodup_paths_classFiles (.ofTables tables) tables relations
    have hmap := hpaths.map List.singleton_injective
    rwa [List.map_map] at hmap
  have hrouters : (tables.map fun table => ["routers", table.name ++ "_router.ts"]).Nodup := by
    have hinjective : Function.Injective fun name => ["routers", name ++ "_router.ts"] :=
      fun one other heq =>
        (String.append_left_inj "_router.ts").1 (List.cons.inj (List.cons.inj heq).2).1
    have hmap := hnames.map hinjective
    rwa [List.map_map] at hmap
  have hpath : ∀ entry ∈ classFiles (.ofTables tables) tables relations,
      entry.1 ≠ "enums.ts" ∧ entry.1 ≠ "metadata.json" := by
    intro entry hentry
    obtain ⟨table, -, -, hpath⟩ := exists_table_of_classFile hentry
    rw [hpath]
    exact path_ne table.name
  refine List.nodup_append.2 ⟨List.nodup_append.2 ⟨List.nodup_cons.2 ⟨fun hmem => ?_, hclasses⟩,
    hrouters, fun one hone other hother => ?_⟩, List.nodup_singleton _,
    fun one hone other hother => ?_⟩
  · obtain ⟨entry, hentry, heq⟩ := List.mem_map.1 hmem
    exact (hpath entry hentry).1 (List.singleton_injective heq)
  · -- A router lies in a directory, and the others do not.
    obtain ⟨table, -, rfl⟩ := List.mem_map.1 hother
    rcases List.mem_cons.1 hone with rfl | hone
    · simp
    · obtain ⟨entry, -, rfl⟩ := List.mem_map.1 hone
      simp
  · rw [List.mem_singleton.1 hother]
    rcases List.mem_append.1 hone with hone | hone
    · rcases List.mem_cons.1 hone with rfl | hone
      · decide
      · obtain ⟨entry, hentry, rfl⟩ := List.mem_map.1 hone
        exact fun heq => (hpath entry hentry).2 (List.singleton_injective heq)
    · obtain ⟨table, -, rfl⟩ := List.mem_map.1 hone
      simp

/-- If the names of the tables differ and have no slashes, then the paths of the generated files
differ, and seen from any directory they denote different places. -/
theorem nodup_paths_bundle (relations : List Relation) (withMetadata : Bool)
    (hnames : (tables.map (·.name)).Nodup)
    (hslash : ∀ table ∈ tables, '/' ∉ table.name.toList) :
    ((bundle tables relations withMetadata).map (·.path)).Nodup ∧
      ∀ working directory, ((bundle tables relations withMetadata).map fun output =>
        placeOf working (joinPath directory output.path)).Nodup := by
  have hsublist :
      (bundle tables relations withMetadata).Sublist (bundle tables relations true) := by
    unfold bundle
    refine (List.append_sublist_append_left _).2 ?_
    cases withMetadata <;> simp
  have hplain : ∀ output ∈ bundle tables relations withMetadata, IsPlainPath output.path :=
    fun output hmem => isPlainPath_of_mem hslash hmem
  have hdiffer : ((bundle tables relations withMetadata).map fun output =>
      namesOf output.path).Nodup :=
    (nodup_namesOf_bundle relations hnames hslash).sublist (hsublist.map _)
  refine ⟨?_, fun working directory => ?_⟩
  · refine List.Nodup.of_map namesOf ?_
    rwa [List.map_map]
  · have hplaces : (bundle tables relations withMetadata).map (fun output =>
        placeOf working (joinPath directory output.path)) =
        ((bundle tables relations withMetadata).map fun output => namesOf output.path).map
          (placeOf working directory ++ ·) := by
      rw [List.map_map]
      refine List.map_congr_left fun output hmem => ?_
      obtain ⟨hrelative, hproper⟩ := hplain output hmem
      rw [Storage.placeOf_joinPath hrelative, Storage.foldl_follow_of_proper hproper]
      rfl
    rw [hplaces]
    exact hdiffer.map (List.append_right_injective _)

/-- Names that differ in letter case only, none at all, and one whose capital is two letters. -/
theorem nodup_paths_bundle_hard_names :
    let tables : List Table := ["enums", "Enums", "ENUMS", "", "ß", "SS", "..", "metadata.json"].map
      fun name => ⟨name, [⟨"x", .int, none, none, none, false, none⟩], none⟩
    let outputs := bundle tables [⟨"enums", "ß"⟩, ⟨"SS", ""⟩] true
    (tables.map (·.name)).Nodup ∧ (∀ table ∈ tables, '/' ∉ table.name.toList) ∧
      (outputs.map (·.path)).Nodup ∧
      (outputs.map fun output => placeOf ["home"] (joinPath "out" output.path)).Nodup := by
  intro tables outputs
  have hnames : (tables.map (·.name)).Nodup := by
    decide +kernel
  have hslash : ∀ table ∈ tables, '/' ∉ table.name.toList := by
    decide +kernel
  obtain ⟨hpaths, hplaces⟩ :=
    nodup_paths_bundle [⟨"enums", "ß"⟩, ⟨"SS", ""⟩] true hnames hslash
  exact ⟨hnames, hslash, hpaths, hplaces ["home"] "out"⟩

end Paths

end TableScribe.Code
