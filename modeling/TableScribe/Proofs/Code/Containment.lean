import TableScribe.Proofs.Code.Paths

/-!
# Which generated files stay below their directory

The name of a table is part of two paths, and may itself look like a path. What matters are its
directories, and these are the same in the class name (`remains_className`). The class file is put
directly below the directory for all files, the router in a directory of its own; so the router
stays below if the class file does (`remains_mono`).

`staysBelow_bundle_iff` puts this together: which tables make all files stay below.
-/

namespace TableScribe.Code

open Storage (StaysBelow directoriesOf isAbsolute joinPath name_cases namesOf remains remains_dot
  remains_mono remains_of_proper remains_up_succ remains_up_zero)

/-! ## Directories and letter case -/

section Recased

variable {text image : List Char}

/-- A character that is no slash belongs to the first piece. -/
theorem splitOn_cons_of_ne {c : Char} {piece : List Char} {pieces : List (List Char)}
    (hc : c ≠ '/') (hsplit : text.splitOn '/' = piece :: pieces) :
    (c :: text).splitOn '/' = (c :: piece) :: pieces := by
  rw [List.splitOn_cons_eq_if_modifyHead, hsplit, if_neg (by simp [hc])]
  rfl

theorem splitOn_append_of_no_slash {front piece : List Char} {pieces : List (List Char)}
    (hfront : '/' ∉ front) (hsplit : text.splitOn '/' = piece :: pieces) :
    (front ++ text).splitOn '/' = (front ++ piece) :: pieces := by
  induction front with
  | nil => exact hsplit
  | cons c front ih =>
    rw [List.mem_cons, not_or] at hfront
    exact splitOn_cons_of_ne (Ne.symm hfront.1) (ih hfront.2)

/-- Texts in different letters have the same pieces between slashes, in different letters. -/
theorem Recased.splitOn (h : Recased text image) :
    List.Forall₂ Recased (text.splitOn '/') (image.splitOn '/') := by
  induction h with
  | nil => exact .cons .nil .nil
  | @same c text image _ ih =>
    by_cases hc : c = '/'
    · rw [List.splitOn_cons_eq_if_modifyHead, List.splitOn_cons_eq_if_modifyHead,
        if_pos (beq_iff_eq.2 hc), if_pos (beq_iff_eq.2 hc)]
      exact .cons .nil ih
    · obtain ⟨piece, pieces, hpieces⟩ :=
        List.exists_cons_of_ne_nil (List.splitOn_ne_nil '/' text)
      obtain ⟨other, others, hothers⟩ :=
        List.exists_cons_of_ne_nil (List.splitOn_ne_nil '/' image)
      rw [splitOn_cons_of_ne hc hpieces, splitOn_cons_of_ne hc hothers]
      rw [hpieces, hothers] at ih
      cases ih with
      | cons hpiece hrest => exact .cons (.same c hpiece) hrest
  | @letter c letters text image hc hne hletters _ ih =>
    obtain ⟨piece, pieces, hpieces⟩ :=
      List.exists_cons_of_ne_nil (List.splitOn_ne_nil '/' text)
    obtain ⟨other, others, hothers⟩ :=
      List.exists_cons_of_ne_nil (List.splitOn_ne_nil '/' image)
    have hslash : c ≠ '/' := by
      rintro rfl
      exact hc isMark_slash
    have hslashes : '/' ∉ letters := fun hmem => hletters _ hmem isMark_slash
    rw [splitOn_cons_of_ne hslash hpieces, splitOn_append_of_no_slash hslashes hothers]
    rw [hpieces, hothers] at ih
    cases ih with
    | cons hpiece hrest => exact .cons (.letter hc hne hletters hpiece) hrest

/-- A text of dots and slashes is the same in any letters. -/
theorem Recased.eq_of_marks (h : Recased text image)
    (hmarks : (∀ c ∈ text, IsMark c) ∨ ∀ c ∈ image, IsMark c) : image = text := by
  induction h with
  | nil => rfl
  | same c _ ih =>
    rw [ih (hmarks.imp (fun hall => (List.forall_mem_cons.1 hall).2)
      fun hall => (List.forall_mem_cons.1 hall).2)]
  | letter hc hne hletters _ _ =>
    rcases hmarks with hall | hall
    · exact absurd (hall _ List.mem_cons_self) hc
    · obtain ⟨letter, rest, rfl⟩ := List.exists_cons_of_ne_nil hne
      exact absurd (hall letter List.mem_cons_self) (hletters letter List.mem_cons_self)

theorem Recased.eq_iff (h : Recased text image) {marks : List Char}
    (hmarks : ∀ c ∈ marks, IsMark c) : image = marks ↔ text = marks := by
  constructor
  · rintro rfl
    exact (h.eq_of_marks (.inr hmarks)).symm
  · rintro rfl
    exact h.eq_of_marks (.inl hmarks)

theorem Recased.ofList_eq_iff (h : Recased text image) {marks : String}
    (hmarks : ∀ c ∈ marks.toList, IsMark c) :
    String.ofList image = marks ↔ String.ofList text = marks := by
  rw [← String.toList_inj, ← String.toList_inj, String.toList_ofList, String.toList_ofList]
  exact h.eq_iff hmarks

theorem isMark_of_mem_dot : ∀ c ∈ ".".toList, IsMark c := by
  simpa using isMark_dot

theorem isMark_of_mem_dots : ∀ c ∈ "..".toList, IsMark c := by
  simpa using isMark_dot

/-- Whether names remain does not depend on their letters. -/
theorem remains_of_recased {pieces images : List (List Char)}
    (h : List.Forall₂ Recased pieces images) (depth : Nat) :
    remains depth ((images.filter (· ≠ [])).map String.ofList) =
      remains depth ((pieces.filter (· ≠ [])).map String.ofList) := by
  induction h generalizing depth with
  | nil => rfl
  | @cons piece image pieces images hpiece _ ih =>
    by_cases hempty : piece = []
    · have himage : image = [] := (hpiece.eq_iff (by simp)).2 hempty
      rw [hempty, himage]
      exact ih depth
    · have himage : image ≠ [] := fun heq => hempty ((hpiece.eq_iff (by simp)).1 heq)
      rw [List.filter_cons_of_pos (by simpa using himage),
        List.filter_cons_of_pos (by simpa using hempty), List.map_cons, List.map_cons]
      have hdot := hpiece.ofList_eq_iff isMark_of_mem_dot
      have hdots := hpiece.ofList_eq_iff isMark_of_mem_dots
      rcases name_cases (String.ofList piece) with heq | heq | ⟨h1, h2⟩
      · rw [heq, hdot.2 heq, remains_dot, remains_dot]
        exact ih depth
      · rw [heq, hdots.2 heq]
        cases depth with
        | zero => rw [remains_up_zero, remains_up_zero]
        | succ depth =>
          rw [remains_up_succ, remains_up_succ]
          exact ih depth
      · rw [remains_of_proper h1 h2, remains_of_proper (mt hdot.1 h1) (mt hdots.1 h2)]
        exact ih (depth + 1)

/-- The directories in a class name are those of the table name, in other letters. -/
theorem remains_className (table : String) (depth : Nat) :
    remains depth (directoriesOf (className table)) = remains depth (directoriesOf table) := by
  unfold directoriesOf
  rw [List.dropLast_eq_take, List.dropLast_eq_take,
    ← (recased_className table).splitOn.length_eq]
  exact remains_of_recased (List.forall₂_take _ (recased_className table).splitOn) depth

theorem Recased.head?_eq_iff (h : Recased text image) {c : Char} (hc : IsMark c) :
    image.head? = some c ↔ text.head? = some c := by
  cases h with
  | nil => exact Iff.rfl
  | same other _ => exact Iff.rfl
  | letter hother hne hletters _ =>
    obtain ⟨letter, rest, rfl⟩ := List.exists_cons_of_ne_nil hne
    constructor <;> intro hhead <;> rw [← Option.some.inj hhead] at hc
    · exact absurd hc (hletters letter List.mem_cons_self)
    · exact absurd hc hother

theorem isAbsolute_className (table : String) :
    isAbsolute (className table) = isAbsolute table :=
  decide_eq_decide.2 ((recased_className table).head?_eq_iff isMark_slash)

end Recased

/-! ## The paths of a table -/

section Tables

/-- The class file of a table stays below if the name of the table does. -/
theorem staysBelow_classPath_iff (table : String) :
    StaysBelow (ClassFile.path table) ↔
      isAbsolute table = false ∧ remains 0 (directoriesOf table) = true := by
  obtain ⟨last, hnames⟩ :=
    Storage.namesOf_append_file (className table) ".ts" (by decide) (by decide)
  have hproper := ne_dots_of_suffix last ".ts" (by decide)
  unfold ClassFile.path
  rw [Storage.staysBelow_iff hnames hproper, remains_className,
    Storage.isAbsolute_append _ (by decide), isAbsolute_className]

/-- The router of a table stays below if the name of the table goes up at most once more than down,
since it is put into a directory of its own. -/
theorem staysBelow_routerPath_iff (table : String) :
    StaysBelow (routerPath table) ↔
      isAbsolute table = false ∧ remains 1 (directoriesOf table) = true := by
  obtain ⟨last, hnames⟩ :=
    Storage.namesOf_append_file table "_router.ts" (by decide) (by decide)
  have hproper := ne_dots_of_suffix last "_router.ts" (by decide)
  have habsolute : isAbsolute (table ++ "_router.ts") = isAbsolute table :=
    Storage.isAbsolute_append table (by decide)
  unfold routerPath
  cases hrelative : isAbsolute table with
  | true =>
    rw [Storage.joinPath_of_absolute (habsolute.trans hrelative)]
    constructor
    · rintro ⟨hfalse, -⟩
      rw [habsolute, hrelative] at hfalse
      exact absurd hfalse (by simp)
    · rintro ⟨hfalse, -⟩
      exact absurd hfalse (by simp)
  | false =>
    rw [hrelative] at habsolute
    have hrouters : namesOf "routers" = ["routers"] := by
      decide +kernel
    have hall : namesOf (joinPath "routers" (table ++ "_router.ts")) =
        ("routers" :: directoriesOf table) ++ [last ++ "_router.ts"] := by
      rw [Storage.namesOf_joinPath habsolute, hrouters, hnames]
      rfl
    rw [Storage.staysBelow_iff hall hproper, Storage.isAbsolute_joinPath habsolute]
    exact and_congr_left fun _ => ⟨fun _ => rfl, fun _ => by decide⟩

/-- The name of the table is relative and never goes up to above the directory of its first file:
the class file, or the router of a table without columns. -/
def FilesStayBelow (table : Table) : Prop :=
  isAbsolute table.name = false ∧
    remains (if table.columns = [] then 1 else 0) (directoriesOf table.name) = true

variable {tables : List Table} {relations : List Relation} {withMetadata : Bool}

theorem routerOutput_mem_bundle {table : Table} (ht : table ∈ tables) :
    routerOutput table ∈ bundle tables relations withMetadata := by
  unfold bundle codeOutputs
  exact List.mem_append_left _ (List.mem_append_right _ (List.mem_map_of_mem ht))

theorem classOutput_mem_bundle {path : String} {file : ClassFile}
    (h : (path, file) ∈ classFiles (.ofTables tables) tables relations) :
    ⟨path, file.render⟩ ∈ bundle tables relations withMetadata := by
  unfold bundle
  exact List.mem_append_left _ (mem_outputs_of_classFile h)

theorem staysBelow_file {name : String} (hnames : namesOf name = [name])
    (hproper : name ≠ "." ∧ name ≠ "..") (hrelative : isAbsolute name = false) :
    StaysBelow name :=
  (Storage.staysBelow_iff (List.nil_append [name] ▸ hnames) hproper).2 ⟨hrelative, rfl⟩

/-- All files stay below their directory exactly if those of every table do. -/
theorem staysBelow_bundle_iff :
    (∀ output ∈ bundle tables relations withMetadata, StaysBelow output.path) ↔
      ∀ table ∈ tables, FilesStayBelow table := by
  unfold FilesStayBelow
  constructor
  · intro h table ht
    by_cases hc : table.columns = []
    · rw [if_pos hc]
      have hrouter := h (routerOutput table) (routerOutput_mem_bundle ht)
      exact (staysBelow_routerPath_iff table.name).1 hrouter
    · rw [if_neg hc]
      obtain ⟨file, hfile, -⟩ := exists_file_of_table (.ofTables tables) relations ht hc
      have hclass := h ⟨_, file.render⟩ (classOutput_mem_bundle hfile)
      exact (staysBelow_classPath_iff table.name).1 hclass
  · intro h output hmem
    rcases mem_bundle hmem with hpath | ⟨table, ht, hc, hpath⟩ | ⟨table, ht, hpath⟩ | hpath
    · rw [hpath]
      exact staysBelow_file (by decide +kernel) (by decide) (by decide)
    · obtain ⟨hrelative, hremains⟩ := h table ht
      rw [if_neg hc] at hremains
      rw [hpath]
      exact (staysBelow_classPath_iff table.name).2 ⟨hrelative, hremains⟩
    · obtain ⟨hrelative, hremains⟩ := h table ht
      rw [hpath]
      refine (staysBelow_routerPath_iff table.name).2 ⟨hrelative, ?_⟩
      split at hremains
      · exact hremains
      · exact remains_mono hremains
    · rw [hpath]
      exact staysBelow_file (by decide +kernel) (by decide) (by decide)

end Tables

end TableScribe.Code
