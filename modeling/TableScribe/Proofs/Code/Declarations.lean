import TableScribe.Code.ClassFile
import TableScribe.Proofs.Code.Literals
import TableScribe.Proofs.Text.Separators

/-!
# The texts of enums and classes

The declaration of an enum and the file of a class as texts over the names and values in them, from
the first character to the last.

1. `enumText`: the declaration of an enum with the given members. No two lists of members have the
   same text, provided that no member has a space in its name (`enumText_inj`).
2. `ClassFile.render_eq`: the text of a class file. It begins with `openingText`, the imports and
   the first line of the declaration, and ends with `describingText`, the method that describes the
   columns.
-/

namespace TableScribe.Code

/-! ## Enums -/

/-- The line of a member with the value that it stands for. -/
def memberText (member : String × String) : String :=
  "    " ++ member.1 ++ " = " ++ doubleQuoted member.2 ++ ",\n"

/-- The declaration of the enum of that name with these members, each with its value. -/
def enumText (name : String) (members : List (String × String)) : String :=
  "export enum " ++ name ++ " \x7b\n" ++ Text.join "" (members.map memberText) ++ "\x7d"

theorem EnumDefinition.render_eq (definition : EnumDefinition) :
    definition.render =
      enumText definition.name (definition.values.map fun value => (enumMember value, value)) := by
  unfold enumText
  rw [List.map_map]
  rfl

theorem space_not_mem_enumMember (value : String) : ' ' ∉ (enumMember value).toList := by
  unfold enumMember
  rw [String.toList_ofList, List.mem_map]
  rintro ⟨c, -, hc⟩
  split at hc
  · exact absurd hc (by decide)
  · rename_i hne
    exact hne hc

/-- A line determines the member and where it ends. -/
theorem memberText_append_inj {one other : String × String} {back rest : List Char}
    (hone : ' ' ∉ one.1.toList) (hother : ' ' ∉ other.1.toList)
    (h : (memberText one).toList ++ back = (memberText other).toList ++ rest) :
    one = other ∧ back = rest := by
  have htext : ∀ (member : String × String) (back : List Char),
      (memberText member).toList ++ back = "    ".toList ++ (member.1.toList ++ ([' '] ++
        ("= ".toList ++ ((literal '"' member.2).toList ++ (",\n".toList ++ back))))) := by
    simp [memberText, doubleQuoted]
  rw [htext, htext] at h
  obtain ⟨hname, hvalue⟩ := (Text.isFirst_of_not_mem hone _).unique
    (Text.isFirst_of_not_mem hother _) (List.append_cancel_left h)
  obtain ⟨hliteral, hend⟩ := literal_append_inj (by decide) (List.append_cancel_left hvalue)
  exact ⟨Prod.ext (String.toList_inj.1 hname) hliteral, List.append_cancel_left hend⟩

/-- The lines up to the brace that closes the enum determine its members. -/
theorem memberTexts_inj {members others : List (String × String)}
    (hmembers : ∀ member ∈ members, ' ' ∉ member.1.toList)
    (hothers : ∀ member ∈ others, ' ' ∉ member.1.toList)
    (h : (Text.join "" (members.map memberText)).toList ++ ['\x7d'] =
      (Text.join "" (others.map memberText)).toList ++ ['\x7d']) : members = others := by
  have hcons : ∀ (member : String × String) (more : List (String × String)),
      (Text.join "" ((member :: more).map memberText)).toList ++ ['\x7d'] =
        (memberText member).toList ++ ((Text.join "" (more.map memberText)).toList ++ ['\x7d']) := by
    intro member more
    rw [List.map_cons, Text.join_empty_cons, String.toList_append, List.append_assoc]
  -- A line of a member begins with a space, and so it is not the brace.
  have hopen : ∀ (member : String × String) (rest : List Char),
      (memberText member).toList ++ rest ≠ ['\x7d'] := by
    simp [memberText]
  induction members generalizing others with
  | nil =>
    cases others with
    | nil => rfl
    | cons other rest =>
      rw [hcons] at h
      exact absurd h.symm (hopen _ _)
  | cons member more ih =>
    cases others with
    | nil =>
      rw [hcons] at h
      exact absurd h (hopen _ _)
    | cons other rest =>
      rw [List.forall_mem_cons] at hmembers hothers
      rw [hcons, hcons] at h
      obtain ⟨rfl, hback⟩ := memberText_append_inj hmembers.1 hothers.1 h
      rw [ih hmembers.2 hothers.2 hback]

theorem enumText_inj {name : String} {members others : List (String × String)}
    (hmembers : ∀ member ∈ members, ' ' ∉ member.1.toList)
    (hothers : ∀ member ∈ others, ' ' ∉ member.1.toList)
    (h : enumText name members = enumText name others) : members = others := by
  have hlines : Text.join "" (members.map memberText) ++ "\x7d" =
      Text.join "" (others.map memberText) ++ "\x7d" := by
    refine (String.append_right_inj ("export enum " ++ name ++ " \x7b\n")).1 ?_
    rw [← String.append_assoc, ← String.append_assoc]
    exact h
  rw [← String.toList_inj, String.toList_append, String.toList_append] at hlines
  exact memberTexts_inj hmembers hothers hlines

/-- The members of an enum, with their values, are what its text says and nothing else. -/
theorem EnumDefinition.render_eq_enumText_iff (definition : EnumDefinition)
    {members : List (String × String)} (h : ∀ member ∈ members, ' ' ∉ member.1.toList) :
    definition.render = enumText definition.name members ↔
      members = definition.values.map fun value => (enumMember value, value) := by
  rw [definition.render_eq]
  constructor
  · refine fun htext => (enumText_inj ?_ h htext).symm
    exact List.forall_mem_map.2 fun value _ => space_not_mem_enumMember value
  · rintro rfl
    rfl

/-! ## Classes -/

/-- How a class file begins: the import of the enums, that of the class it extends, the comment of
the table and the first line of the declaration. -/
def openingText (name : String) (imports : List String) (parent comment : Option String) : String :=
  (if imports = [] then ""
    else "import \x7b\n" ++ Text.join "" (imports.map fun enum => "  " ++ enum ++ ",\n") ++
      "\x7d from \"./enums\";\n") ++
    (parent.map fun p => "import \x7b " ++ p ++ " \x7d from \x27./" ++ p ++ "\x27;\n").getD "" ++
    (comment.map fun c => "/** " ++ c ++ " */\n").getD "" ++
    ("export class " ++ name ++ (parent.map (" extends " ++ ·)).getD "" ++ " \x7b\n")

/-- The method that describes the columns, each on a line of its own. -/
def describingText (name : String) (lines : List String) : String :=
  "  static getMetadata(): object \x7b\n    return \x7b\n      \x27class_name\x27: " ++
    singleQuoted name ++ ",\n      \x27fields\x27: [\n" ++ Text.join "\n" lines ++
    "\n      ]\x7d;\n  \x7d\n"

namespace ClassFile

variable (file : ClassFile)

/-- Every part of a file but the brace at the end has a line end of its own. -/
theorem render_eq_join :
    file.render =
      Text.join "" (file.enumImport.map (· ++ "\n")) ++
      Text.join "" (file.parentImport.map (· ++ "\n")) ++
      Text.join "" (file.commentLine.map (· ++ "\n")) ++ (file.headLine ++ "\n") ++
      Text.join "" ((file.properties.map propertyLine).map (· ++ "\n")) ++
      (file.constructorText ++ "\n") ++ (file.metadataText ++ "\n") ++ "\x7d" := by
  have hparts : file.parts = (file.enumImport ++ file.parentImport ++ file.commentLine ++
      [file.headLine] ++ file.properties.map propertyLine ++ [file.constructorText] ++
      [file.metadataText]) ++ ["\x7d"] := by
    simp [parts]
  unfold render
  rw [hparts, Text.join_concat]
  simp only [List.map_append, Text.join_empty_append, List.map_cons, List.map_nil,
    Text.join_singleton]

theorem join_enumImport :
    Text.join "" (file.enumImport.map (· ++ "\n")) =
      if file.imports = [] then ""
      else "import \x7b\n" ++ Text.join "" (file.imports.map fun enum => "  " ++ enum ++ ",\n") ++
        "\x7d from \"./enums\";\n" := by
  have hend : "\x7d from \"./enums\";" ++ "\n" = "\x7d from \"./enums\";\n" := by
    decide
  unfold enumImport
  split
  · rfl
  · rw [List.map_singleton, Text.join_singleton, String.append_assoc, hend]

theorem join_parentImport :
    Text.join "" (file.parentImport.map (· ++ "\n")) =
      (file.parent.map fun p =>
        "import \x7b " ++ p ++ " \x7d from \x27./" ++ p ++ "\x27;\n").getD "" := by
  have hend : "\x27;" ++ "\n" = "\x27;\n" := by
    decide
  unfold parentImport
  cases file.parent with
  | none => rfl
  | some p => exact String.append_assoc.trans (congrArg _ hend)

theorem join_commentLine :
    Text.join "" (file.commentLine.map (· ++ "\n")) =
      (file.comment.map fun c => "/** " ++ c ++ " */\n").getD "" := by
  have hend : " */" ++ "\n" = " */\n" := by
    decide
  unfold commentLine
  cases file.comment with
  | none => rfl
  | some c => exact String.append_assoc.trans (congrArg _ hend)

theorem headLine_append :
    file.headLine ++ "\n" =
      "export class " ++ file.name ++ (file.parent.map (" extends " ++ ·)).getD "" ++ " \x7b\n" := by
  have hend : " \x7b" ++ "\n" = " \x7b\n" := by
    decide
  unfold headLine
  cases file.parent with
  | none =>
    dsimp only [Option.map_none, Option.getD_none]
    rw [String.append_empty, String.append_assoc, hend]
  | some p =>
    dsimp only [Option.map_some, Option.getD_some]
    rw [← hend]
    simp only [String.append_assoc]

theorem propertyLine_eq (property : Property) :
    propertyLine property = "  " ++ property.name ++ ": " ++ property.type ++ ";" ++
      (property.comment.map ("  // " ++ ·)).getD "" := by
  unfold propertyLine
  cases property.comment with
  | none => exact String.append_empty.symm
  | some comment => exact String.append_assoc

theorem constructorText_append :
    file.constructorText ++ "\n" =
      "  constructor(" ++
        Text.join ", " (file.parameters.map fun parameter =>
          parameter.name ++ ": " ++ parameter.type) ++ ") \x7b\n" ++
        (if file.handedOn = [] then ""
          else "    super(" ++ Text.join ", " file.handedOn ++ ");\n") ++
        Text.join "" (file.properties.map fun property =>
          "    this." ++ property.name ++ " = " ++ property.name ++ ";\n") ++ "  \x7d\n" := by
  have hend : "  \x7d" ++ "\n" = "  \x7d\n" := by
    decide
  unfold constructorText
  rw [String.append_assoc, hend]
  rfl

theorem metadataText_append :
    file.metadataText ++ "\n" = describingText file.name (file.entries.map entryLine) := by
  have hend : "\n      ]\x7d;\n  \x7d" ++ "\n" = "\n      ]\x7d;\n  \x7d\n" := by
    decide
  unfold metadataText
  rw [String.append_assoc, hend]
  rfl

/-- The text of a class file, part by part: what it imports and extends, the lines of the
properties, the constructor, and the method that describes the columns. -/
theorem render_eq :
    file.render =
      openingText file.name file.imports file.parent file.comment ++
      Text.join "" (file.properties.map fun property =>
        "  " ++ property.name ++ ": " ++ property.type ++ ";" ++
          (property.comment.map ("  // " ++ ·)).getD "" ++ "\n") ++
      ("  constructor(" ++
        Text.join ", " (file.parameters.map fun parameter =>
          parameter.name ++ ": " ++ parameter.type) ++ ") \x7b\n" ++
        (if file.handedOn = [] then ""
          else "    super(" ++ Text.join ", " file.handedOn ++ ");\n") ++
        Text.join "" (file.properties.map fun property =>
          "    this." ++ property.name ++ " = " ++ property.name ++ ";\n") ++ "  \x7d\n") ++
      describingText file.name (file.entries.map fun entry =>
        "        \x7b \x27name\x27: " ++ singleQuoted entry.name ++
          ", \x27type\x27: " ++ singleQuoted entry.type ++
          ", \x27default\x27: " ++ entry.defaultExpression ++
          ", \x27comment\x27: " ++ singleQuoted entry.comment ++
          (if entry.autoIncrement then ", \x27auto_increase\x27: \x27AUTO_INCREMENT\x27"
            else "") ++ " \x7d,") ++ "\x7d" := by
  have hproperties : (file.properties.map propertyLine).map (· ++ "\n") =
      file.properties.map fun property => "  " ++ property.name ++ ": " ++ property.type ++ ";" ++
        (property.comment.map ("  // " ++ ·)).getD "" ++ "\n" := by
    rw [List.map_map]
    exact List.map_congr_left fun property _ => congrArg (· ++ "\n") (propertyLine_eq property)
  rw [render_eq_join, join_enumImport, join_parentImport, join_commentLine, headLine_append,
    hproperties, constructorText_append, metadataText_append]
  rfl

end ClassFile

end TableScribe.Code
