import TableScribe.Proofs.Code.Containment
import TableScribe.Proofs.Run.Writing
import TableScribe.Proofs.Statement.Names

/-!
# What a run writes outside its directory

A run writes the files of the tables that it reads in a script. Their names decide whether a file
can end up outside the directory of the run (`outputs_stayBelow_iff`): it takes a name that is
absolute or goes up, and such a name only comes about between backquotes.

1. `quoted_of_not_filesStayBelow`: the script of a table with such a name has a backquote.
2. `Written.file_iff`: if all paths stay below the directory, a file elsewhere stays as it is.
-/

namespace TableScribe

open Code (FilesStayBelow)
open Storage

/-! ## The characters of a script -/

section Script

variable {c : Char} {text : List Char}

theorem mem_of_tidy (h : c ∈ tidy text) : c ∈ text := by
  obtain ⟨lead, tail, htext, -⟩ := exists_eq_tidy text
  rw [htext]
  simp [h]

theorem mem_of_pieces {piece : List Char} (hp : piece ∈ pieces text) (h : c ∈ piece) :
    c ∈ text := by
  obtain ⟨front, rest, hsplit, -⟩ := exists_of_mem_pieces hp
  rw [hsplit]
  simp [h]

/-- A statement has no characters but those of its script and the semicolon at its end. -/
theorem mem_of_splitStatements {script statement : String} (hs : statement ∈ splitStatements script)
    (h : c ∈ statement.toList) : c ∈ script.toList ∨ c = ';' := by
  obtain ⟨piece, hpiece, -, rfl⟩ := mem_splitStatements_iff.1 hs
  rw [String.toList_ofList] at h
  rcases List.mem_append.1 h with h | h
  · exact .inl (mem_of_pieces hpiece (mem_of_tidy h))
  · exact .inr (List.mem_singleton.1 h)

end Script

/-! ## Names that lead elsewhere -/

theorem filesStayBelow_of_no_slash {table : Table} (h : '/' ∉ table.name.toList) :
    FilesStayBelow table := by
  unfold FilesStayBelow directoriesOf
  rw [List.splitOn_eq_singleton h]
  exact ⟨isAbsolute_of_no_slash h, rfl⟩

/-- A table whose files may leave the directory comes from a script with a backquote. -/
theorem quoted_of_not_filesStayBelow {strictness : Strictness} {script : String} {table : Table}
    (ht : table ∈ tablesOf strictness script) (h : ¬ FilesStayBelow table) :
    '\x60' ∈ script.toList := by
  obtain ⟨statement, hs, hparse⟩ := List.mem_filterMap.1 ht
  rcases name_of_parseStatement (eq_ok_of_toOption hparse) with hword | ⟨front, back, hquoted⟩
  · refine absurd (filesStayBelow_of_no_slash fun hslash => ?_) h
    exact absurd (hword '/' hslash) (by decide +kernel)
  · have hmem : '\x60' ∈ statement.toList := by
      rw [← hquoted]
      simp
    exact (mem_of_splitStatements hs hmem).resolve_right (by decide)

/-! ## Files elsewhere -/

section Elsewhere

variable {before after : Tree} {directory : String} {outputs written : List Code.OutputFile}

/-- Where no path leads, files stay as they are. -/
theorem Written.file_iff (h : Written before directory written after)
    (hbelow : ∀ output ∈ written, StaysBelow output.path) {place : Place}
    (hplace : ¬ Below (placeOf before.workingPlace directory) place) {contents : ByteArray} :
    after.node? place = some (.file contents) ↔ before.node? place = some (.file contents) := by
  have hnone : lastContents? before.workingPlace directory written place = none := by
    unfold lastContents?
    rw [Option.map_eq_none_iff, List.find?_eq_none]
    intro output hmem heq
    rw [← of_decide_eq_true heq] at hplace
    exact hplace ((hbelow output (List.mem_reverse.1 hmem)).2 _ _)
  exact file_iff_of_node (h.others place hnone)

/-- Whether or not all of them can be written, outputs that stay below the directory change no file
elsewhere. -/
theorem writeOutputs_file_iff (tree : Tree)
    (hbelow : ∀ output ∈ outputs, StaysBelow output.path) {place : Place}
    (hplace : ¬ Below (placeOf tree.workingPlace directory) place) {contents : ByteArray} :
    (writeOutputs tree directory outputs).tree.node? place = some (.file contents) ↔
      tree.node? place = some (.file contents) := by
  rcases writeOutputsOn_cases lawful_plain tree directory outputs with
    ⟨-, hall⟩ | ⟨written, output, hfails⟩
  · exact hall.file_iff hbelow hplace
  · obtain ⟨left, rfl⟩ := hfails.split
    exact hfails.written.file_iff
      (fun other hmem => hbelow other (List.mem_append_left _ hmem)) hplace

end Elsewhere

/-- All files that are generated from a script stay below whatever directory they are written to
exactly if the name of every table is relative and never goes up to above the directory of its first
file. Without a backquote in the script this is so. Where it is so, writing the files changes no
other file elsewhere. -/
theorem outputs_stayBelow_iff (strictness : Strictness) (script : String)
    (relations : List Relation) (withMetadata : Bool) :
    let tables := tablesOf strictness script
    let outputs := Code.bundle tables relations withMetadata
    ((∀ output ∈ outputs, StaysBelow output.path) ↔ ∀ table ∈ tables, FilesStayBelow table) ∧
      ('\x60' ∉ script.toList → ∀ output ∈ outputs, StaysBelow output.path) ∧
      ((∀ output ∈ outputs, StaysBelow output.path) →
        ∀ (tree : Tree) (directory : String) (place : Place),
          ¬ Below (placeOf tree.workingPlace directory) place → ∀ contents,
            (writeOutputs tree directory outputs).tree.node? place = some (.file contents) ↔
              tree.node? place = some (.file contents)) := by
  refine ⟨Code.staysBelow_bundle_iff, fun hunquoted => ?_,
    fun hbelow tree directory place hplace _ => writeOutputs_file_iff tree hbelow hplace⟩
  refine Code.staysBelow_bundle_iff.2 fun table ht => ?_
  by_contra h
  exact hunquoted (quoted_of_not_filesStayBelow ht h)

/-- A name between backquotes can lead out of the directory. -/
theorem not_forall_outputs_stayBelow :
    ¬ ∀ (strictness : Strictness) (script : String) (relations : List Relation)
        (withMetadata : Bool),
      ∀ output ∈ Code.bundle (tablesOf strictness script) relations withMetadata,
        StaysBelow output.path := by
  intro h
  have hall := Code.staysBelow_bundle_iff.1
    (h .strict "CREATE TABLE \x60../a\x60 (x INT);" [] false)
  have hfiles := hall ⟨"../a", [⟨"x", .int, none, none, none, false, none⟩], none⟩
    (by decide +kernel)
  exact absurd hfiles.2 (by decide +kernel)

end TableScribe
