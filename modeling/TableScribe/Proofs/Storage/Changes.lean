import TableScribe.Proofs.Lookup
import TableScribe.Proofs.Storage.Places
import TableScribe.Storage.Device

/-!
# What the operations on a tree change

Making directories adds directories where there was nothing, and installing a file puts one at the
place of its path; everything else stays. Either may fail on the way.

1. `OnlyAddsDirectories before after`: the change of every operation that makes directories
   (`onlyAddsDirectories_ensureDirectories`).
2. `Device.Lawful`: what is asked of a device. With these laws a file is installed in a tree that
   has only got more directories, or else nothing but directories has been added
   (`installFile_cases`).
3. `KeepsDirectories before after`: what could be followed before can be followed after
   (`locate_of_keepsDirectories`). Neither change takes a directory away.
-/

namespace TableScribe.Storage

/-! ## Nodes -/

section Nodes

variable {tree : Tree} {place : Place} {node : Node}

theorem lookup_putNode (nodes : List (Place × Node)) (other : Place) :
    (Tree.putNode place node nodes).lookup other =
      if other = place then some node else nodes.lookup other :=
  lookup_of_put (Tree.putNode place node) rfl (fun _ _ => rfl) nodes other

/-- Putting a node below the root changes what there is at its place, and nothing else. -/
theorem node?_put (hplace : place ≠ []) (other : Place) :
    (tree.put place node).node? other = if other = place then some node else tree.node? other := by
  unfold Tree.node?
  by_cases hroot : other = []
  · rw [if_pos hroot, if_pos hroot, if_neg fun h => hplace (h.symm.trans hroot)]
  · rw [if_neg hroot, if_neg hroot]
    exact lookup_putNode tree.nodes other

end Nodes

/-! ## Changes -/

/-- The trees differ only by directories where there was nothing before. -/
structure OnlyAddsDirectories (before after : Tree) : Prop where
  workingPlace : after.workingPlace = before.workingPlace
  node : ∀ place, after.node? place = before.node? place ∨
    before.node? place = none ∧ after.node? place = some .directory

/-- What is a directory before is one after. -/
structure KeepsDirectories (before after : Tree) : Prop where
  workingPlace : after.workingPlace = before.workingPlace
  node : ∀ place, before.node? place = some .directory → after.node? place = some .directory

section Changes

variable {before middle after tree : Tree} {place : Place}

theorem OnlyAddsDirectories.refl (tree : Tree) : OnlyAddsDirectories tree tree :=
  ⟨rfl, fun _ => .inl rfl⟩

theorem OnlyAddsDirectories.trans (h1 : OnlyAddsDirectories before middle)
    (h2 : OnlyAddsDirectories middle after) : OnlyAddsDirectories before after := by
  refine ⟨h2.workingPlace.trans h1.workingPlace, fun place => ?_⟩
  rcases h2.node place with hsame | ⟨hnone, hdirectory⟩
  · rw [hsame]
    exact h1.node place
  · rcases h1.node place with hsame | ⟨-, hmiddle⟩
    · exact .inr ⟨hsame.symm.trans hnone, hdirectory⟩
    · exact absurd (hnone.symm.trans hmiddle) (by simp)

/-- A place where at most a new directory is has the file that it had. -/
theorem file_iff_of_node (h : after.node? place = before.node? place ∨
      before.node? place = none ∧ after.node? place = some .directory) {contents : ByteArray} :
    after.node? place = some (.file contents) ↔ before.node? place = some (.file contents) := by
  rcases h with hsame | ⟨hnone, hdirectory⟩
  · rw [hsame]
  · rw [hnone, hdirectory]
    simp

theorem OnlyAddsDirectories.keepsDirectories (h : OnlyAddsDirectories before after) :
    KeepsDirectories before after := by
  refine ⟨h.workingPlace, fun place hdirectory => ?_⟩
  rcases h.node place with hsame | ⟨-, hnew⟩
  · rwa [hsame]
  · exact hnew

theorem onlyAddsDirectories_put (hplace : place ≠ []) (hnone : tree.node? place = none) :
    OnlyAddsDirectories tree (tree.put place .directory) := by
  refine ⟨rfl, fun other => ?_⟩
  rw [node?_put hplace]
  by_cases h : other = place
  · rw [if_pos h, h]
    exact .inr ⟨hnone, rfl⟩
  · rw [if_neg h]
    exact .inl rfl

theorem keepsDirectories_put (hplace : place ≠ []) (hnode : tree.node? place ≠ some .directory)
    (node : Node) : KeepsDirectories tree (tree.put place node) := by
  refine ⟨rfl, fun other hdirectory => ?_⟩
  rw [node?_put hplace, if_neg]
  · exact hdirectory
  · rintro rfl
    exact hnode hdirectory

/-! ## Following paths after a change -/

theorem enter_of_keepsDirectories (h : KeepsDirectories before after) {name : String} {next : Place}
    (henter : before.enter place name = .ok next) : after.enter place name = .ok next := by
  obtain ⟨hnext, hstep⟩ := enter_eq_ok_iff.1 henter
  refine enter_eq_ok_iff.2 ⟨hnext, hstep.imp_right (Or.imp_right ?_)⟩
  exact And.imp_right (h.node next)

theorem walk_of_keepsDirectories (h : KeepsDirectories before after) {names : List String}
    {last : Place} (hwalk : before.walk place names = .ok last) :
    after.walk place names = .ok last := by
  induction names generalizing place with
  | nil => exact hwalk
  | cons name rest ih =>
    obtain ⟨next, hnext, hrest⟩ := walk_cons_eq_ok_iff.1 hwalk
    exact walk_cons_eq_ok_iff.2 ⟨next, enter_of_keepsDirectories h hnext, ih hrest⟩

/-- A path that led to a place still leads there. -/
theorem locate_of_keepsDirectories (h : KeepsDirectories before after) {path : String}
    {node : Option Node} (hlocate : before.locate path = .ok (.entry place node)) :
    after.locate path = .ok (.entry place (after.node? place)) := by
  obtain ⟨hzero, hshort, htarget⟩ := locate_eq_ok_iff.1 hlocate
  obtain ⟨directory, last, hwalk, hlast, hproper, hname, hplace, -⟩ :=
    target_eq_entry_iff.1 htarget
  refine locate_eq_ok_iff.2 ⟨hzero, hshort,
    target_eq_entry_iff.2 ⟨directory, last, ?_, hlast, hproper, hname, hplace, rfl⟩⟩
  unfold Tree.origin at hwalk ⊢
  rw [h.workingPlace]
  exact walk_of_keepsDirectories h hwalk

/-! ## Making directories -/

theorem onlyAddsDirectories_makeDirectory (tree : Tree) (route : Route) :
    OnlyAddsDirectories tree (tree.makeDirectory route).tree := by
  unfold Tree.makeDirectory
  split
  · exact .refl tree
  · split
    · exact .refl tree
    · exact .refl tree
    · exact .refl tree
    · rename_i place htarget
      obtain ⟨-, hplace, hnone⟩ := place_of_target htarget
      exact onlyAddsDirectories_put hplace hnone.symm

theorem onlyAddsDirectories_ensureDirectory (tree : Tree) (route : Route) :
    OnlyAddsDirectories tree (tree.ensureDirectory route).tree := by
  unfold Tree.ensureDirectory
  dsimp only
  split
  · exact .refl tree
  · exact onlyAddsDirectories_makeDirectory tree route

theorem onlyAddsDirectories_ensureSteps (tree : Tree) (rooted : Bool) (reversed : List String) :
    OnlyAddsDirectories tree (tree.ensureSteps rooted reversed).tree := by
  induction reversed with
  | nil => exact .refl tree
  | cons last above ih =>
    rw [Tree.ensureSteps]
    dsimp only
    split
    · split
      · exact ih
      · exact ih.trans (onlyAddsDirectories_ensureDirectory _ _)
    · exact onlyAddsDirectories_ensureDirectory tree _

/-- Making a directory and those on the way to it adds only directories, even if it fails. -/
theorem onlyAddsDirectories_ensureDirectories (tree : Tree) (route : Route) :
    OnlyAddsDirectories tree (tree.ensureDirectories route).tree :=
  onlyAddsDirectories_ensureSteps tree route.rooted route.steps.reverse

/-! ## Installing files -/

/-- A file can be put at the path: it leads to the place, and there is no directory. -/
structure Receives (tree : Tree) (path : String) (place : Place) : Prop where
  locate : ∃ node, tree.locate path = .ok (.entry place node) ∧ node ≠ some .directory
  noSlash : Tree.endsInSlash path = false

/-- Writing a file changes nothing and fails, or puts it where it belongs. -/
theorem writeFile_cases (tree : Tree) (path : String) (contents : ByteArray) :
    (∃ e, tree.writeFile path contents = ⟨tree, some e⟩) ∨
      ∃ place, Receives tree path place ∧
        tree.writeFile path contents = ⟨tree.put place (.file contents), none⟩ := by
  unfold Tree.writeFile
  split
  · exact .inl ⟨_, rfl⟩
  · exact .inl ⟨_, rfl⟩
  · rename_i place node hlocate
    split
    · exact .inl ⟨_, rfl⟩
    · rename_i hfits
      rw [not_or] at hfits
      exact .inr ⟨place, ⟨⟨node, hlocate, hfits.2⟩, Bool.eq_false_of_not_eq_true hfits.1⟩, rfl⟩

/-- What a device may do: making directories adds directories at most, and writing a file changes
nothing or puts the whole file where it belongs. Either may fail for any reason. Since there are no
links in a tree, a file belongs at the place that its path spells. -/
structure Device.Lawful (device : Device) : Prop where
  ensureDirectories : ∀ tree route,
    OnlyAddsDirectories tree (device.ensureDirectories tree route).tree
  writeFile : ∀ tree path contents,
    (∃ e, device.writeFile tree path contents = ⟨tree, some e⟩) ∨
      ∃ place, Receives tree path place ∧
        device.writeFile tree path contents = ⟨tree.put place (.file contents), none⟩

theorem lawful_plain : Device.plain.Lawful :=
  ⟨onlyAddsDirectories_ensureDirectories, writeFile_cases⟩

/-- Installing a file first adds directories at most, and then puts the file where it belongs,
unless something goes wrong. -/
theorem installFile_cases {device : Device} (hlawful : device.Lawful) (tree : Tree) (path : String)
    (contents : ByteArray) :
    ∃ middle, OnlyAddsDirectories tree middle ∧
      ((∃ e, device.installFile tree path contents = ⟨middle, some e⟩) ∨
        ∃ place, Receives middle path place ∧
          device.installFile tree path contents = ⟨middle.put place (.file contents), none⟩) := by
  unfold Device.installFile
  split
  · exact ⟨tree, .refl tree, hlawful.writeFile tree path contents⟩
  · rename_i route hroute
    dsimp only
    refine ⟨_, hlawful.ensureDirectories tree route, ?_⟩
    split
    · rename_i hsome
      obtain ⟨e, he⟩ := Option.isSome_iff_exists.1 hsome
      exact .inl ⟨e, by rw [← he]⟩
    · exact hlawful.writeFile _ path contents

/-! ## Reading back -/

section Receives

variable {path : String}

theorem Receives.place_eq (h : Receives tree path place) :
    place = placeOf tree.workingPlace path ∧ place ≠ [] ∧
      tree.node? place ≠ some .directory := by
  obtain ⟨node, hlocate, hnode⟩ := h.locate
  obtain ⟨hplace, hroot, rfl⟩ := placeOf_of_locate hlocate
  exact ⟨hplace, hroot, hnode⟩

/-- The path still leads to the place when directories have been kept. -/
theorem Receives.of_keepsDirectories (h : Receives before path place)
    (hkeeps : KeepsDirectories before after) (hnode : after.node? place ≠ some .directory) :
    Receives after path place := by
  obtain ⟨node, hlocate, -⟩ := h.locate
  exact ⟨⟨_, locate_of_keepsDirectories hkeeps hlocate, hnode⟩, h.noSlash⟩

/-- What is read at a path is the file at the place that it leads to. -/
theorem readBytes_eq_ok_iff {contents : ByteArray} :
    tree.readBytes path = .ok contents ↔
      ∃ place, Receives tree path place ∧ tree.node? place = some (.file contents) := by
  unfold Tree.readBytes
  constructor
  · intro h
    split at h
    · exact absurd h (by simp)
    · exact absurd h (by simp)
    · exact absurd h (by simp)
    · exact absurd h (by simp)
    · rename_i place found hlocate
      split at h
      · exact absurd h (by simp)
      · rename_i hslash
        rw [← Except.ok.inj h]
        exact ⟨place, ⟨⟨_, hlocate, by simp⟩, Bool.eq_false_of_not_eq_true hslash⟩,
          (placeOf_of_locate hlocate).2.2.symm⟩
  · rintro ⟨place, hreceives, hfile⟩
    obtain ⟨node, hlocate, -⟩ := hreceives.locate
    rw [hlocate, (placeOf_of_locate hlocate).2.2, hfile]
    dsimp only
    rw [if_neg (by simp [hreceives.noSlash])]

end Receives

end Changes

end TableScribe.Storage
