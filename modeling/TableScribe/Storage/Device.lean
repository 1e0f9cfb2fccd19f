import TableScribe.Storage.Tree

/-!
# Devices

What a program can do with its files depends on more than what there is: a right may be missing, or
room. A `Device` is what answers when a program asks for a text or wants something changed.
`Device.plain` only looks at the tree.
-/

namespace TableScribe.Storage

/-- The operations of a program on a file system. -/
structure Device where
  /-- Reads the text of a file. -/
  readText : Tree → String → Except StorageError String
  /-- Makes a directory and all those on the way to it. -/
  ensureDirectories : Tree → Route → Tree.Change
  /-- Puts a file with the given contents at a path. -/
  writeFile : Tree → String → ByteArray → Tree.Change

namespace Device

/-- The device that does whatever the tree allows. -/
def plain : Device where
  readText := Tree.readText
  ensureDirectories := Tree.ensureDirectories
  writeFile := Tree.writeFile

/-- Puts a file at a path and makes its directory if need be. -/
def installFile (device : Device) (tree : Tree) (path : String) (contents : ByteArray) :
    Tree.Change :=
  match (Route.ofPath path).parent? with
  | none => device.writeFile tree path contents
  | some route =>
    let change := device.ensureDirectories tree route
    if change.error.isSome then change else device.writeFile change.tree path contents

end Device

/-- Puts a file at a path wherever the tree allows it, and makes its directory if need be. -/
def Tree.installFile (tree : Tree) (path : String) (contents : ByteArray) : Tree.Change :=
  Device.plain.installFile tree path contents

end TableScribe.Storage
