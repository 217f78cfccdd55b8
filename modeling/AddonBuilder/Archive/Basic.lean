import AddonBuilder.Text.Codec

/-!
# Archives

An archive is a list of entries in the order in which they were written.
-/

namespace AddonBuilder

/-- A file or a directory, whose name ends in a slash, with or without permission bits. -/
structure Archive.Entry where
  name : String
  content : Bytes
  /-- File type and permissions, where the writer sets them. -/
  mode : Option Nat := none
deriving DecidableEq, Repr

/-- The entries of an archive in the order of writing. -/
abbrev Archive := List Archive.Entry

namespace Archive

def dirMode : Nat := 0o40755

def fileMode : Nat := 0o644

/-- A directory is stored with a slash at its end. -/
def Entry.isDir (e : Entry) : Bool := e.name.toList.getLast? == some '/'

/-- The stored names, in order. -/
def names (a : Archive) : List String := a.map Entry.name

/-- The content of an entry; of entries with the same name the last counts. -/
def content? (a : Archive) (name : String) : Option Bytes :=
  (a.reverse.find? (·.name = name)).map Entry.content

end Archive

end AddonBuilder
