import AddonBuilder.Text.Split

/-!
# Files that are left out

Hidden files, backup copies and the swap files of editors do not go into an archive, nor do the
directories in which version control keeps its own files.
-/

namespace AddonBuilder.Files

/-- The files left out by name unless a caller says otherwise. -/
def ignoredFiles : List String := [".hgignore"]

def ignoredDirs : List String := [".git", ".svn", ".hg"]

/-- Whether a walk lists a file. -/
def keepsFile (ignored : List String) (name : String) : Bool :=
  !ignored.contains name && !Text.beginsWith name "." && !Text.endsWith name "~" &&
    !Text.endsWith name ".swp"

/-- Whether a walk goes into a directory. -/
def keepsDir (name : String) : Bool := !ignoredDirs.contains name

end AddonBuilder.Files
