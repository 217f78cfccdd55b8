import AddonBuilder.Linker.Scan
import AddonBuilder.Package.Dependencies

/-!
# Modules

A module belongs to a section of a package, has a name there, and comes from a file.
-/

namespace AddonBuilder.Linker

/-- Where a module stands: its package, the section of it, and its name. -/
structure Place where
  pkg : String
  sec : String
  name : String
deriving DecidableEq, Repr

/-- A module that was found, with its files. -/
structure Module extends Place where
  file : String
  documentation : Option String
deriving DecidableEq, Repr

def Module.shown (m : Module) : String :=
  s!"ModuleInfo [{m.pkg} {m.sec} {m.name}] ({m.file}, " ++ m.documentation.getD "None" ++ ")"

def withoutEnding (name : String) : String := (Text.beforeEnd? name ".js").getD name

namespace Place

/-- How a place is written in the manifest. -/
def path (p : Place) : String :=
  Text.joinStrings "/" <|
    (if p.pkg = Package.libraryName then [] else [p.pkg]) ++
    (if p.sec = "tests" then [p.sec] else []) ++ [withoutEnding p.name]

/-- The name of a module's file in an archive. -/
def sourceName (p : Place) : String := p.pkg ++ "-lib/" ++ p.name ++ ".js"

def documentationName (p : Place) : String := p.pkg ++ "-docs/" ++ p.name ++ ".md"

end Place

/-- A module that was looked for in vain. -/
structure NotFound where
  /-- The word by which it was asked for. -/
  way : String
  name : String
  usedBy : String
  line : Option Int
  lookedIn : List String
deriving Repr

def NotFound.message (n : NotFound) : String :=
  let place := match n.line with
    | some line => n.usedBy ++ ":" ++ toString line
    | none => n.usedBy
  "ModuleNotFoundError: unable to satisfy: " ++ n.way ++ "(" ++ n.name ++ ") from\n  " ++ place ++
    ":\nLooked for it in:\n  " ++ Text.joinStrings "\n  " n.lookedIn ++ "\n"

/-- Why a program cannot be linked. -/
inductive Fault where
  | pkg (f : Package.Fault)
  | notFound (n : NotFound)
  /-- A name that cannot be one. -/
  | badName (what name : String) (user : Module)
  /-- A module of a section that cannot ask for others. -/
  | badSection (sec : String)
  /-- The main file lies outside the library directory of its package. -/
  | unreachable (file pkg dir : String)
  /-- The main module has no file. -/
  | noMain (main : Text)
  /-- A module uses `Components` without asking for it. -/
  | chrome
  | badFilter
deriving Repr

def Fault.message? : Fault → Option Text
  | pkg f => f.message?
  | notFound n => some n.message
  | badName what name user =>
    some (Text.ofString (what ++ " in require(" ++ name ++ ") from " ++ user.shown))
  | badSection sec => some sec
  | unreachable file owner dir =>
    some (Text.ofString ("Sorry, but the 'main' file (" ++ file ++ ") in package " ++ owner ++
      " is outside that package's 'lib' directory (" ++ dir ++
      "), so I cannot construct a URI to reach it."))
  | noMain main =>
    some (Text.quoted ("unable to find main module '" ++ main ++ ".js' in top-level package"))
  | chrome => some []
  | badFilter => none

/-- A defect as a fault of the linker. -/
def defect (d : Defect) : Fault := .pkg (.defect d)

/-- Why linking stops before its end. -/
inductive Stop where
  | fault (f : Fault)
  /-- Modules ask for ever new names of one another. -/
  | endless
deriving Repr

def Stop.message? : Stop → Option Text
  | fault f => f.message?
  | endless => none

end AddonBuilder.Linker
