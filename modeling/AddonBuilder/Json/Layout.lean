import AddonBuilder.Session.Basic

/-!
# Laying out a JSON file

The command reads a JSON text from its input or a file, and writes it with sorted keys and one item
a line.
-/

namespace AddonBuilder.Json.Layout

open Session

/-- Sorted keys, and four blanks for each level. -/
def options : Options where
  sortKeys := true
  indent := some 4

/-- The bytes laid out, or the reason why they are no JSON text. -/
def layOut (input : Bytes) : Command Text := do
  match decodeUtf8 input with
  | .error e => throw (.left (.text ((e.message? (bytesSource input)).getD [])))
  | .ok v =>
    match v.encode options with
    | .error _ => flaw .kind
    | .ok t => return t ++ "\n"

def run (args : List String) (input : Bytes) : Command Unit := do
  match args with
  | [] => write (← layOut input)
  | [source] => write (← layOut (← readBytes source))
  | [source, target] =>
    discard (readBytes source)
    writeBytes target []
    writeText target (← layOut (← readBytes source))
  | _ => throw (.left (.text "tool [infile [outfile]]"))

end AddonBuilder.Json.Layout
