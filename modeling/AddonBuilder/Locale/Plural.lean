import AddonBuilder.Json.Value
import AddonBuilder.Text.Split

/-!
# Plural forms of localised texts

The texts of a locale are named by keys.
-/

namespace AddonBuilder.Locale

open Json Assoc

/-- The plural categories. -/
def categories : List String := ["zero", "one", "two", "few", "many", "other"]

/-- A plural key without its category, and the category.  One line feed after the bracket is
ignored; a line feed elsewhere makes it an ordinary key. -/
def pluralKey? (key : Text) : Option (Text × String) :=
  let key := (Text.dropEnd? [0x0A] key).getD key
  if key.contains 0x0A then none
  else categories.findSome? fun category =>
    (Text.dropEnd? (Text.ofString ("[" ++ category ++ "]")) key).map (·, category)

/-- A plural form without a general form. -/
structure MissingOther where
  key : Text
  /-- The key that has no general form. -/
  main : Text
deriving DecidableEq, Repr

/-- A value as an object of forms: a text becomes its form `other`. -/
def asForms : Value → Members
  | .object forms => forms
  | v => [("other", v)]

/-- Moves the text of one plural key into the object of its forms. -/
def absorb (table : Members) (key : Text) : Except MissingOther Members :=
  match pluralKey? key with
  | none => .ok table
  | some (main, category) => do
    let table ← match get? table main with
      | some _ => pure table
      | none =>
        if contains table (main ++ "[other]") then pure (insert table main (.object []))
        else throw ⟨key, main⟩
    let forms := asForms ((get? table main).getD (.object []))
    let form := (get? table key).getD .null
    return erase (insert table main (.object (insert forms category form))) key

/-- A table with every plural key moved into the object of its forms, in the order of the keys. -/
def normalisePlurals (table : Members) : Except MissingOther Members :=
  (keys table).foldlM absorb table

end AddonBuilder.Locale
