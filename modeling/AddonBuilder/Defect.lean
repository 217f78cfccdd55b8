/-!
# Defects of data

Configuration files hold values of any kind, and files may be missing.
-/

namespace AddonBuilder

/-- In which way data do not fit. -/
inductive Defect where
  /-- A value is of a kind that the operation cannot take. -/
  | kind
  /-- A table has no such key. -/
  | key
  /-- A list is too short. -/
  | index
  /-- A value is of the right kind but means nothing here. -/
  | value
  /-- A file or directory is missing, in the way or of the wrong sort. -/
  | file
  /-- Bytes are not text in the expected encoding. -/
  | encoding
  /-- Text cannot be written in the expected encoding. -/
  | unencodable
  /-- Something that is taken for granted does not hold. -/
  | assumption
  /-- A name has no meaning. -/
  | name
  | markup
deriving DecidableEq, Repr

end AddonBuilder
