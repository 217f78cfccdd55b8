import AddonBuilder.Json.Encoding
import AddonBuilder.Markup.Reader
import AddonBuilder.Text.Lower

/-!
# A script of plural rules

For every language there are rules that tell which plural form goes with a number.
-/

namespace AddonBuilder.Locale.RuleScript

open Json Text

/-- A relation as the pattern takes it apart. -/
structure Condition where
  /-- The number whose remainder is looked at. -/
  modulus : Option Nat
  /-- The relation, with a trailing `not` if there is one. -/
  relation : String
  /-- The number, or the numbers and ranges. -/
  operand : String
deriving DecidableEq, Repr

def relations : List String := ["is", "in", "within", "not in"]

/-- The remainder part of a condition, if there is one. -/
def modulus (cs : List Char) : Option Nat × List Char :=
  match dropStart? " mod ".toList cs with
  | none => (none, cs)
  | some rest =>
    let digits := rest.takeWhile Char.isDigit
    if digits.isEmpty then (none, cs)
    else (some (digits.foldl (fun n d => n * 10 + (d.toNat - 0x30)) 0), rest.drop digits.length)

/-- The operand of a condition after its blank. -/
def operand? (cs : List Char) : Option (String × List Char) :=
  match cs with
  | ' ' :: rest =>
    let word := rest.takeWhile fun c => !asciiBlankChar c
    if word.isEmpty then none else some (String.ofList word, rest.drop word.length)
  | _ => none

def relation? (cs : List Char) (relation : String) : Option (String × String × List Char) := do
  let rest ← dropStart? relation.toList cs
  match (dropStart? " not".toList rest).bind operand? with
  | some (word, after) => some (relation ++ " not", word, after)
  | none => do
    let (word, after) ← operand? rest
    some (relation, word, after)

def condition? (cs : List Char) : Option (Condition × List Char) :=
  match cs with
  | 'n' :: rest =>
    let (m, rest) := modulus rest
    match rest with
    | ' ' :: rest => do
      let (relation, word, after) ← relations.findSome? (relation? rest)
      some (⟨m, relation, word⟩, after)
    | _ => none
  | _ => none

def Condition.subject (c : Condition) : String :=
  match c.modulus with
  | some m => s!"(n % {m})"
  | none => "n"

def number (s : String) : Except Defect Int :=
  match integerOfString? s with
  | some n => .ok n
  | none => .error .value

def isRange (s : String) : Bool := occursIn ".." s

def rangeCode (subject piece : String) : Except Defect String := do
  match cut? "..".toList piece.toList with
  | some (left, right) =>
    if occurs "..".toList right then throw .value
    let low ← number (String.ofList left)
    let high ← number (String.ofList right)
    return s!"isBetween({subject}, {low}, {high})"
  | none => throw .value

/-- The pieces of an operand as code: ranges each for itself, and at most one number. -/
def piecesCode (subject : String) (pieces : List String) : Except Defect (List String) := do
  let results ← pieces.mapM fun piece => do
    if isRange piece then return (some (← rangeCode subject piece), none)
    else return (none, some (← number piece))
  let ranges := results.filterMap Prod.fst
  match results.filterMap Prod.snd with
  | [] => return ranges
  | [n] => return ranges ++ [s!"({subject} == {n})"]
  | _ => throw .kind

def Condition.code (c : Condition) : Except Defect String := do
  let subject := c.subject
  if c.relation = "is" then return subject ++ " == " ++ c.operand
  if c.relation = "is not" then return subject ++ " != " ++ c.operand
  let sign := if c.relation = "not in" then "!" else ""
  let pieces := splitString ',' c.operand
  if !isRange c.operand then
    return sign ++ "isIn(" ++ subject ++ ", [" ++ joinStrings ", " pieces ++ "])"
  return sign ++ "(" ++ joinStrings " || " (← piecesCode subject pieces) ++ ")"

/-- A text with every condition in it turned into code; the number bounds the length of the text. -/
def convert : Nat → List Char → Except Defect String
  | 0, cs => .ok (String.ofList cs)
  | _ + 1, [] => .ok ""
  | n + 1, c :: rest =>
    match condition? (c :: rest) with
    | some (condition, after) => do
      let code ← condition.code
      return code ++ (← convert n after)
    | none => do return c.toString ++ (← convert n rest)

/-- The script of a rule. -/
def ruleCode (rule : String) : Except Defect String := do
  let lower := (lower rule).toList
  let code ← convert lower.length lower
  return replaceString "and" "&&" (replaceString "or" "||" code)

/-- The languages of a group, and the rule for each plural form. -/
structure Group where
  languages : List String
  rules : Assoc Text Value

/-- The rules in a group: what the first child of each rule holds. -/
def groupOf (n : Markup.Tree) : Except Defect Group := do
  let rules ← (n.children.filter fun r => r.name? = some "pluralRule").mapM fun r =>
    match r.children with
    | [] => Except.error Defect.kind
    | child :: _ => .ok (r.attributeText "count", child.ownValue)
  return ⟨wordsOf (n.attributeText "locales").display, Assoc.ofList rules⟩

def groupLines (g : Group) : Except Defect String := do
  let lines ← g.rules.mapM fun (form, rule) => do
    match rule with
    | .text t => return ["if (" ++ (← ruleCode t.display) ++ ")", "  return \"" ++ form.display ++ "\";"]
    | _ => throw .kind
  return joinStrings "\n    " lines.flatten

def functions (groups : List Group) : Except Defect String := do
  let lines ← groups.zipIdx.mapM fun (g, n) => do
    let body ← groupLines g
    return [s!"\"{n}\": function (n) \x7b", "  " ++ body, "  return \"other\"", "\x7d,"]
  return joinStrings "\n  " lines.flatten

/-- The table from languages to groups.  The last group that names a language counts. -/
def languageTable (groups : List Group) : Text :=
  let table := Assoc.ofList (groups.zipIdx.flatMap fun (g, n) =>
    g.languages.map fun l => (ofString l, Value.int n))
  let options : Options := { sortKeys := true, indent := some 2, itemSeparator := "," }
  if table.isEmpty then "\x7b\x7d" else ((Value.object table).encode options).toOption.getD []

def source : String := "http://unicode.org/repos/cldr/trunk/common/supplemental/plurals.xml"

def opening : List String := [
  "/* This Source Code Form is subject to the terms of the Mozilla Public",
  " * License, v. 2.0. If a copy of the MPL was not distributed with this",
  " * file, You can obtain one at http://mozilla.org/MPL/2.0/. */",
  "",
  "// This file is automatically generated with /python-lib/plural-rules-generator.py",
  "// Fetching data from: " ++ source,
  "",
  "// Mapping of short locale name == to == > rule index in following list"]

/-- The functions that conditions are written with. -/
def tests : List String := [ "", "// Utility functions for plural rules methods",
  "function isIn(n, list) list.indexOf(n) !== -1;",
  "function isBetween(n, start, end) start <= n && n <= end;",
  "",
  "// List of all plural rules methods, that maps an integer to the plural form name to use",
  "const RULES = \x7b"]

def closing : List String := [ "\x7d;", "", "/**",
  "  * Return a function that gives the plural form name for a given integer",
  "  * for the specified `locale`",
  "  *   let fun = getRulesForLocale('en');",
  "  *   fun(1)    -> 'one'",
  "  *   fun(0)    -> 'other'",
  "  *   fun(1000) -> 'other'",
  "  */",
  "exports.getRulesForLocale = function getRulesForLocale(locale) \x7b",
  "  let index = LOCALES_TO_RULES[locale];",
  "  if (!(index in RULES)) \x7b",
  "    console.warn('Plural form unknown for locale \"' + locale + '\"');",
  "    return function () \x7b return \"other\"; \x7d;",
  "  \x7d",
  "  return RULES[index];",
  "\x7d",
  "",
  ""]

def write (bytes : Bytes) : Except Defect Text := do
  let d ← Markup.read bytes
  let groups ← (d.root.elements.filter fun n => n.name? = some "pluralRules").mapM groupOf
  let code ← functions groups
  return ofString (joinStrings "\n" opening) ++ "\nconst LOCALES_TO_RULES = " ++
    languageTable groups ++ ";\n" ++ ofString (joinStrings "\n" tests) ++ "\n  " ++
    ofString code ++ "\n" ++ ofString (joinStrings "\n" closing)

end AddonBuilder.Locale.RuleScript
