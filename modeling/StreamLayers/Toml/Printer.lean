import StreamLayers.Decimal
import StreamLayers.Value

/-!
TOML texts of structured data: lines of keys and values, then sections. A string is written in the
plainest of the four forms that shows it best.
-/

namespace StreamLayers.Toml

inductive StringForm where
  | basic
  | literal
  | longBasic
  | longLiteral
  deriving DecidableEq, Repr

namespace StringForm

def delimiter : StringForm → List Char
  | .basic => ['"']
  | .literal => ['\'']
  | .longBasic => ['"', '"', '"']
  | .longLiteral => ['\'', '\'', '\'']

def isLong : StringForm → Bool
  | .longBasic | .longLiteral => true
  | .basic | .literal => false

def hasEscapes : StringForm → Bool
  | .basic | .longBasic => true
  | .literal | .longLiteral => false

end StringForm

/-- Whether a character can only be written as an escape. -/
def needsEscape (c : Char) : Bool :=
  c.toNat = 127 || (c.toNat < 32 && c ≠ '\t' && c ≠ '\n')

/-- Whether there are three of `q` in a row. -/
def hasTriple (q : Char) : List Char → Bool
  | a :: b :: c :: rest => (a = q && b = q && c = q) || hasTriple q (b :: c :: rest)
  | _ => false

def formOf (s : List Char) : StringForm :=
  let long := s.contains '\n'
  if s.any needsEscape then if long then .longBasic else .basic
  else if !s.contains '\\' && !s.contains '"' && !long then .basic
  else if !s.contains '\'' && !long then .literal
  else if !s.contains '\\' && !hasTriple '"' s then .longBasic
  else if !hasTriple '\'' s then .longLiteral
  else if long then .longBasic else .basic

def hexDigit (n : Nat) : Char := (Nat.digitChar n).toUpper

/-- How a character other than a quote is written where there are escapes. -/
def escape (long : Bool) (c : Char) : List Char :=
  if c.toNat = 8 then ['\\', 'b']
  else if c = '\t' then ['\\', 't']
  else if c = '\n' then if long then ['\n'] else ['\\', 'n']
  else if c.toNat = 12 then ['\\', 'f']
  else if c = '\r' then ['\\', 'r']
  else if c = '\\' then ['\\', '\\']
  else if c.toNat < 32 ∨ c.toNat = 127 then
    ['\\', 'u', '0', '0', hexDigit (c.toNat / 16), hexDigit (c.toNat % 16)]
  else [c]

/-- The text of a string between its delimiters, where there are escapes. In a row of quotes every
one after `room` plain ones is escaped, and the count starts anew. -/
def escapeAll (long : Bool) : Nat → List Char → List Char
  | _, [] => []
  | room, c :: rest =>
    let full := if long then 2 else 0
    if c = '"' then
      match room with
      | 0 => '\\' :: '"' :: escapeAll long full rest
      | room + 1 => '"' :: escapeAll long room rest
    else escape long c ++ escapeAll long full rest

/-- A string. A long one that has lines of its own starts on a new line. -/
def string (s : String) : String :=
  let cs := s.toList
  let form := formOf cs
  let body := if form.hasEscapes then escapeAll form.isLong (if form.isLong then 2 else 0) cs else cs
  let start := if form.isLong && cs.contains '\n' then ['\n'] else []
  String.ofList (form.delimiter ++ start ++ body ++ form.delimiter)

/-- Numbers are always positional; of two equally near decimals the one away from zero is written. -/
def floatLayout : Decimal.Layout :=
  { tie := .up, positional := fun _ => true, nan := "nan", infinity := "inf"
    negativeInfinity := "-inf" }

/-- The text of a plain value; what is null is left out. -/
def scalar? : Value → Option String
  | .bool b => some (if b then "true" else "false")
  | .int n => some (toString n)
  | .float x => some (Decimal.text floatLayout x)
  | .text s => some (string s)
  | .null | .garbled | .list _ | .table _ => none

def lines (entries : List (String × Value)) : String :=
  String.join (entries.filterMap fun (k, v) => (scalar? v).map fun text => k ++ " = " ++ text ++ "\n")

def sections (entries : List (String × Value)) : List String :=
  entries.filterMap fun
    | (k, .table fields) => some ("[" ++ k ++ "]\n" ++ lines fields)
    | _ => none

/-- A document of plain entries and sections of plain entries, with a blank line before each section
but one at the very start. -/
def document (v : Value) : String :=
  match v with
  | .table entries =>
    let first := lines entries
    "\n".intercalate ((if first.isEmpty then [] else [first]) ++ sections entries)
  | _ => ""

end StreamLayers.Toml
