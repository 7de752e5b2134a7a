import StreamLayers.Text
import StreamLayers.Toml.Scalar

/-!
Settings from environment variables: what the text of a variable stands for, and where its name puts
it.
-/

namespace StreamLayers.Environment

/-- The blanks that may stand around values and keys; a bare word loses all blanks at its ends. -/
def isBlank (c : Char) : Bool :=
  c = ' ' || c = '\t' || c = '\n' || c = '\r' || c.toNat = 12

def skipBlanks (cs : List Char) : List Char := cs.dropWhile isBlank

def isSeparator (c : Char) : Bool :=
  c = ',' || c = '\x7b' || c = '\x7d' || c = '[' || c = ']'

/-- Whether a word is written as a fraction: digits on at least one side of a point, and perhaps a
power of ten. -/
def isFraction (word : List Char) : Bool :=
  let unsigned := match word with
    | '+' :: rest | '-' :: rest => rest
    | rest => rest
  let (whole, rest) := unsigned.span Char.isDigit
  match rest with
  | '.' :: rest =>
    let (places, rest) := rest.span Char.isDigit
    let power := match rest with
      | 'e' :: '+' :: ds | 'e' :: '-' :: ds | 'E' :: '+' :: ds | 'E' :: '-' :: ds
      | 'e' :: ds | 'E' :: ds => !ds.isEmpty && ds.all Char.isDigit
      | rest => rest.isEmpty
    (!whole.isEmpty || !places.isEmpty) && power
  | _ => false

/-- The integer that a word is: a word of 64 bits, with a sign if it is signed. -/
def integer? (word : List Char) : Option Int :=
  let (negative, ds) := match word with
    | '+' :: ds => (false, ds)
    | '-' :: ds => (true, ds)
    | ds => (false, ds)
  if ds.isEmpty || !ds.all Char.isDigit then none
  else
    let n := Json.decimal ds
    if negative then if n ≤ signedLimit then some (-n) else none
    else if n < wordLimit then some n else none

def bare (word : List Char) : Value :=
  if isFraction word then .float 0.0
  else
    match integer? word with
    | some n => .int n
    | none => .text (String.ofList word)

/-- The key of an entry: a string, or letters, digits, underscores and hyphens. -/
def key? (cs : List Char) : Option (String × List Char) :=
  match cs with
  | '"' :: rest => (Toml.basicString rest).map fun (s, rest) => (String.ofList s, rest)
  | cs =>
    match cs.span Toml.isBare with
    | ([], _) => none
    | (name, rest) => some (String.ofList name, rest)

def after? (w : String) (cs : List Char) : Option (List Char) :=
  if w.toList.isPrefixOf cs then some (cs.drop w.length) else none

mutual

/-- A value with the blanks around it, at most half of `fuel` levels and parts deep. -/
def value : Nat → List Char → Option (Value × List Char)
  | 0, _ => none
  | fuel + 1, cs => (part fuel (skipBlanks cs)).map fun (v, rest) => (v, skipBlanks rest)

def part : Nat → List Char → Option (Value × List Char)
  | 0, _ => none
  | fuel + 1, cs =>
    match after? "true" cs, after? "false" cs with
    | some rest, _ => some (.bool true, rest)
    | none, some rest => some (.bool false, rest)
    | none, none =>
      match cs with
      | '\x7b' :: rest => (entries fuel [] rest).map fun (es, rest) => (.table es, rest)
      | '[' :: rest => (items fuel rest).map fun (vs, rest) => (.list vs, rest)
      | '"' :: rest =>
        (Toml.basicString rest).map fun (s, rest) => (.text (String.ofList s), rest)
      | '\'' :: c :: '\'' :: rest => some (.text (String.singleton c), rest)
      | '\'' :: _ => none
      | cs =>
        let (word, rest) := cs.span (!isSeparator ·)
        some (bare (Text.trim word), rest)

/-- The items of a list up to its end; a comma may stand before the end. -/
def items : Nat → List Char → Option (List Value × List Char)
  | 0, _ => none
  | _ + 1, ']' :: rest => some ([], rest)
  | fuel + 1, cs => do
    let (v, rest) ← value fuel cs
    match rest with
    | ',' :: rest => do
      let (vs, rest) ← items fuel rest
      some (v :: vs, rest)
    | ']' :: rest => some ([v], rest)
    | _ => none

/-- The entries of a table up to its end, behind those read so far; a comma may stand before the
end. -/
def entries : Nat → List (String × Value) → List Char → Option (List (String × Value) × List Char)
  | 0, _, _ => none
  | _ + 1, es, '\x7d' :: rest => some (es, rest)
  | fuel + 1, es, cs => do
    let (key, rest) ← key? (skipBlanks cs)
    let rest ← Toml.expect? '=' (skipBlanks rest)
    let (v, rest) ← value fuel rest
    match rest with
    | ',' :: rest => entries fuel (Value.setEntry key v es) rest
    | '\x7d' :: rest => some (Value.setEntry key v es, rest)
    | _ => none

end

/-- What the text of a variable stands for. A text that is not a value as a whole stands for
itself. -/
def read (text : String) : Value :=
  match value (2 * text.length + 2) text.toList with
  | some (v, []) => v
  | _ => .text text

/-- What names of variables for settings begin with, in capitals or not. -/
def mark : String := "REPLAYSTREAM_"

def unmarked? (name : List Char) : Option (List Char) :=
  let mark := mark.toList
  if (name.take mark.length).map Char.toUpper = mark then some (name.drop mark.length) else none

/-- The path of the setting that a variable gives: the parts of its name between points and double
underscores, of which none may be empty. Blanks around the name, and behind the mark, do not
matter. -/
def path? (name : String) : Option (List String) := do
  let rest ← unmarked? (Text.trim name.toList)
  let pointed := (String.ofList rest).replace "__" "."
  let parts := (String.ofList (Text.trim pointed.toList)).toLower.splitOn "."
  if parts.any String.isEmpty then none else some parts

def nest (path : List String) (v : Value) : Value :=
  path.foldr (fun key v => .table [(key, v)]) v

end StreamLayers.Environment
