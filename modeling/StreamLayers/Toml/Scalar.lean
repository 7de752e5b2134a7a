import StreamLayers.Decimal
import StreamLayers.Json.Parser
import StreamLayers.Value

/-!
Reading the parts of TOML that hold no further values: strings, numbers, dates and times, and keys.
Every reader takes what it reads off the front of a text.
-/

namespace StreamLayers.Toml

/-- A reader of something at the front of a text; it answers with what is left. -/
abbrev Reading (α : Type) := List Char → Option (α × List Char)

def isBlank (c : Char) : Bool := c = ' ' || c = '\t'

def skipBlanks (cs : List Char) : List Char := cs.dropWhile isBlank

def newline? : List Char → Option (List Char)
  | '\n' :: rest => some rest
  | '\r' :: '\n' :: rest => some rest
  | _ => none

/-- Whether a character may stand in comments and literal strings, quotes aside. -/
def isPlain (c : Char) : Bool := c = '\t' || (32 ≤ c.toNat && c.toNat ≠ 127)

/-! Strings -/

def letterEscape? (c : Char) : Option Char :=
  if c = '"' ∨ c = '\\' then some c
  else if c = 'b' then some (Char.ofNat 8)
  else if c = 't' then some '\t'
  else if c = 'n' then some '\n'
  else if c = 'f' then some (Char.ofNat 12)
  else if c = 'r' then some '\r'
  else none

def numbered? (digits : List Char) : Option Char := do
  let code ← Json.hexNumber? digits
  if code.isValidChar then some (Char.ofNat code) else none

/-- A string with one more character in front, if both were read. -/
def before? (c : Option Char) (found : Option (List Char × List Char)) :
    Option (List Char × List Char) := do
  let c ← c
  let (s, rest) ← found
  some (c :: s, rest)

def plain? (c : Char) : Option Char := if isPlain c then some c else none

def basicString : Reading (List Char)
  | [] => none
  | '"' :: rest => some ([], rest)
  | '\\' :: 'u' :: a :: b :: c :: d :: rest => before? (numbered? [a, b, c, d]) (basicString rest)
  | '\\' :: 'U' :: a :: b :: c :: d :: e :: f :: g :: h :: rest =>
    before? (numbered? [a, b, c, d, e, f, g, h]) (basicString rest)
  | '\\' :: c :: rest => before? (letterEscape? c) (basicString rest)
  | c :: rest => before? (plain? c) (basicString rest)

def literalString : Reading (List Char)
  | [] => none
  | '\'' :: rest => some ([], rest)
  | c :: rest => before? (plain? c) (literalString rest)

/-- The end of a long string: three quotes, and at most two before them that belong to it. -/
def longEnd? (q : Char) : Reading (List Char)
  | a :: b :: c :: rest =>
    if a = q ∧ b = q ∧ c = q then
      match rest with
      | d :: e :: rest =>
        if d = q then if e = q then some ([q, q], rest) else some ([q], e :: rest)
        else some ([], d :: e :: rest)
      | [d] => if d = q then some ([q], []) else some ([], [d])
      | [] => some ([], [])
    else none
  | _ => none

def isSpace : List Char → Bool
  | '\r' :: '\n' :: _ => true
  | c :: _ => isBlank c || c = '\n'
  | [] => false

/-- The rest of a long string. Ends of lines read as line feeds; where there are escapes, a backslash
at the end of a line takes away all blanks and ends of lines up to the next character, which is what
`skipping` stands for. -/
def longString (q : Char) (escapes : Bool) : (skipping : Bool) → Reading (List Char)
  | _, [] => none
  | skipping, c :: rest =>
    if skipping && isSpace (c :: rest) then longString q escapes true rest
    else
      match longEnd? q (c :: rest) with
      | some found => some found
      | none =>
        if escapes && c = '\\' then
          if (newline? (skipBlanks rest)).isSome then longString q escapes true rest
          else
            match rest with
            | 'u' :: a :: b :: c :: d :: rest =>
              before? (numbered? [a, b, c, d]) (longString q escapes false rest)
            | 'U' :: a :: b :: c :: d :: e :: f :: g :: h :: rest =>
              before? (numbered? [a, b, c, d, e, f, g, h]) (longString q escapes false rest)
            | c :: rest => before? (letterEscape? c) (longString q escapes false rest)
            | [] => none
        else if c = '\r' then
          match rest with
          | '\n' :: rest => before? (some '\n') (longString q escapes false rest)
          | _ => none
        else before? (if c = '\n' then some c else plain? c) (longString q escapes false rest)

/-- A long string may begin with an end of line, which does not belong to it. -/
def skipNewline (cs : List Char) : List Char := (newline? cs).getD cs

def shortString? : Reading (List Char)
  | '"' :: rest => basicString rest
  | '\'' :: rest => literalString rest
  | _ => none

def string? : Reading (List Char)
  | '"' :: '"' :: '"' :: rest => longString '"' true false (skipNewline rest)
  | '\'' :: '\'' :: '\'' :: rest => longString '\'' false false (skipNewline rest)
  | cs => shortString? cs

/-! Keys -/

def isBare (c : Char) : Bool := c.isAlphanum || c = '_' || c = '-'

def keyPart? (cs : List Char) : Option (String × List Char) :=
  match shortString? cs with
  | some (s, rest) => some (String.ofList s, rest)
  | none =>
    match cs.span isBare with
    | ([], _) => none
    | (name, rest) => some (String.ofList name, rest)

/-- How many parts a key may have, and how many lists and tables of one line a value may be inside
of. -/
def depthLimit : Nat := 79

/-- The parts of a key, at most `room` of them, with points between them. -/
def keyParts? : (room : Nat) → Reading (List String)
  | 0, _ => none
  | room + 1, cs => do
    let (part, rest) ← keyPart? (skipBlanks cs)
    match skipBlanks rest with
    | '.' :: rest => do
      let (parts, rest) ← keyParts? room rest
      some (part :: parts, rest)
    | rest => some ([part], rest)

def key? : Reading (List String) := keyParts? depthLimit

/-! Numbers -/

/-- Further digits; an underscore may stand between two. -/
def moreDigits (isDigit : Char → Bool) : List Char → List Char × List Char
  | '_' :: c :: rest =>
    if isDigit c then
      let (ds, rest) := moreDigits isDigit rest
      (c :: ds, rest)
    else ([], '_' :: c :: rest)
  | c :: rest =>
    if isDigit c then
      let (ds, rest) := moreDigits isDigit rest
      (c :: ds, rest)
    else ([], c :: rest)
  | [] => ([], [])

def digits? (isDigit : Char → Bool) : Reading (List Char)
  | c :: rest =>
    if isDigit c then
      let (ds, rest) := moreDigits isDigit rest
      some (c :: ds, rest)
    else none
  | [] => none

/-- The digits before the point: a zero stands alone. -/
def whole? : Reading (List Char)
  | '0' :: rest => some (['0'], rest)
  | cs => digits? Char.isDigit cs

/-- An integer, if it fits a signed 64-bit word. -/
def integer? (n : Int) : Option Value :=
  if -(signedLimit : Int) ≤ n ∧ n < signedLimit then some (.int n) else none

/-- An integer in another base, behind the mark of the base. -/
def based (base : Nat) (isDigit : Char → Bool) (cs : List Char) : Option (Value × List Char) := do
  let (ds, rest) ← digits? isDigit cs
  let n := Digits.value base (ds.map fun c => (Json.hexValue? c).getD 0)
  (integer? n).map (·, rest)

/-- A number without its sign. A fraction beyond all finite numbers is refused, unless it is
negative. -/
def decimal? (negative : Bool) (cs : List Char) : Option (Value × List Char) := do
  let (whole, rest) ← whole? cs
  let (places, rest) ← match rest with
    | '.' :: rest => (digits? Char.isDigit rest).map fun (ds, rest) => (some ds, rest)
    | rest => some (none, rest)
  let (power, rest) ← match rest with
    | 'e' :: rest | 'E' :: rest =>
      let (down, rest) := match rest with
        | '-' :: rest => (true, rest)
        | '+' :: rest => (false, rest)
        | rest => (false, rest)
      (digits? Char.isDigit rest).map fun (ds, rest) =>
        (some (if down then -(Json.decimal ds : Int) else Json.decimal ds), rest)
    | rest => some (none, rest)
  match places, power with
  | none, none =>
    let n : Int := Json.decimal whole
    (integer? (if negative then -n else n)).map (·, rest)
  | _, _ =>
    let behind := places.getD []
    let x := Decimal.nearest (Json.decimal (whole ++ behind)) (power.getD 0 - behind.length)
    if x.isInf && !negative then none else some (.float (if negative then -x else x), rest)

def isHexDigit (c : Char) : Bool := (Json.hexValue? c).isSome

def number? : Reading Value
  | '0' :: 'x' :: rest => based 16 isHexDigit rest
  | '0' :: 'o' :: rest => based 8 (fun c => '0' ≤ c && c ≤ '7') rest
  | '0' :: 'b' :: rest => based 2 (fun c => c = '0' || c = '1') rest
  | '+' :: rest => signed false rest
  | '-' :: rest => signed true rest
  | cs => signed false cs
where
  /-- A number behind its sign. -/
  signed (negative : Bool) : List Char → Option (Value × List Char)
    | 'i' :: 'n' :: 'f' :: rest =>
      some (.float (if negative then -(1.0 / 0.0) else 1.0 / 0.0), rest)
    | 'n' :: 'a' :: 'n' :: rest => some (.float (0.0 / 0.0), rest)
    | cs => decimal? negative cs

/-! Dates and times -/

/-- A number of exactly `n` digits between two bounds. -/
def field? (n low high : Nat) (cs : List Char) : Option (Nat × List Char) :=
  let ds := cs.take n
  let value := Json.decimal ds
  if ds.length = n ∧ ds.all Char.isDigit ∧ low ≤ value ∧ value ≤ high then
    some (value, cs.drop n)
  else none

def expect? (c : Char) : List Char → Option (List Char)
  | d :: rest => if d = c then some rest else none
  | [] => none

def daysIn (year month : Nat) : Nat :=
  if month = 2 then
    if year % 4 = 0 ∧ (year % 100 ≠ 0 ∨ year % 400 = 0) then 29 else 28
  else if month = 4 ∨ month = 6 ∨ month = 9 ∨ month = 11 then 30
  else 31

def date? : Reading (List Char) := fun text => do
  let (year, cs) ← field? 4 0 9999 text
  let (month, cs) ← field? 2 1 12 (← expect? '-' cs)
  let (_, cs) ← field? 2 1 (daysIn year month) (← expect? '-' cs)
  some (text.take 10, cs)

def time? : Reading (List Char) := fun text => do
  let (_, cs) ← field? 2 0 23 text
  let (_, cs) ← field? 2 0 59 (← expect? ':' cs)
  let (_, cs) ← field? 2 0 60 (← expect? ':' cs)
  match cs with
  | '.' :: rest =>
    match rest.span Char.isDigit with
    | ([], _) => some (text.take 8, cs)
    | (ds, rest) => some (text.take 8 ++ '.' :: ds, rest)
  | cs => some (text.take 8, cs)

/-- What follows a time: the text of a zone, or nothing. -/
def zone? : Reading (List Char) := fun text =>
  match text with
  | 'Z' :: rest | 'z' :: rest => some (text.take 1, rest)
  | '+' :: rest | '-' :: rest => do
    let (_, cs) ← field? 2 0 23 rest
    let (_, cs) ← field? 2 0 59 (← expect? ':' cs)
    some (text.take 6, cs)
  | _ => some ([], text)

/-- What follows a date: the text of a time with a zone, or nothing. -/
def timeOfDay? : Reading (List Char) := fun text =>
  match text with
  | c :: rest =>
    if c = 'T' ∨ c = 't' ∨ c = ' ' then
      match time? rest with
      | some (time, rest) => (zone? rest).map fun (zone, rest) => (c :: time ++ zone, rest)
      | none => some ([], text)
    else some ([], text)
  | [] => some ([], text)

/-- A date, a time or both. It is a table with its text as the one entry. -/
def moment? : Reading Value := fun cs => do
  let (text, rest) ← match date? cs with
    | some (date, rest) => (timeOfDay? rest).map fun (time, rest) => (date ++ time, rest)
    | none => time? cs
  some (.table [("moment", .text (String.ofList text))], rest)

def numeric? (cs : List Char) : Option (Value × List Char) :=
  match moment? cs with
  | some found => some found
  | none => number? cs

end StreamLayers.Toml
