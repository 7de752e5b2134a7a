import StreamLayers.Decimal
import StreamLayers.Digits
import StreamLayers.Value

/-!
Reading JSON. Tables keep repeated keys, so that their reader can refuse them.
-/

namespace StreamLayers.Json

def isBlank (c : Char) : Bool := c = ' ' || c = '\n' || c = '\t' || c = '\r'

def skipBlanks (cs : List Char) : List Char := cs.dropWhile isBlank

def hexValue? (c : Char) : Option Nat :=
  if '0' ≤ c ∧ c ≤ '9' then some (c.toNat - 48)
  else if 'a' ≤ c ∧ c ≤ 'f' then some (c.toNat - 87)
  else if 'A' ≤ c ∧ c ≤ 'F' then some (c.toNat - 55)
  else none

def hexNumber? (digits : List Char) : Option Nat :=
  digits.foldlM (fun n c => (hexValue? c).map (16 * n + ·)) 0

/-- A part of a string: a character, or an escape with the number of a UTF-16 unit. -/
inductive Piece where
  | char (c : Char)
  | unit (n : Nat)
  deriving DecidableEq, Repr

def letterEscape? (c : Char) : Option Char :=
  if c = '"' ∨ c = '\\' ∨ c = '/' then some c
  else if c = 'b' then some (Char.ofNat 8)
  else if c = 'f' then some (Char.ofNat 12)
  else if c = 'n' then some '\n'
  else if c = 'r' then some '\r'
  else if c = 't' then some '\t'
  else none

/-- The parts of a string up to its closing quote. -/
def pieces : List Char → Option (List Piece × List Char)
  | [] => none
  | '"' :: rest => some ([], rest)
  | '\\' :: 'u' :: a :: b :: c :: d :: rest => do
    let n ← hexNumber? [a, b, c, d]
    let (ps, rest) ← pieces rest
    some (.unit n :: ps, rest)
  | '\\' :: c :: rest => do
    let e ← letterEscape? c
    let (ps, rest) ← pieces rest
    some (.char e :: ps, rest)
  | c :: rest =>
    if c.toNat < 32 then none
    else do
      let (ps, rest) ← pieces rest
      some (.char c :: ps, rest)

def isLeading (n : Nat) : Bool := 0xD800 ≤ n && n < 0xDC00

def isTrailing (n : Nat) : Bool := 0xDC00 ≤ n && n < 0xE000

/-- The characters that the parts of a string stand for, if every unit of a pair has its partner. -/
def join : List Piece → Option (List Char)
  | [] => some []
  | .char c :: rest => (join rest).map (c :: ·)
  | .unit n :: .unit m :: rest =>
    if isLeading n && isTrailing m then
      (join rest).map (Char.ofNat (0x10000 + (n - 0xD800) * 0x400 + (m - 0xDC00)) :: ·)
    else if isLeading n || isTrailing n then none
    else (join (.unit m :: rest)).map (Char.ofNat n :: ·)
  | .unit n :: rest =>
    if isLeading n || isTrailing n then none else (join rest).map (Char.ofNat n :: ·)

/-- The string behind an opening quote; none inside if it stands for no text. -/
def string (cs : List Char) : Option (Option String × List Char) := do
  let (ps, rest) ← pieces cs
  some ((join ps).map String.ofList, rest)

/-- Takes the digits at the front, of which there must be some. -/
def digits (cs : List Char) : Option (List Char × List Char) :=
  match cs.span Char.isDigit with
  | ([], _) => none
  | split => some split

def decimal (digits : List Char) : Nat :=
  Digits.value 10 (digits.map fun c => c.toNat - 48)

def fraction : List Char → Option (Option (List Char) × List Char)
  | '.' :: rest => (digits rest).map fun (ds, rest) => (some ds, rest)
  | cs => some (none, cs)

def exponent : List Char → Option (Option Int × List Char)
  | c :: rest =>
    if c = 'e' ∨ c = 'E' then
      let (negative, rest) := match rest with
        | '-' :: rest => (true, rest)
        | '+' :: rest => (false, rest)
        | rest => (false, rest)
      (digits rest).map fun (ds, rest) =>
        (some (if negative then -(decimal ds : Int) else decimal ds), rest)
    else some (none, c :: rest)
  | [] => some (none, [])

/-- An integer that fits no word, and zero with a sign, is read as a fraction. -/
def integer (negative : Bool) (n : Nat) : Value :=
  if negative then
    if n = 0 ∨ signedLimit < n then .float (-(Decimal.nearest n 0)) else .int (-n)
  else if n < wordLimit then .int n
  else .float (Decimal.nearest n 0)

def unsigned (negative : Bool) (cs : List Char) : Option (Value × List Char) := do
  let (whole, rest) ← digits cs
  if whole.length > 1 ∧ whole.head? = some '0' then none
  else do
    let (places, rest) ← fraction rest
    let (power, rest) ← exponent rest
    match places, power with
    | none, none => some (integer negative (decimal whole), rest)
    | _, _ =>
      let behind := places.getD []
      let x := Decimal.nearest (decimal (whole ++ behind)) (power.getD 0 - behind.length)
      some (.float (if negative then -x else x), rest)

/-- A literal word at the front, and what stands for it. -/
def word (w : String) (v : Value) (cs : List Char) : Option (Value × List Char) :=
  if w.toList.isPrefixOf cs then some (v, cs.drop w.length) else none

mutual

/-- A value, at most `fuel` levels and entries deep. -/
def value : Nat → List Char → Option (Value × List Char)
  | 0, _ => none
  | fuel + 1, cs =>
    match skipBlanks cs with
    | '"' :: rest => (string rest).map fun (s, rest) => ((s.map .text).getD .garbled, rest)
    | '[' :: rest =>
      match skipBlanks rest with
      | ']' :: rest => some (.list [], rest)
      | rest => (items fuel rest).map fun (vs, rest) => (.list vs, rest)
    | '\x7b' :: rest =>
      match skipBlanks rest with
      | '\x7d' :: rest => some (.table [], rest)
      | rest => (entries fuel rest).map fun (es, rest) => ((es.map .table).getD .garbled, rest)
    | '-' :: rest => unsigned true rest
    | 'n' :: rest => word "ull" .null rest
    | 't' :: rest => word "rue" (.bool true) rest
    | 'f' :: rest => word "alse" (.bool false) rest
    | cs => unsigned false cs

def items : Nat → List Char → Option (List Value × List Char)
  | 0, _ => none
  | fuel + 1, cs => do
    let (v, rest) ← value fuel cs
    match skipBlanks rest with
    | ',' :: rest => do
      let (vs, rest) ← items fuel rest
      some (v :: vs, rest)
    | ']' :: rest => some ([v], rest)
    | _ => none

/-- The entries of a table up to its end; none inside if a key is garbled. -/
def entries : Nat → List Char → Option (Option (List (String × Value)) × List Char)
  | 0, _ => none
  | fuel + 1, cs => do
    let .cons '"' rest := skipBlanks cs | none
    let (key, rest) ← string rest
    let .cons ':' rest := skipBlanks rest | none
    let (v, rest) ← value fuel rest
    let first := key.map (·, v)
    match skipBlanks rest with
    | ',' :: rest => do
      let (es, rest) ← entries fuel rest
      some ((first.bind fun e => es.map (e :: ·)), rest)
    | '\x7d' :: rest => some (first.map ([·]), rest)
    | _ => none

end

/-- Reads a whole text. Every level and every entry takes at least one character. -/
def parse? (s : String) : Option Value := do
  let (v, rest) ← value (s.length + 1) s.toList
  if (skipBlanks rest).isEmpty then some v else none

end StreamLayers.Json
