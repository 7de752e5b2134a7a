import StreamLayers.Decimal
import StreamLayers.Value

/-!
JSON texts of structured data: all on one line, or indented by two blanks a level.
-/

namespace StreamLayers.Json

def hexDigit (n : Nat) : Char := Nat.digitChar n

def escape (c : Char) : List Char :=
  if c = '"' then ['\\', '"']
  else if c = '\\' then ['\\', '\\']
  else if c = '\n' then ['\\', 'n']
  else if c = '\r' then ['\\', 'r']
  else if c = '\t' then ['\\', 't']
  else if c.toNat = 8 then ['\\', 'b']
  else if c.toNat = 12 then ['\\', 'f']
  else if c.toNat < 32 then
    ['\\', 'u', '0', '0', hexDigit (c.toNat / 16), hexDigit (c.toNat % 16)]
  else [c]

def quoted (s : String) : String :=
  String.ofList ('"' :: s.toList.flatMap escape ++ ['"'])

/-- Numbers are positional from 10⁻⁵ up to below 10¹⁶; what is no finite number is null. -/
def floatLayout : Decimal.Layout :=
  { tie := .even, positional := fun e => -5 ≤ e ∧ e < 16, nan := "null", infinity := "null"
    negativeInfinity := "null" }

def atom : Value → String
  | .null | .garbled => "null"
  | .bool b => if b then "true" else "false"
  | .int n => toString n
  | .float x => Decimal.text floatLayout x
  | .text s => quoted s
  | .list _ => "[]"
  | .table _ => "\x7b\x7d"

mutual

def compact : Value → String
  | .list items => "[" ++ compactItems items ++ "]"
  | .table entries => "\x7b" ++ compactEntries entries ++ "\x7d"
  | v => atom v

def compactItems : List Value → String
  | [] => ""
  | [v] => compact v
  | v :: rest => compact v ++ "," ++ compactItems rest

def compactEntries : List (String × Value) → String
  | [] => ""
  | [(k, v)] => quoted k ++ ":" ++ compact v
  | (k, v) :: rest => quoted k ++ ":" ++ compact v ++ "," ++ compactEntries rest

end

def indentation (level : Nat) : String := "\n" ++ "".pushn ' ' (2 * level)

mutual

def prettyAt (level : Nat) : Value → String
  | .list (v :: rest) => "[" ++ prettyItems (level + 1) (v :: rest) ++ indentation level ++ "]"
  | .table (e :: rest) =>
    "\x7b" ++ prettyEntries (level + 1) (e :: rest) ++ indentation level ++ "\x7d"
  | v => atom v

def prettyItems (level : Nat) : List Value → String
  | [] => ""
  | [v] => indentation level ++ prettyAt level v
  | v :: rest => indentation level ++ prettyAt level v ++ "," ++ prettyItems level rest

def prettyEntries (level : Nat) : List (String × Value) → String
  | [] => ""
  | [(k, v)] => indentation level ++ quoted k ++ ": " ++ prettyAt level v
  | (k, v) :: rest =>
    indentation level ++ quoted k ++ ": " ++ prettyAt level v ++ "," ++ prettyEntries level rest

end

def pretty (v : Value) : String := prettyAt 0 v

end StreamLayers.Json
