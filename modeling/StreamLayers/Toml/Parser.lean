import StreamLayers.Toml.Scalar

/-!
Reading TOML documents: values with their parts, and the tables that lines and headers build up.
-/

namespace StreamLayers.Toml

/-- A part of a document while it is being read. -/
inductive Node where
  /-- A finished value. -/
  | value (v : Value)
  /-- A table. It is open as long as no header names it, and dotted if a key with points made it. -/
  | table (isOpen dotted : Bool) (fields : List (String × Node))
  /-- Tables under headers in double brackets, the last one first. -/
  | tables (last : List (String × Node)) (earlier : List (List (String × Node)))
  deriving Inhabited

abbrev Fields := List (String × Node)

mutual

def Node.toValue : Node → Value
  | .value v => v
  | .table _ _ fields => .table (fieldValues fields)
  | .tables last earlier => .list (tableValues earlier [.table (fieldValues last)])

def fieldValues : List (String × Node) → List (String × Value)
  | [] => []
  | (k, n) :: rest => (k, n.toValue) :: fieldValues rest

/-- Tables that are held with the last one first, in front of `later`. -/
def tableValues : List (List (String × Node)) → List Value → List Value
  | [], later => later
  | fields :: rest, later => tableValues rest (.table (fieldValues fields) :: later)

end

namespace Fields

def set (key : String) (n : Node) (fields : Fields) : Fields := Value.setEntry key n fields

/-- Changes the table that a path leads to. Tables that are not there are made; `dotted` tells
whether the path comes from a key with points, which may not enter tables that a header names. The
change is told whether the table it gets is dotted. -/
def descend (dotted : Bool) (change : Bool → Fields → Option Fields) :
    (path : List String) → (here : Bool) → Fields → Option Fields
  | [], here, fields => change here fields
  | key :: path, _, fields =>
    match fields.lookup key with
    | none => do
      let sub ← descend dotted change path dotted []
      some (fields.set key (.table true dotted sub))
    | some (.value _) => none
    | some (.tables last earlier) => do
      let last ← descend dotted change path false last
      some (fields.set key (.tables last earlier))
    | some (.table isOpen d sub) =>
      if dotted && !isOpen then none
      else do
        let sub ← descend dotted change path d sub
        some (fields.set key (.table isOpen d sub))

/-- Adds an entry under a key, which may have points. Nothing may be there yet, and an entry is added
either to the table at hand or to one that keys with points have made. -/
def add (fields : Fields) (key : List String) (v : Value) : Option Fields :=
  match key.getLast? with
  | none => none
  | some name =>
    let path := key.dropLast
    descend true (fun here fields =>
      if here = path.isEmpty ∨ (fields.lookup name).isSome then none
      else some (fields.set name (.value v))) path false fields

/-- Opens the table that a header names. It may be there if no header has named it before. -/
def openTable (fields : Fields) (key : List String) : Option Fields :=
  match key.getLast? with
  | none => none
  | some name =>
    descend false (fun _ fields =>
      match fields.lookup name with
      | none => some (fields.set name (.table false false []))
      | some (.table true false sub) => some (fields.set name (.table false false sub))
      | some _ => none) key.dropLast false fields

/-- Opens one more of the tables that a header in double brackets names. -/
def openNext (fields : Fields) (key : List String) : Option Fields :=
  match key.getLast? with
  | none => none
  | some name =>
    descend false (fun _ fields =>
      match fields.lookup name with
      | none => some (fields.set name (.tables [] []))
      | some (.tables last earlier) => some (fields.set name (.tables [] (last :: earlier)))
      | some _ => none) key.dropLast false fields

end Fields

def skipSpace (inComment : Bool) : List Char → List Char
  | [] => []
  | '\r' :: '\n' :: rest => skipSpace false rest
  | c :: rest =>
    if c = '\n' then skipSpace false rest
    else if inComment then if isPlain c then skipSpace true rest else c :: rest
    else if isBlank c then skipSpace false rest
    else if c = '#' then skipSpace true rest
    else c :: rest

/-- What is left behind the end of a line; there may be a comment before it. -/
def endLine? (cs : List Char) : Option (List Char) :=
  let rest := match skipBlanks cs with
    | '#' :: rest => rest.dropWhile isPlain
    | rest => rest
  match rest with
  | [] => some []
  | rest => newline? rest

def assignment? (cs : List Char) : Option (List String × List Char) := do
  let (key, rest) ← key? cs
  let rest ← expect? '=' rest
  some (key, skipBlanks rest)

def word? (w : String) (v : Value) (cs : List Char) : Option (Value × List Char) :=
  if w.toList.isPrefixOf cs then some (v, cs.drop w.length) else none

mutual

/-- A value, at most `fuel` levels and parts deep, with room for `room` levels. -/
def value : (fuel room : Nat) → Reading Value
  | 0, _, _ => none
  | fuel + 1, room, cs =>
    match cs with
    | '[' :: rest =>
      match room with
      | 0 => none
      | room + 1 =>
        (items fuel room (skipSpace false rest)).map fun (vs, rest) => (.list vs, rest)
    | '\x7b' :: rest =>
      match room with
      | 0 => none
      | room + 1 =>
        match skipBlanks rest with
        | '\x7d' :: rest => some (.table [], rest)
        | rest => (inline fuel room [] rest).map fun (fs, rest) => (.table (fieldValues fs), rest)
    | '"' :: _ | '\'' :: _ => (string? cs).map fun (s, rest) => (.text (String.ofList s), rest)
    | 't' :: _ => word? "true" (.bool true) cs
    | 'f' :: _ => word? "false" (.bool false) cs
    | cs => numeric? cs

def items : (fuel room : Nat) → Reading (List Value)
  | 0, _, _ => none
  | _ + 1, _, ']' :: rest => some ([], rest)
  | fuel + 1, room, cs => do
    let (v, rest) ← value fuel room cs
    match skipSpace false rest with
    | ',' :: rest => do
      let (vs, rest) ← items fuel room (skipSpace false rest)
      some (v :: vs, rest)
    | ']' :: rest => some ([v], rest)
    | _ => none

/-- The entries of a table within a line up to its end, behind those read so far. -/
def inline : (fuel room : Nat) → Fields → Reading Fields
  | 0, _, _, _ => none
  | fuel + 1, room, fields, cs => do
    let (key, rest) ← assignment? cs
    let (v, rest) ← value fuel room rest
    let fields ← fields.add key v
    match skipBlanks rest with
    | ',' :: rest => inline fuel room fields rest
    | '\x7d' :: rest => some (fields, rest)
    | _ => none

end

/-- What was read of a document, and the header of the table that lines now belong to. -/
structure Draft where
  fields : Fields := []
  header : List String := []

namespace Draft

def add (d : Draft) (key : List String) (v : Value) : Option Draft := do
  let fields ← Fields.descend false (fun _ fields => fields.add key v) d.header false d.fields
  some { d with fields }

/-- Takes one line that is neither empty nor a comment; a value in it is read with `fuel`. -/
def line (fuel : Nat) (d : Draft) : List Char → Option (Draft × List Char)
  | '[' :: '[' :: rest => do
    let (key, rest) ← key? rest
    let rest ← endLine? (← expect? ']' (← expect? ']' rest))
    some (⟨← d.fields.openNext key, key⟩, rest)
  | '[' :: rest => do
    let (key, rest) ← key? rest
    let rest ← endLine? (← expect? ']' rest)
    some (⟨← d.fields.openTable key, key⟩, rest)
  | cs => do
    let (key, rest) ← assignment? cs
    let (v, rest) ← value fuel depthLimit rest
    let rest ← endLine? rest
    some (← d.add key v, rest)

/-- Takes all lines; every one but the last takes at least one character, so that `fuel` stays ahead of
the length of the rest. -/
def lines : Nat → Draft → List Char → Option Draft
  | 0, _, _ => none
  | fuel + 1, d, cs =>
    match skipBlanks cs with
    | [] => some d
    | c :: rest =>
      if c = '#' ∨ c = '\n' ∨ c = '\r' then do
        let rest ← endLine? (c :: rest)
        lines fuel d rest
      else do
        let (d, rest) ← d.line fuel (c :: rest)
        lines fuel d rest

end Draft

/-- Reads a document. A byte order mark may stand before it. -/
def parse? (s : String) : Option Value := do
  let cs := match s.toList with
    | c :: rest => if c.toNat = 0xFEFF then rest else c :: rest
    | [] => []
  let d ← Draft.lines (cs.length + 1) {} cs
  some (.table (fieldValues d.fields))

end StreamLayers.Toml
