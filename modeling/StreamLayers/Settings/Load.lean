import StreamLayers.Environment
import StreamLayers.Settings
import StreamLayers.Settings.Environment
import StreamLayers.Toml.Parser

/-!
Where settings come from: the defaults, on top of them a file, and above both the environment.
-/

namespace StreamLayers

namespace Value

mutual

/-- Lays `upper` on `lower`: a table on a table entry by entry, anything else as a whole. -/
def merge : (upper lower : Value) → Value
  | .table upper, .table lower => .table (mergeEntries upper lower)
  | upper, _ => upper

def mergeEntries : (upper lower : List (String × Value)) → List (String × Value)
  | [], lower => lower
  | e :: rest, lower => mergeEntries rest (mergeEntry e lower)

def mergeEntry : String × Value → List (String × Value) → List (String × Value)
  | (key, v), lower =>
    match lower.lookup key with
    | some w => setEntry key (merge v w) lower
    | none => setEntry key v lower

end

end Value

/-- The data of environment variables with their texts; where two give the same setting, the later
one does. -/
def Environment.toValue (env : Environment) : Value :=
  env.foldl (fun v (name, text) =>
    match path? name with
    | some path => (nest path (read text)).merge v
    | none => v) (.table [])

namespace Settings

inductive LoadFailure where
  /-- A file that cannot be read, or data of the wrong kind. -/
  | unreadable
  | invalid (e : Fault)
  deriving DecidableEq, Repr

def ofData (data : Value) : Except LoadFailure Settings :=
  match ofValue? false data with
  | none => .error .unreadable
  | some c =>
    match c.validate with
    | .error e => .error (.invalid e)
    | .ok () => .ok c

/-- Loads settings from the text of a file, if there is one, and from environment variables, which
are taken in the order of their names. -/
def load (file : Option String) (env : Environment) : Except LoadFailure Settings :=
  let defaults := Settings.toValue {}
  let environment := Environment.toValue (env.mergeSort fun a b => a.1 ≤ b.1)
  match file with
  | none => ofData (environment.merge defaults)
  | some text =>
    match Toml.parse? text with
    | none => .error .unreadable
    | some v => ofData (environment.merge (v.merge defaults))

inductive LookupFailure where
  /-- Some number is beyond signed 64-bit words. -/
  | tooLarge
  | missing (key : String)
  /-- The key goes on where there is no table. -/
  | noTable (key : String)
  /-- The key leads to a table. -/
  | notPlain (key : String)
  deriving DecidableEq, Repr

def LookupFailure.message : LookupFailure → String
  | .tooLarge => "u64 value was too large"
  | .missing key => s!"Key '{key}' not found"
  | .noTable key => s!"Invalid key path: {key}"
  | .notPlain key => s!"Value at '{key}' is not a simple type"

def sizes (c : Settings) : List Nat :=
  c.replay.threshold.toList
    ++ [c.replay.readChunk, c.pipe.bufferSize, c.pipe.chunkSize, c.tee.drainChunk]

/-- Follows the parts of a key through tables. What is null is not there. -/
def follow (key : String) : List String → Value → Except LookupFailure Value
  | [], v => .ok v
  | part :: parts, .table entries =>
    match entries.lookup part with
    | none | some .null => .error (.missing key)
    | some v => follow key parts v
  | _ :: _, _ => .error (.noTable key)

def lookup (c : Settings) (key : String) : Except LookupFailure String :=
  if c.sizes.any (signedLimit ≤ ·) then .error .tooLarge
  else
    match follow key (key.splitOn ".") c.toValue with
    | .error e => .error e
    | .ok (.text s) => .ok s
    | .ok (.int n) => .ok (toString n)
    | .ok (.bool b) => .ok (if b then "true" else "false")
    | .ok _ => .error (.notPlain key)

def below (directory name : String) : String :=
  if directory.isEmpty then name
  else if directory.endsWith "/" then directory ++ name
  else directory ++ "/" ++ name

/-- The file that settings are read from unless another one is named: below the directory for
settings, which is in the home directory unless it is set. -/
def defaultPath (s : Surroundings) : String :=
  below ((s.env.lookup "XDG_CONFIG_HOME").getD (below s.home ".config")) "replaystream/config.toml"

end Settings

end StreamLayers
