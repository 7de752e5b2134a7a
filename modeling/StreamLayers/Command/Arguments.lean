import StreamLayers.Command.Report

/-!
The words of a command line: switches, operands and the names of commands, read one by one from the
left.
-/

namespace StreamLayers

inductive Request where
  | extract (input : String) (start stop : Option String) (single : Bool) (output : Option String)
  | tee (input : String) (outputs : List String) (keepOpen : Bool)
  | probe (input : String) (replay : Bool) (format : OutputFormat)
  | showSettings (format : OutputFormat)
  | getSetting (key : String)
  | settingsPath
  deriving DecidableEq, Repr

/-- A request, and what holds for all requests. -/
structure Invocation where
  debug : Bool
  /-- The settings file, where it is not the default one. -/
  settingsFile : Option String
  request : Request
  deriving DecidableEq, Repr

namespace Arguments

inductive Switch where
  | help
  | version
  | debug
  | config
  | start
  | stop
  | single
  | output
  | keepOpen
  | replay
  | format
  deriving DecidableEq, Repr

namespace Switch

def letter? : Switch → Option Char
  | .help => some 'h'
  | .version => some 'V'
  | .debug => some 'd'
  | .config => some 'c'
  | .start => some 's'
  | .stop => some 'e'
  | .output => some 'o'
  | .format => some 'f'
  | .single | .keepOpen | .replay => none

def word : Switch → String
  | .help => "help"
  | .version => "version"
  | .debug => "debug"
  | .config => "config"
  | .start => "start"
  | .stop => "stop"
  | .single => "single"
  | .output => "output"
  | .keepOpen => "keep-open"
  | .replay => "replay"
  | .format => "format"

def takesValue : Switch → Bool
  | .config | .start | .stop | .output | .format => true
  | .help | .version | .debug | .single | .keepOpen | .replay => false

/-- Whether a switch can have the value. A path is not empty. -/
def admits : Switch → String → Bool
  | .config, v | .output, v => !v.isEmpty
  | .format, v => (OutputFormat.ofName? v).isSome
  | _, _ => true

end Switch

/-- How far the names of commands have led. -/
inductive Level where
  | top
  | extract
  | tee
  | probe
  | config
  | configShow
  | configGet
  | configPath
  | help
  deriving DecidableEq, Repr

namespace Level

def commands : Level → List (String × Level)
  | .top => [("extract", .extract), ("tee", .tee), ("probe", .probe), ("config", .config)]
  | .config => [("show", .configShow), ("get", .configGet), ("path", .configPath)]
  | _ => []

def topics (l : Level) : List (String × Level) :=
  if l.commands.isEmpty then [] else l.commands ++ [("help", .help)]

/-- The switches of a level; some are known everywhere. -/
def switches (l : Level) : List Switch :=
  (match l with
    | .top => [.version]
    | .extract => [.start, .stop, .single, .output]
    | .tee => [.keepOpen]
    | .probe => [.replay, .format]
    | .configShow => [.format]
    | .config | .configGet | .configPath | .help => [])
    ++ [.help, .debug, .config]

/-- Whether `s` can be the next operand after `n` others. -/
def admits : Level → (n : Nat) → (s : String) → Bool
  | .extract, n, s | .probe, n, s => n = 0 && !s.isEmpty
  | .tee, _, s => !s.isEmpty
  | .configGet, n, _ => n = 0
  | _, _, _ => false

def words : Level → String
  | .top => "replaystream"
  | .extract => "replaystream extract"
  | .tee => "replaystream tee"
  | .probe => "replaystream probe"
  | .config => "replaystream config"
  | .configShow => "replaystream config show"
  | .configGet => "replaystream config get"
  | .configPath => "replaystream config path"
  | .help => "replaystream help"

def operandWords : Level → String
  | .top | .config | .help => " <COMMAND>"
  | .extract | .probe => " <INPUT>"
  | .tee => " <INPUT> <OUTPUTS>..."
  | .configGet => " <KEY>"
  | .configShow | .configPath => ""

def usage (l : Level) : String :=
  let commands := if l.topics.isEmpty then [] else
    ["", "Commands:"] ++ l.topics.map fun (name, _) => "  " ++ name
  let options := l.switches.map fun s =>
    (match s.letter? with
      | some c => "  -" ++ toString c ++ ", --"
      | none => "      --")
      ++ s.word ++ (if s.takesValue then " <" ++ s.word.toUpper ++ ">" else "")
  "\n".intercalate
    (["Usage: " ++ l.words ++ " [OPTIONS]" ++ l.operandWords] ++ commands
      ++ ["", "Options:"] ++ options)

end Level

/-- Why a command line leads to no request. -/
inductive Halt where
  /-- Help on a level is asked for. -/
  | help (l : Level)
  | version
  | misuse
  deriving DecidableEq, Repr

structure Progress where
  level : Level := .top
  /-- The switches of this level with their values. -/
  given : List (Switch × String) := []
  operands : List String := []
  /-- The switch whose value comes next. -/
  awaiting : Option Switch := none
  /-- Whether all further words are operands. -/
  literal : Bool := false
  /-- What help is asked on. -/
  topic : Option Level := none
  /-- Whether an outer level has the debug switch. -/
  debug : Bool := false
  /-- The settings file of an outer level. -/
  settingsFile : Option String := none
  deriving Repr

namespace Progress

def has (p : Progress) (s : Switch) : Bool := (p.given.lookup s).isSome

/-- Takes a switch with its value. It can be given once at each level. -/
def give (p : Progress) (s : Switch) (value : String) : Except Halt Progress :=
  match s with
  | .help => .error (.help p.level)
  | .version => .error .version
  | s =>
    if p.has s || !s.admits value then .error .misuse
    else .ok { p with given := p.given ++ [(s, value)], awaiting := none }

/-- Takes what follows two dashes: the word of a switch, and maybe a value behind an equals sign. -/
def giveWord (p : Progress) (body : List Char) : Except Halt Progress :=
  let word := String.ofList (body.takeWhile (· ≠ '='))
  match p.level.switches.find? (·.word == word), body.dropWhile (· ≠ '=') with
  | none, _ => .error .misuse
  | some s, [] => if s.takesValue then .ok { p with awaiting := some s } else p.give s ""
  | some s, _ :: value =>
    if s.takesValue then p.give s (String.ofList value) else .error .misuse

/-- Takes what follows one dash: letters of switches, the last of which may have its value right
behind it. -/
def giveLetters : Progress → List Char → Except Halt Progress
  | p, [] => .ok p
  | p, c :: rest =>
    match p.level.switches.find? (·.letter? == some c) with
    | none => .error .misuse
    | some s =>
      if s.takesValue then
        match rest with
        | [] => .ok { p with awaiting := some s }
        | '=' :: value => p.give s (String.ofList value)
        | value => p.give s (String.ofList value)
      else
        match p.give s "" with
        | .error h => .error h
        | .ok p => p.giveLetters rest

def addOperand (p : Progress) (s : String) : Except Halt Progress :=
  if p.level.admits p.operands.length s then .ok { p with operands := p.operands ++ [s] }
  else .error .misuse

def descend (p : Progress) (level : Level) : Progress :=
  { level, debug := p.debug || p.has .debug
    settingsFile := (p.given.lookup .config).or p.settingsFile }

/-- Takes a word that is no value of a switch. -/
def takeWord (p : Progress) (word : String) : Except Halt Progress :=
  match word.toList with
  | ['-', '-'] => .ok { p with literal := true }
  | '-' :: '-' :: body => p.giveWord body
  | '-' :: c :: letters => p.giveLetters (c :: letters)
  | _ =>
    match p.level.topics.lookup word with
    | some .help => .ok { p with topic := some p.level }
    | some level => .ok (p.descend level)
    | none => p.addOperand word

/-- Whether a word is a switch by its looks. One dash alone is not. -/
def looksLikeSwitch (word : String) : Bool :=
  match word.toList with
  | '-' :: _ :: _ => true
  | _ => false

def step (p : Progress) (word : String) : Except Halt Progress :=
  match p.topic, p.awaiting with
  | some level, _ =>
    match level.topics.lookup word with
    | some level => .ok { p with topic := some level }
    | none => .error .misuse
  | none, some s => if looksLikeSwitch word then .error .misuse else p.give s word
  | none, none => if p.literal then p.addOperand word else p.takeWord word

def format (p : Progress) (dflt : OutputFormat) : OutputFormat :=
  ((p.given.lookup .format).bind OutputFormat.ofName?).getD dflt

def request? (p : Progress) : Option Request :=
  match p.level, p.operands with
  | .extract, [input] =>
    some (.extract input (p.given.lookup .start) (p.given.lookup .stop) (p.has .single)
      (p.given.lookup .output))
  | .tee, input :: output :: outputs => some (.tee input (output :: outputs) (p.has .keepOpen))
  | .probe, [input] => some (.probe input (p.has .replay) (p.format .text))
  | .configShow, [] => some (.showSettings (p.format .toml))
  | .configGet, [key] => some (.getSetting key)
  | .configPath, [] => some .settingsPath
  | _, _ => none

def finish (p : Progress) : Except Halt Invocation :=
  match p.topic, p.awaiting, p.request? with
  | some level, _, _ => .error (.help level)
  | none, none, some request =>
    let p := p.descend p.level
    .ok { debug := p.debug, settingsFile := p.settingsFile, request }
  | none, _, _ => .error .misuse

end Progress

def parse (words : List String) : Except Halt Invocation :=
  match words.foldlM Progress.step {} with
  | .error h => .error h
  | .ok p => p.finish

end Arguments

end StreamLayers
