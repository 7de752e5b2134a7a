import StreamLayers.Source

/-!
Marker extraction: of a stream, only the regions between a start and a stop marker. The scanner
takes one byte at a time; `extract` runs it over whole data and `Marker` over a source.
-/

namespace StreamLayers

inductive ScanPhase where
  /-- Looking for a start marker. -/
  | seeking
  /-- Inside a region. -/
  | copying
  | done
  deriving DecidableEq, Repr

/-- The extraction machine. While seeking, `window` is the candidate for a start marker; while
copying, it is what is held back because it may begin a stop marker; in the end, it is what is
still to be handed out. -/
structure Scanner where
  start : Bytes
  stop : Bytes
  /-- Whether the first region is the last. -/
  singlePair : Bool := false
  phase : ScanPhase
  window : Bytes := []
  /-- How many regions were closed by a stop marker. -/
  regions : Nat := 0
  deriving Repr

namespace Scanner

/-- The phase outside of all regions: with an empty start marker there is no outside. -/
def entry (start : Bytes) : ScanPhase :=
  if start.isEmpty then .copying else .seeking

def new (start stop : Bytes) (singlePair : Bool) : Scanner :=
  { start, stop, singlePair, phase := entry start }

def endRegion (s : Scanner) : Scanner :=
  { s with
    window := []
    regions := s.regions + 1
    phase := if s.singlePair then .done else entry s.start }

/-- Takes one byte and hands out at most one. -/
def step (s : Scanner) (b : UInt8) : Option UInt8 × Scanner :=
  match s.phase with
  | .seeking =>
    let pushed := s.window ++ [b]
    let window := if s.start.length < pushed.length then pushed.drop 1 else pushed
    if window = s.start then (none, { s with window := [], phase := .copying })
    else (none, { s with window })
  | .copying =>
    if s.stop.isEmpty then (some b, s)
    else
      let pushed := s.window ++ [b]
      if pushed.length < s.stop.length then (none, { s with window := pushed })
      else if pushed = s.stop then (none, s.endRegion)
      else (pushed.head?, { s with window := pushed.drop 1 })
  | .done => (none, s)

/-- The data has ended: what a region holds back belongs to it. -/
def finish (s : Scanner) : Scanner :=
  { s with window := if s.phase = .seeking then [] else s.window, phase := .done }

def takeTail (s : Scanner) (n : Nat) : Bytes × Scanner :=
  (s.window.take n, { s with window := s.window.drop n })

private def feedOne (acc : List UInt8 × Scanner) (b : UInt8) : List UInt8 × Scanner :=
  match acc.2.step b with
  | (some c, s) => (c :: acc.1, s)
  | (none, s) => (acc.1, s)

/-- Feeds all of `data` and collects what is handed out. -/
def feed (s : Scanner) (data : Bytes) : Bytes × Scanner :=
  let (out, s) := data.foldl feedOne ([], s)
  (out.reverse, s)

private theorem foldl_feedOne (data : Bytes) (acc : List UInt8) (s : Scanner) :
    data.foldl feedOne (acc, s) =
      ((data.foldl feedOne ([], s)).1 ++ acc, (data.foldl feedOne ([], s)).2) := by
  induction data generalizing acc s with
  | nil => rfl
  | cons b rest ih =>
    simp only [List.foldl_cons, feedOne]
    split
    · rename_i c t _
      rw [ih (c :: acc), ih [c], List.append_assoc]
      rfl
    · exact ih _ _

@[simp] theorem feed_nil (s : Scanner) : s.feed [] = ([], s) := rfl

theorem feed_cons (s : Scanner) (b : UInt8) (data : Bytes) :
    s.feed (b :: data) =
      ((s.step b).1.toList ++ ((s.step b).2.feed data).1, ((s.step b).2.feed data).2) := by
  unfold feed
  rw [List.foldl_cons, feedOne]
  rcases s.step b with ⟨_ | c, t⟩
  · rfl
  · dsimp only
    rw [foldl_feedOne data [c] t]
    simp

private def scanFrom : Bytes → Nat → Scanner → List UInt8 → Bytes × Bytes × Scanner
  | [], _, s, acc => (acc.reverse, [], s)
  | b :: rest, room, s, acc =>
    if room = 0 ∨ s.phase = .done then (acc.reverse, b :: rest, s)
    else
      match s.step b with
      | (some c, s) => scanFrom rest (room - 1) s (c :: acc)
      | (none, s) => scanFrom rest room s acc

/-- Feeds bytes of `input` until `room` bytes were handed out or the scanner is done. The result is
what was handed out, what is left of the input, and the scanner. -/
def scan (s : Scanner) (room : Nat) (input : Bytes) : Bytes × Bytes × Scanner :=
  scanFrom input room s []

private theorem scanFrom_acc (input : Bytes) (room : Nat) (s : Scanner) (acc : List UInt8) :
    scanFrom input room s acc =
      (acc.reverse ++ (s.scan room input).1, (s.scan room input).2) := by
  unfold scan
  induction input generalizing room s acc with
  | nil => simp [scanFrom]
  | cons b rest ih =>
    unfold scanFrom
    split
    · simp
    · rcases s.step b with ⟨_ | c, t⟩
      · exact ih room t acc
      · dsimp only
        rw [ih (room - 1) t (c :: acc), ih (room - 1) t [c]]
        simp

@[simp] theorem scan_nil (s : Scanner) (room : Nat) : s.scan room [] = ([], [], s) := rfl

theorem scan_cons (s : Scanner) (room : Nat) (b : UInt8) (rest : Bytes) :
    s.scan room (b :: rest) =
      if room = 0 ∨ s.phase = .done then ([], b :: rest, s)
      else
        match s.step b with
        | (some c, t) => (c :: (t.scan (room - 1) rest).1, (t.scan (room - 1) rest).2)
        | (none, t) => t.scan room rest := by
  show scanFrom (b :: rest) room s [] = _
  unfold scanFrom
  split
  · rfl
  · rcases s.step b with ⟨_ | c, t⟩
    · rfl
    · exact scanFrom_acc rest (room - 1) t [c]

end Scanner

/-- The regions of `data` between the markers, one after the other. -/
def extract (data start stop : Bytes) : Bytes :=
  let (out, s) := (Scanner.new start stop false).feed data
  out ++ s.finish.window

namespace Marker

structure Settings where
  /-- Opens a region; where it is empty the data starts inside one. -/
  start : String := ""
  /-- Closes a region; where it is empty the region goes on to the end. -/
  stop : String := ""
  /-- Whether the first region is the last. -/
  singlePair : Bool := false
  deriving DecidableEq, Repr

def Settings.validate (c : Settings) : Except Fault Unit :=
  if c.start.isEmpty && c.stop.isEmpty && c.singlePair then
    .error (.invalidSettings "single_pair needs at least one marker")
  else .ok ()

end Marker

/-- A source of the regions of another source. -/
structure Marker (σ : Type) where
  source : σ
  scanner : Scanner
  /-- What was read from the source and not yet scanned. -/
  input : Bytes := []
  closed : Bool := false

namespace Marker

variable {σ : Type}

def ofMarkers (source : σ) (start stop : Bytes) (singlePair : Bool) : Marker σ :=
  { source, scanner := .new start stop singlePair }

def ofSettings (source : σ) (c : Settings) : Except Fault (Marker σ) :=
  match c.validate with
  | .error e => .error e
  | .ok () => .ok (ofMarkers source (.ofText c.start) (.ofText c.stop) c.singlePair)

def setSource (m : Marker σ) (source : σ) : Marker σ := { m with source }

def isDone (m : Marker σ) : Bool :=
  m.scanner.phase == .done && m.scanner.window.isEmpty

/-- Answers a read of `n` bytes from the buffered input, unless the source has to be read first. -/
def answer (m : Marker σ) (n : Nat) : Option Bytes × Marker σ :=
  let (out, input, scanner) := m.scanner.scan n m.input
  if scanner.phase = .done then
    let (tail, scanner) := scanner.takeTail (n - out.length)
    (some (out ++ tail), { m with input, scanner })
  else if n = 0 ∨ out ≠ [] then (some out, { m with input, scanner })
  else (none, { m with input, scanner })

variable [ByteSource σ]

/-- Reads blocks of the source, at most `fuel` of them, until one yields something or the data ends. -/
def fetch (n : Nat) : Nat → Marker σ → Option (Except Fault Bytes) × Marker σ
  | 0, m => (none, m)
  | fuel + 1, m =>
    match ByteSource.read m.source defaultChunk with
    | (.error e, s) => (some (.error e), { m with source := s })
    | (.ok [], s) =>
      let (tail, scanner) := m.scanner.finish.takeTail n
      (some (.ok tail), { m with source := s, scanner })
    | (.ok (b :: d), s) =>
      match { m with source := s, input := b :: d }.answer n with
      | (some out, m) => (some (.ok out), m)
      | (none, m) => fetch n fuel m

/-- The blocks to try before it is counted what the source can still give. -/
def patience : Nat := 4096

def read (m : Marker σ) (n : Nat) : Except Fault Bytes × Marker σ :=
  if m.closed then (.error (.closed "marker"), m)
  else
    match m.answer n with
    | (some out, m) => (.ok out, m)
    | (none, m) =>
      match m.fetch n patience with
      | (some r, m) => (r, m)
      | (none, m) =>
        let (r, m) := m.fetch n (ByteSource.left m.source + 1)
        (r.getD (.ok []), m)

def close (m : Marker σ) : Except Fault Unit × Marker σ :=
  if m.closed then (.ok (), m)
  else
    let (r, s) := ByteSource.close m.source
    (r, { m with source := s, closed := true })

instance : ByteSource (Marker σ) where
  name _ := "marker"
  read := read
  close := close
  left m := m.scanner.window.length + m.input.length + ByteSource.left m.source

end Marker

end StreamLayers
