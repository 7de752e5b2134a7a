import StreamLayers.Bytes

/-!
The books of a tee: how far it has read, which outlets were enabled for each byte, and from where on
each outlet was attached. What a sink has to hold can be read off them.
-/

namespace StreamLayers

namespace Tee

/-- What happened to each byte that a tee has read. -/
structure Ledger where
  /-- The furthest position reached. -/
  top : Nat := 0
  /-- For each byte, which outlets were enabled when it was first read. -/
  listening : List (List Bool) := []
  /-- For each outlet, how many bytes the sinks had been offered when it was attached. -/
  joined : List Nat

namespace Ledger

def start (outlets : Nat) : Ledger := { joined := List.replicate outlets 0 }

/-- Notes a position that was reached with the outlets enabled as in `flags`. -/
def note (l : Ledger) (flags : List Bool) (position : Nat) : Ledger :=
  { l with
    top := max l.top position
    listening := l.listening ++ List.replicate (position - l.top) flags }

def join (l : Ledger) (position : Nat) : Ledger := { l with joined := l.joined ++ [position] }

/-- A byte, if the outlet at `k` was enabled for it. -/
def pick (k : Nat) (entry : UInt8 × List Bool) : Option UInt8 :=
  if entry.2[k]? = some true then some entry.1 else none

/-- The bytes from position `a` on for which the outlet at `k` was enabled. -/
def heard (l : Ledger) (data : Bytes) (k a : Nat) : Bytes :=
  ((data.zip l.listening).drop a).filterMap (pick k)

variable {l : Ledger} {data : Bytes} {flags : List Bool} {k a position : Nat}

theorem note_of_le (h : position ≤ l.top) : l.note flags position = l := by
  have hz : position - l.top = 0 := Nat.sub_eq_zero_of_le h
  simp [note, hz, Nat.max_eq_left h]

theorem note_note {p q : Nat} (h : p ≤ q) : (l.note flags p).note flags q = l.note flags q := by
  have htop : max (max l.top p) q = max l.top q := by omega
  have hlen : (p - l.top) + (q - max l.top p) = q - l.top := by omega
  simp only [note, htop, List.append_assoc, List.replicate_append_replicate, hlen]

theorem length_note (h : l.listening.length = l.top) :
    (l.note flags position).listening.length = (l.note flags position).top := by
  simp only [note, List.length_append, List.length_replicate, h]
  omega

theorem filterMap_pick_all (data : Bytes) {notes : List (List Bool)}
    (h : ∀ flags ∈ notes, flags[k]? = some true) :
    (data.zip notes).filterMap (pick k) = data.take notes.length := by
  induction data generalizing notes with
  | nil => simp
  | cons b d ih =>
    cases notes with
    | nil => simp
    | cons flags rest =>
      have hrest := ih (fun f hf => h f (List.mem_cons_of_mem flags hf))
      simp [pick, h flags List.mem_cons_self, hrest]

theorem filterMap_pick_none (data : Bytes) {notes : List (List Bool)}
    (h : ∀ flags ∈ notes, ¬ flags[k]? = some true) :
    (data.zip notes).filterMap (pick k) = [] := by
  rw [List.filterMap_eq_nil_iff]
  intro entry he
  have hflags : entry.2 ∈ notes := (List.of_mem_zip (a := entry.1) (b := entry.2) he).2
  exact if_neg (h entry.2 hflags)

theorem zip_listening (h : l.listening.length = l.top) (hl : l.top ≤ data.length)
    (more : List (List Bool)) :
    data.zip (l.listening ++ more) =
      (data.take l.top).zip l.listening ++ (data.drop l.top).zip more := by
  have hlen : (data.take l.top).length = l.listening.length := by
    rw [List.length_take, Nat.min_eq_left hl, h]
  rw [← List.zip_append hlen, List.take_append_drop]

/-- New bytes are heard by the outlets that are enabled for them. -/
theorem heard_note (h : l.listening.length = l.top) (hl : l.top ≤ data.length) (ha : a ≤ l.top) :
    (l.note flags position).heard data k a =
      l.heard data k a ++
        if flags[k]? = some true then (data.take position).drop l.top else [] := by
  have hold : data.zip l.listening = (data.take l.top).zip l.listening := by
    have hz := zip_listening h hl []
    rw [List.append_nil, List.zip_nil_right, List.append_nil] at hz
    exact hz
  have hlen : a ≤ ((data.take l.top).zip l.listening).length := by
    rw [List.length_zip, List.length_take, h]
    omega
  have hnew : ((data.drop l.top).zip (List.replicate (position - l.top) flags)).filterMap (pick k) =
      if flags[k]? = some true then (data.take position).drop l.top else [] := by
    by_cases hf : flags[k]? = some true
    · rw [if_pos hf, filterMap_pick_all, List.length_replicate, List.drop_take]
      intro f hm
      rw [List.eq_of_mem_replicate hm, hf]
    · rw [if_neg hf, filterMap_pick_none]
      intro f hm
      rw [List.eq_of_mem_replicate hm]
      exact hf
  simp only [heard, note]
  rw [zip_listening h hl, hold, List.drop_append_of_le_length hlen, List.filterMap_append, hnew]

theorem heard_top (h : l.listening.length = l.top) : l.heard data k l.top = [] := by
  have hlen : (data.zip l.listening).length ≤ l.top := by
    rw [List.length_zip, h]
    exact Nat.min_le_right data.length l.top
  rw [heard, List.drop_eq_nil_of_le hlen, List.filterMap_nil]

end Ledger

end Tee

end StreamLayers
