import StreamLayers.Guard
import StreamLayers.Mock
import StreamLayers.Reader

/-!
Sources that hand out one run of bytes from front to back. Nothing is said about how much a read
gets or when it fails, so a statement over all such sources covers every way to cut the run into
reads, with failing and empty reads in between.
-/

namespace StreamLayers

/-- What an answer hands over: nothing, if it is a failure. -/
def handedOver : Except Fault Bytes → Bytes
  | .ok got => got
  | .error _ => []

namespace ByteSource

variable {σ : Type} [ByteSource σ]

/-- What reads of the given sizes get in all. -/
def reads (s : σ) : List Nat → Bytes
  | [] => []
  | n :: rest =>
    match read s n with
    | (r, s) => handedOver r ++ reads s rest

/-- The source after reads of the given sizes. -/
def afterReads (s : σ) : List Nat → σ
  | [] => s
  | n :: rest =>
    match read s n with
    | (_, s) => afterReads s rest

/-- How many of the reads of the given sizes do not fail. -/
def successes (s : σ) : List Nat → Nat
  | [] => 0
  | n :: rest =>
    match read s n with
    | (r, s) => (if r.isOk then 1 else 0) + successes s rest

/-- How many of them fail. -/
def failures (s : σ) : List Nat → Nat
  | [] => 0
  | n :: rest =>
    match read s n with
    | (r, s) => (if r.isOk then 0 else 1) + failures s rest

theorem successes_add_failures (s : σ) (sizes : List Nat) :
    successes s sizes + failures s sizes = sizes.length := by
  induction sizes generalizing s with
  | nil => rfl
  | cons n rest ih =>
    have hrest := ih (read s n).2
    simp only [successes, failures, List.length_cons]
    split <;> omega

theorem afterReads_append (s : σ) (sizes more : List Nat) :
    afterReads s (sizes ++ more) = afterReads (afterReads s sizes) more := by
  induction sizes generalizing s with
  | nil => rfl
  | cons n rest ih => exact ih _

theorem reads_append (s : σ) (sizes more : List Nat) :
    reads s (sizes ++ more) = reads s sizes ++ reads (afterReads s sizes) more := by
  induction sizes generalizing s with
  | nil => rfl
  | cons n rest ih => simp only [List.cons_append, reads, afterReads, ih, List.append_assoc]

theorem failures_append (s : σ) (sizes more : List Nat) :
    failures s (sizes ++ more) = failures s sizes + failures (afterReads s sizes) more := by
  induction sizes generalizing s with
  | nil => simp [failures, afterReads]
  | cons n rest ih => simp only [List.cons_append, failures, afterReads, ih, Nat.add_assoc]

end ByteSource

/-- What a read of at most `n` bytes may do to the bytes still to come: it takes what it gets from
the front, and takes nothing if it fails. -/
def Handed {ε : Type} (before later : Bytes) (n : Nat) : Except ε Bytes → Prop
  | .ok data => data.length ≤ n ∧ before = data ++ later
  | .error _ => later = before

/-- A source whose reads go through one run of bytes. -/
class SerialSource (σ : Type) [ByteSource σ] where
  /-- The bytes still to come. -/
  rest : σ → Bytes
  handed : ∀ (s : σ) (n : Nat),
    Handed (rest s) (rest (ByteSource.read s n).2) n (ByteSource.read s n).1

theorem ByteSource.reads_append_rest {σ : Type} [ByteSource σ] [SerialSource σ] (s : σ)
    (sizes : List Nat) :
    reads s sizes ++ SerialSource.rest (afterReads s sizes) = SerialSource.rest s := by
  induction sizes generalizing s with
  | nil => rfl
  | cons n sizes ih =>
    have hhanded := SerialSource.handed s n
    have hrest := ih (read s n).2
    rw [reads, afterReads]
    rcases hr : read s n with ⟨e | got, t⟩ <;> rw [hr] at hhanded hrest
    · exact hrest.trans hhanded
    · rw [hhanded.2, ← hrest, List.append_assoc]
      rfl

/-- Sources that hold no more bytes than they say is left. -/
class BoundedSource (σ : Type) [ByteSource σ] [SerialSource σ] : Prop where
  length_rest_le : ∀ s : σ, (SerialSource.rest s).length ≤ ByteSource.left s

/-- A source whose reads may fail, but get something otherwise, as long as there are bytes to
come. -/
def Steady {σ : Type} [ByteSource σ] [SerialSource σ] (s : σ) : Prop :=
  ∀ sizes n, 0 < n → (ByteSource.read (ByteSource.afterReads s sizes) n).1 = .ok [] →
    SerialSource.rest (ByteSource.afterReads s sizes) = []

theorem Steady.afterReads {σ : Type} [ByteSource σ] [SerialSource σ] {s : σ} (h : Steady s)
    (sizes : List Nat) : Steady (ByteSource.afterReads s sizes) := by
  intro more n hn
  rw [← ByteSource.afterReads_append]
  exact h (sizes ++ more) n hn

/-- At most `f` of the reads of blocks of a source fail, however many of them there are. -/
def FailsAtMost {σ : Type} [ByteSource σ] (s : σ) (f : Nat) : Prop :=
  ∀ blocks, ByteSource.failures s (List.replicate blocks defaultChunk) ≤ f

theorem handed_take {ε : Type} (bytes : Bytes) {m n : Nat} (h : m ≤ n) :
    Handed (ε := ε) bytes (bytes.drop m) n (.ok (bytes.take m)) :=
  ⟨Nat.le_trans (List.length_take_le m bytes) h, (List.take_append_drop m bytes).symm⟩

theorem capped_le (cap : Option Nat) (n : Nat) : capped cap n ≤ n := by
  cases cap with
  | none => exact Nat.le_refl n
  | some m => exact Nat.min_le_left n m

theorem capped_pos {cap : Option Nat} (hcap : cap ≠ some 0) {n : Nat} (hn : 0 < n) :
    0 < capped cap n := by
  cases cap with
  | none => exact hn
  | some m =>
    have hm : m ≠ 0 := fun hz => hcap (congrArg some hz)
    simp only [capped]
    omega

namespace Reader

/-- The bytes of a script. -/
def bytes : Reader → Bytes
  | [] => []
  | .bytes data :: rest => data ++ bytes rest
  | .nothing :: rest => bytes rest
  | .fails _ :: rest => bytes rest

/-- How often a script fails. -/
def faults : Reader → Nat
  | [] => 0
  | .bytes _ :: rest => faults rest
  | .nothing :: rest => faults rest
  | .fails _ :: rest => faults rest + 1

/-- A read that fails has used up a failure of the script. -/
theorem faults_read (r : Reader) (n : Nat) :
    (if (r.read n).1.isOk then 0 else 1) + (r.read n).2.faults = r.faults := by
  induction r with
  | nil => rfl
  | cons item rest ih =>
    cases item with
    | bytes data =>
      cases data with
      | nil => exact ih
      | cons b d => exact Nat.zero_add _
    | nothing => exact Nat.zero_add _
    | fails e => exact Nat.add_comm _ _

theorem handed_run (b : UInt8) (d : Bytes) (rest : Reader) (n : Nat) :
    Handed (ε := OsError) (bytes (.bytes (b :: d) :: rest))
      (bytes (.bytes ((b :: d).drop n) :: rest)) n (.ok ((b :: d).take n)) := by
  refine ⟨List.length_take_le n (b :: d), ?_⟩
  rw [bytes, bytes, ← List.append_assoc, List.take_append_drop]

theorem handed_read (r : Reader) (n : Nat) :
    Handed r.bytes (r.read n).2.bytes n (r.read n).1 := by
  induction r with
  | nil => exact ⟨Nat.zero_le n, rfl⟩
  | cons item rest ih =>
    cases item with
    | bytes data =>
      cases data with
      | nil => exact ih
      | cons b d => exact handed_run b d rest n
    | nothing => exact ⟨Nat.zero_le n, rfl⟩
    | fails e => exact rfl

theorem handed_readUninterrupted (r : Reader) (n : Nat) :
    Handed r.bytes (r.readUninterrupted n).2.bytes n (r.readUninterrupted n).1 := by
  induction r with
  | nil => exact ⟨Nat.zero_le n, rfl⟩
  | cons item rest ih =>
    cases item with
    | bytes data =>
      cases data with
      | nil => exact ih
      | cons b d => exact handed_run b d rest n
    | nothing => exact ⟨Nat.zero_le n, rfl⟩
    | fails e =>
      unfold readUninterrupted
      by_cases hi : e.kind = .interrupted
      · simp only [hi, if_true]
        exact ih
      · simp only [hi, if_false]
        exact rfl

theorem length_bytes (r : Reader) : r.bytes.length = r.left := by
  induction r with
  | nil => rfl
  | cons item rest ih => cases item <;> simp [bytes, left, ih]

end Reader

instance : SerialSource MockSource where
  rest s := s.rest
  handed s n := by
    have hle : ∀ m, s.allowance n = some m → m ≤ n := by
      intro m hm
      have hc := capped_le s.maxRead n
      unfold MockSource.allowance at hm
      split at hm
      · obtain rfl := Option.some.inj hm
        exact hc
      · split at hm
        · cases hm
        · obtain rfl := Option.some.inj hm
          omega
    simp only [ByteSource.read]
    have ha : ({ s with reads := s.reads + 1 } : MockSource).allowance n = s.allowance n := rfl
    rw [ha]
    split
    · rfl
    · rename_i m hm
      exact handed_take s.rest (hle m hm)

instance : SerialSource ReaderSource where
  rest s := (s.reader.map Reader.bytes).getD []
  handed s n := by
    cases hs : s.reader with
    | none => simp [ByteSource.read, hs, Handed]
    | some r =>
      have h := r.handed_readUninterrupted n
      rcases hr : r.readUninterrupted n with ⟨e | d, q⟩ <;> rw [hr] at h <;>
        simp only [ByteSource.read, hs, hr] <;> exact h

instance : SerialSource PlainSource where
  rest s := s.reader.bytes
  handed s n := by
    have h := s.reader.handed_read (capped s.maxRead n)
    rcases hr : s.reader.read (capped s.maxRead n) with ⟨e | d, q⟩ <;> rw [hr] at h <;>
      simp only [ByteSource.read, hr]
    · exact h
    · exact ⟨Nat.le_trans h.1 (capped_le s.maxRead n), h.2⟩

instance {σ : Type} [ByteSource σ] [SerialSource σ] : SerialSource (Once σ) where
  rest g := SerialSource.rest g.inner
  handed g n := SerialSource.handed g.inner n

instance : BoundedSource MockSource where
  length_rest_le s := Nat.le_refl s.rest.length

instance : BoundedSource ReaderSource where
  length_rest_le s := by
    rcases s with ⟨_ | r⟩
    · exact Nat.le_refl 0
    · exact Nat.le_of_eq r.length_bytes

instance : BoundedSource PlainSource where
  length_rest_le s := Nat.le_of_eq s.reader.length_bytes

instance {σ : Type} [ByteSource σ] [SerialSource σ] [BoundedSource σ] : BoundedSource (Once σ) where
  length_rest_le g := BoundedSource.length_rest_le g.inner

theorem Reader.read_of_forall {r : Reader} (h : ∀ item ∈ r, item ≠ .nothing) (n : Nat) :
    (∀ item ∈ (r.read n).2, item ≠ .nothing) ∧ (0 < n → (r.read n).1 = .ok [] → r.bytes = []) := by
  induction r with
  | nil => exact ⟨h, fun _ _ => rfl⟩
  | cons item rest ih =>
    have hrest := (List.forall_mem_cons.1 h).2
    cases item with
    | bytes data =>
      cases data with
      | nil => exact ih hrest
      | cons b d =>
        refine ⟨List.forall_mem_cons.2 ⟨nofun, hrest⟩, ?_⟩
        intro hn hr
        have hnil := Except.ok.inj hr
        rw [List.take_eq_nil_iff] at hnil
        rcases hnil with hz | hnone
        · omega
        · cases hnone
    | nothing => exact absurd rfl (h .nothing List.mem_cons_self)
    | fails e => exact ⟨hrest, fun _ hr => by cases hr⟩

/-- A read of a plain source fails just if the read of its script does. -/
theorem PlainSource.read_eq (s : PlainSource) (n : Nat) :
    (ByteSource.read s n).1.isOk = (s.reader.read (capped s.maxRead n)).1.isOk ∧
      (ByteSource.read s n).2 = { s with reader := (s.reader.read (capped s.maxRead n)).2 } := by
  simp only [ByteSource.read]
  rcases s.reader.read (capped s.maxRead n) with ⟨e | d, q⟩
  · exact ⟨rfl, rfl⟩
  · exact ⟨rfl, rfl⟩

/-- A script without empty answers is steady, however its bytes are cut and wherever it fails. -/
theorem steady_plain {r : Reader} (h : ∀ item ∈ r, item ≠ .nothing) {cap : Option Nat}
    (hcap : cap ≠ some 0) : Steady (⟨r, cap⟩ : PlainSource) := by
  intro sizes
  induction sizes generalizing r with
  | nil =>
    intro n hn hr
    have hpos := capped_pos hcap hn
    have hread := (Reader.read_of_forall h (capped cap n)).2 hpos
    rcases hq : r.read (capped cap n) with ⟨e | d, q⟩ <;>
      simp only [ByteSource.afterReads, ByteSource.read, hq] at hr hread
    · cases hr
    · exact hread (congrArg _ (Except.ok.inj hr))
  | cons m rest ih =>
    have hkept := (Reader.read_of_forall h (capped cap m)).1
    have hsource := (PlainSource.read_eq ⟨r, cap⟩ m).2
    simp only [ByteSource.afterReads, hsource]
    exact ih hkept

/-- A script fails no more often than it says. -/
theorem failsAtMost_plain (r : Reader) (cap : Option Nat) :
    FailsAtMost (⟨r, cap⟩ : PlainSource) r.faults := by
  intro blocks
  induction blocks generalizing r with
  | zero => exact Nat.zero_le _
  | succ blocks ih =>
    have hfaults := r.faults_read (capped cap defaultChunk)
    have hrest := ih (r.read (capped cap defaultChunk)).2
    obtain ⟨hok, hafter⟩ := PlainSource.read_eq ⟨r, cap⟩ defaultChunk
    simp only [List.replicate_succ, ByteSource.failures, hok, hafter]
    omega

end StreamLayers
