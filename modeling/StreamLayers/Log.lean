import StreamLayers.Bytes

/-!
Logs: runs of bytes that only grow. A log packs its bytes into blocks and joins a block with the one
before it unless that is more than twice as long, so that a long log has few blocks. Adding to a log
and reading anywhere in it are cheap, and leave every earlier log as it was.
-/

namespace StreamLayers

structure Log where
  /-- The bytes in packed blocks, the newest block first. -/
  blocks : List ByteArray := []

namespace Log

/-- The bytes of blocks in front of `tail`. -/
def unpack : List ByteArray → Bytes → Bytes
  | [], tail => tail
  | b :: older, tail => unpack older (b.data.toList ++ tail)

def toList (l : Log) : Bytes := unpack l.blocks []

instance : Repr Log := ⟨fun l n => reprPrec l.toList n⟩

def total : List ByteArray → Nat
  | [] => 0
  | b :: older => total older + b.size

def size (l : Log) : Nat := total l.blocks

/-- Puts a block behind older ones, after it has taken over those that are not long enough. -/
def settle (b : ByteArray) : List ByteArray → List ByteArray
  | [] => [b]
  | a :: older => if a.size ≤ 2 * b.size then settle (a ++ b) older else b :: a :: older

def append (l : Log) (data : Bytes) : Log := ⟨settle ⟨data.toArray⟩ l.blocks⟩

/-- The bytes of blocks from position `i` up to position `j`, in front of `tail`. -/
def unpackRange : List ByteArray → Nat → Nat → Bytes → Bytes
  | [], _, _, tail => tail
  | b :: older, i, j, tail =>
    let below := total older
    unpackRange older i j ((b.extract (i - below) (j - below)).data.toList ++ tail)

/-- At most `n` bytes from position `i` on. -/
def slice (l : Log) (i n : Nat) : Bytes := unpackRange l.blocks i (i + n) []

theorem unpack_append (blocks : List ByteArray) (tail more : Bytes) :
    unpack blocks (tail ++ more) = unpack blocks tail ++ more := by
  induction blocks generalizing tail with
  | nil => rfl
  | cons b older ih => simp only [unpack, ← List.append_assoc, ih]

theorem unpack_cons (b : ByteArray) (older : List ByteArray) :
    unpack (b :: older) [] = unpack older [] ++ b.data.toList := by
  simpa [unpack] using unpack_append older [] b.data.toList

theorem length_unpack (blocks : List ByteArray) : (unpack blocks []).length = total blocks := by
  induction blocks with
  | nil => rfl
  | cons b older ih => rw [unpack_cons, List.length_append, ih]; rfl

theorem unpack_settle (b : ByteArray) (older : List ByteArray) :
    unpack (settle b older) [] = unpack older [] ++ b.data.toList := by
  induction older generalizing b with
  | nil => simp [settle, unpack]
  | cons a older ih =>
    unfold settle
    split
    · rw [ih, unpack_cons]; simp
    · rw [unpack_cons]

theorem unpackRange_eq (blocks : List ByteArray) (i j : Nat) (tail : Bytes) :
    unpackRange blocks i j tail = ((unpack blocks []).drop i).take (j - i) ++ tail := by
  induction blocks generalizing tail with
  | nil => simp [unpackRange, unpack]
  | cons b older ih =>
    have len : (unpack older []).length = total older := length_unpack older
    rw [unpackRange, ih, unpack_cons, List.drop_append, List.take_append, List.length_drop, len]
    have room : j - total older - (i - total older) = j - i - (total older - i) := by omega
    simp [List.extract, room]

@[simp] theorem toList_empty : ({} : Log).toList = [] := rfl

/-- Adding to a log adds to its bytes. -/
@[simp] theorem toList_append (l : Log) (data : Bytes) :
    (l.append data).toList = l.toList ++ data := by
  simp [toList, append, unpack_settle]

@[simp] theorem length_toList (l : Log) : l.toList.length = l.size := length_unpack l.blocks

@[simp] theorem size_empty : ({} : Log).size = 0 := rfl

@[simp] theorem size_append (l : Log) (data : Bytes) :
    (l.append data).size = l.size + data.length := by
  rw [← length_toList, toList_append, List.length_append, length_toList]

/-- A slice is what it is of the bytes. -/
theorem slice_eq (l : Log) (i n : Nat) : l.slice i n = (l.toList.drop i).take n := by
  simp [slice, toList, unpackRange_eq]

end Log

end StreamLayers
