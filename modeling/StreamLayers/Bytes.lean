/-!
Runs of bytes and how they are cut into blocks.
-/

namespace StreamLayers

abbrev Bytes := List UInt8

namespace Bytes

/-- The UTF-8 form of a text. -/
def ofText (s : String) : Bytes := s.toUTF8.data.toList

/-- Cuts a run into blocks of `n` bytes; only the last block may be shorter. -/
def blocks (n : Nat) : Bytes → List Bytes
  | [] => []
  | b :: rest => (b :: rest.take (n - 1)) :: blocks n (rest.drop (n - 1))
termination_by data => data.length
decreasing_by simp only [List.length_drop, List.length_cons]; omega

@[simp] theorem blocks_nil (n : Nat) : blocks n [] = [] := by simp [blocks]

theorem blocks_cons (n : Nat) (b : UInt8) (rest : Bytes) :
    blocks n (b :: rest) = (b :: rest.take (n - 1)) :: blocks n (rest.drop (n - 1)) := by
  simp [blocks]

/-- Cutting loses and reorders nothing. -/
@[simp] theorem flatten_blocks (n : Nat) (data : Bytes) : (blocks n data).flatten = data := by
  fun_induction blocks n data with
  | case1 => rfl
  | case2 b rest ih => simp [ih]

/-- No block is empty. -/
theorem ne_nil_of_mem_blocks {n : Nat} {data block : Bytes} (h : block ∈ blocks n data) :
    block ≠ [] := by
  fun_induction blocks n data with
  | case1 => simp at h
  | case2 b rest ih =>
    rcases List.mem_cons.1 h with rfl | h
    · simp
    · exact ih h

/-- No block is longer than the block size. -/
theorem length_le_of_mem_blocks {n : Nat} (hn : 0 < n) {data block : Bytes}
    (h : block ∈ blocks n data) : block.length ≤ n := by
  fun_induction blocks n data with
  | case1 => simp at h
  | case2 b rest ih =>
    rcases List.mem_cons.1 h with rfl | h
    · simp only [List.length_cons, List.length_take]; omega
    · exact ih h

end Bytes

end StreamLayers
