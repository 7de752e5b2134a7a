import StreamLayers.Proofs.Store

/-!
What a store keeps through every operation, and stores that cannot be told apart. How many files a
store has made so far shows in the name of the next one and nowhere else, so a store that was
emptied is like a new one.
-/

namespace StreamLayers

namespace ThresholdStore

/-- The store as if it had made `k` files so far. -/
def recount (s : ThresholdStore) (k : Nat) : ThresholdStore := { s with filesCreated := k }

@[simp] theorem recount_threshold (s : ThresholdStore) (k : Nat) :
    (s.recount k).threshold = s.threshold := rfl

@[simp] theorem recount_memory (s : ThresholdStore) (k : Nat) :
    (s.recount k).memory = s.memory := rfl

theorem appendToFile_recount (s : ThresholdStore) (k : Nat) (data : Bytes) :
    ∃ j, (s.recount k).appendToFile data =
      ((s.appendToFile data).1, (s.appendToFile data).2.recount j) := by
  obtain ⟨threshold, directory, directoryExists, file, memory, cursor, made⟩ := s
  cases file with
  | some f => exact ⟨k, rfl⟩
  | none =>
    cases directoryExists with
    | true => exact ⟨k + 1, rfl⟩
    | false => exact ⟨k, rfl⟩

theorem spillMemory_recount (s : ThresholdStore) (k : Nat) :
    ∃ j, (s.recount k).spillMemory = (s.spillMemory.1, s.spillMemory.2.recount j) := by
  by_cases hz : s.memory.size = 0
  · exact ⟨k, by simp [spillMemory, hz]⟩
  · obtain ⟨j, hj⟩ := appendToFile_recount { s with memory := {} } k s.memory.toList
    refine ⟨j, ?_⟩
    simp only [spillMemory, recount_memory, hz, if_false]
    exact hj

theorem put_recount (s : ThresholdStore) (k : Nat) (data : Bytes) :
    ∃ j, (s.recount k).put data = ((s.put data).1, (s.put data).2.recount j) := by
  by_cases hfull : s.threshold < s.memory.size + data.length
  · obtain ⟨j, hj⟩ := spillMemory_recount s k
    rcases hs : s.spillMemory with ⟨e | u, t⟩ <;> rw [hs] at hj
    · exact ⟨j, by simp [put, hfull, hs, hj]⟩
    · by_cases hbig : t.threshold < data.length
      · obtain ⟨i, hi⟩ := appendToFile_recount t j data
        exact ⟨i, by simp [put, hfull, hs, hj, hbig, hi]⟩
      · refine ⟨j, ?_⟩
        simp only [put, recount_threshold, recount_memory, hfull, if_true, hs, hj, hbig, if_false]
        rfl
  · refine ⟨k, ?_⟩
    simp only [put, recount_threshold, recount_memory, hfull, if_false]
    rfl

theorem get_recount (s : ThresholdStore) (k n : Nat) :
    (s.recount k).get n = ((s.get n).1, (s.get n).2.recount k) := by
  have hw : (s.recount k).writePosition = s.writePosition := rfl
  have hc : (s.recount k).cursor = s.cursor := rfl
  unfold get
  rw [hw, hc]
  split <;> rfl

theorem seek_recount (s : ThresholdStore) (k target : Nat) :
    (s.recount k).seek target = ((s.seek target).1, (s.seek target).2.recount k) := by
  have hw : (s.recount k).writePosition = s.writePosition := rfl
  unfold seek
  rw [hw]
  split <;> rfl

theorem release_recount (s : ThresholdStore) (k : Nat) :
    (s.recount k).release.2 = s.release.2.recount k ∧
      ((s.recount k).release.1 = s.release.1 ∨
        ∃ p q e, s.release.1 = .error (.spillLeft p e) ∧
          (s.recount k).release.1 = .error (.spillLeft q e)) := by
  obtain ⟨threshold, directory, directoryExists, file, memory, cursor, made⟩ := s
  cases file with
  | none => exact ⟨rfl, .inl rfl⟩
  | some f =>
    obtain ⟨contents, linked⟩ := f
    cases linked with
    | true => exact ⟨rfl, .inl rfl⟩
    | false => exact ⟨rfl, .inr ⟨_, _, _, rfl, rfl⟩⟩

theorem appendToFile_settings (s : ThresholdStore) (data : Bytes) :
    (s.appendToFile data).2.threshold = s.threshold ∧
      (s.appendToFile data).2.directory = s.directory := by
  unfold appendToFile
  split
  · exact ⟨rfl, rfl⟩
  · split <;> exact ⟨rfl, rfl⟩

theorem spillMemory_settings (s : ThresholdStore) :
    s.spillMemory.2.threshold = s.threshold ∧ s.spillMemory.2.directory = s.directory := by
  unfold spillMemory
  split
  · exact ⟨rfl, rfl⟩
  · exact appendToFile_settings _ _

theorem put_settings (s : ThresholdStore) (data : Bytes) :
    (s.put data).2.threshold = s.threshold ∧ (s.put data).2.directory = s.directory := by
  obtain ⟨ht, hd⟩ := spillMemory_settings s
  unfold put
  split
  · rcases hs : s.spillMemory with ⟨e | u, t⟩ <;> rw [hs] at ht hd
    · exact ⟨ht, hd⟩
    · simp only []
      split
      · obtain ⟨ht', hd'⟩ := appendToFile_settings t data
        exact ⟨ht'.trans ht, hd'.trans hd⟩
      · exact ⟨ht, hd⟩
  · exact ⟨rfl, rfl⟩

theorem directoryMade_recount (s : ThresholdStore) (k : Nat) (name : String) :
    (s.recount k).directoryMade name = (s.directoryMade name).recount k := by
  have hd : (s.recount k).directory = s.directory := rfl
  unfold directoryMade
  rw [hd]
  split <;> rfl

theorem directoryRemoved_recount (s : ThresholdStore) (k : Nat) (name : String) :
    (s.recount k).directoryRemoved name = (s.directoryRemoved name).recount k := by
  have hd : (s.recount k).directory = s.directory := rfl
  unfold directoryRemoved
  rw [hd]
  split <;> rfl

end ThresholdStore

namespace Store

/-- The settings that a store was made with, as far as it needs them. -/
def settings : Store → Settings
  | .memory _ => ⟨none, none⟩
  | .threshold s => ⟨some s.threshold, s.directory⟩

theorem settings_build (c : Settings) (present again : Bool) :
    (c.build present).settings.build again = c.build again := by
  obtain ⟨threshold, spillDir⟩ := c
  cases threshold <;> rfl

/-- Whether a store could make a file now. -/
def hasDirectory : Store → Bool
  | .memory _ => true
  | .threshold s => s.directoryExists

/-- Two stores that differ in nothing but the number of files they have made. -/
inductive Alike : Store → Store → Prop where
  | memory (s : MemoryStore) : Alike (.memory s) (.memory s)
  | threshold (s : ThresholdStore) (k : Nat) : Alike (.threshold s) (.threshold (s.recount k))

theorem Alike.refl : (s : Store) → Alike s s
  | .memory s => .memory s
  | .threshold s => .threshold s s.filesCreated

/-- A store that was emptied is like a new one. -/
theorem alike_release (s : Store) : Alike s.release.2 (s.settings.build s.hasDirectory) := by
  cases s with
  | memory s => exact .memory {}
  | threshold s =>
    obtain ⟨hs, -⟩ := ThresholdStore.release_spec s
    simp only [release, hs]
    exact .threshold _ 0

end Store

end StreamLayers
