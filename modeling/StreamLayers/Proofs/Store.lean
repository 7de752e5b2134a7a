import StreamLayers.Scenario.Store

/-!
Stores as logs with a cursor. A store of either kind holds one run of bytes, whatever part of it
lies in a file; what each operation does to that run and to the cursor is stated once here.
-/

namespace StreamLayers

namespace ThresholdStore

variable {s t : ThresholdStore} {data : Bytes}

theorem appendToFile_spec (h : s.appendToFile data = (.ok (), t)) :
    t.spilled.toList = s.spilled.toList ++ data ∧ t.memory = s.memory ∧ t.cursor = s.cursor := by
  unfold appendToFile at h
  cases hf : s.file with
  | some f =>
    simp only [hf, Prod.mk.injEq, true_and] at h
    subst h
    simp [spilled, hf]
  | none =>
    simp only [hf] at h
    split at h
    · simp only [Prod.mk.injEq, true_and] at h
      subst h
      simp [spilled, hf]
    · simp at h

/-- Memory moved to the file is neither lost nor kept twice. -/
theorem spillMemory_spec (h : s.spillMemory = (.ok (), t)) :
    t.spilled.toList = s.spilled.toList ++ s.memory.toList ∧ t.memory.toList = [] ∧
      t.cursor = s.cursor := by
  unfold spillMemory at h
  split at h
  · rename_i hz
    simp only [Prod.mk.injEq, true_and] at h
    subst h
    have hm : s.memory.toList = [] := List.eq_nil_of_length_eq_zero (by simp [hz])
    simp [hm]
  · obtain ⟨hs, hm, hc⟩ := appendToFile_spec h
    exact ⟨hs, by rw [hm]; rfl, hc⟩

theorem put_spec (h : s.put data = (.ok (), t)) :
    t.spilled.toList ++ t.memory.toList = s.spilled.toList ++ s.memory.toList ++ data ∧
      t.cursor = s.cursor := by
  unfold put at h
  split at h
  · rcases hm : s.spillMemory with ⟨_ | _, u⟩ <;> simp only [hm] at h
    · simp at h
    · obtain ⟨hu, he, hc⟩ := spillMemory_spec hm
      split at h
      · obtain ⟨ht, hk, hc'⟩ := appendToFile_spec h
        rw [ht, hk, he, hu, hc', hc]
        simp
      · simp only [Prod.mk.injEq, true_and] at h
        subst h
        simp only [Log.toList_append, he, List.nil_append]
        exact ⟨by rw [← hu]; rfl, hc⟩
  · simp only [Prod.mk.injEq, true_and] at h
    subst h
    simp only [Log.toList_append, ← List.append_assoc]
    exact ⟨rfl, trivial⟩

theorem appendToFile_error {e : Fault} (h : s.appendToFile data = (.error e, t)) :
    s.file = none ∧ t = s ∧ e = .io (.spillFailed s.directory noSuchFile) := by
  unfold appendToFile at h
  cases hf : s.file with
  | some f => simp [hf] at h
  | none =>
    simp only [hf] at h
    split at h
    · simp at h
    · obtain ⟨he, rfl⟩ := Prod.mk.inj h
      exact ⟨rfl, rfl, (Except.error.inj he).symm⟩

/-- Memory that was moved is in a file. -/
theorem eq_of_spillMemory (h : s.spillMemory = (.ok (), t)) (hfile : t.file = none) :
    t = s ∧ s.memory.toList = [] := by
  unfold spillMemory at h
  split at h
  · rename_i hz
    exact ⟨(Prod.mk.inj h).2.symm, List.eq_nil_of_length_eq_zero (by simp [hz])⟩
  · unfold appendToFile at h
    split at h
    · obtain ⟨-, rfl⟩ := Prod.mk.inj h
      cases hfile
    · split at h
      · obtain ⟨-, rfl⟩ := Prod.mk.inj h
        cases hfile
      · simp at h

/-- A store whose file cannot be created has nothing left, since what memory held was given up. -/
theorem put_error {e : Fault} (h : s.put data = (.error e, t)) :
    t.spilled.toList ++ t.memory.toList = [] ∧ t.cursor = s.cursor ∧
      e = .io (.spillFailed s.directory noSuchFile) := by
  have hnone {u : ThresholdStore} (hu : u.file = none) : u.spilled.toList = [] := by
    simp [spilled, hu]
  unfold put at h
  split at h
  · rcases hm : s.spillMemory with ⟨e' | _, u⟩ <;> simp only [hm] at h
    · obtain ⟨he, rfl⟩ := Prod.mk.inj h
      obtain rfl := Except.error.inj he
      unfold spillMemory at hm
      split at hm
      · simp at hm
      · obtain ⟨hfile, rfl, he⟩ := appendToFile_error hm
        exact ⟨by rw [hnone hfile]; rfl, rfl, he⟩
    · split at h
      · obtain ⟨hfile, rfl, rfl⟩ := appendToFile_error h
        obtain ⟨rfl, hmemory⟩ := eq_of_spillMemory hm hfile
        exact ⟨by rw [hnone hfile, hmemory]; rfl, rfl, rfl⟩
      · simp at h
  · simp at h

theorem length_log (s : ThresholdStore) :
    (s.spilled.toList ++ s.memory.toList).length = s.writePosition := by
  simp [writePosition, spillPosition]

/-- A read gets a front part of what lies behind the cursor. It may end with the file, but it gets
something unless the data ends or nothing was asked for. -/
theorem get_spec (s : ThresholdStore) (n : Nat) :
    (s.get n).1 <+: (s.spilled.toList ++ s.memory.toList).drop s.cursor ∧ (s.get n).1.length ≤ n ∧
      ((s.get n).1 = [] ↔ n = 0 ∨ s.writePosition ≤ s.cursor) ∧
      (s.get n).2 = { s with cursor := s.cursor + (s.get n).1.length } := by
  have hl : s.spilled.toList.length = s.spillPosition := by simp [spillPosition]
  have hm : s.memory.toList.length = s.memory.size := Log.length_toList s.memory
  unfold get
  split
  · rename_i hend
    simp [hend]
  · rename_i hmore
    by_cases hfile : s.cursor < s.spillPosition
    · have hd : (s.spilled.toList ++ s.memory.toList).drop s.cursor =
          s.spilled.toList.drop s.cursor ++ s.memory.toList :=
        List.drop_append_of_le_length (by omega)
      simp only [hfile, if_true, Log.slice_eq, hd]
      refine ⟨(List.take_prefix _ _).trans (List.prefix_append _ _), ?_, ?_, trivial⟩
      · simp only [List.length_take]
        omega
      · simp only [List.take_eq_nil_iff, List.drop_eq_nil_iff]
        omega
    · have hd : (s.spilled.toList ++ s.memory.toList).drop s.cursor =
          s.memory.toList.drop (s.cursor - s.spillPosition) := by
        rw [List.drop_append, hl, List.drop_eq_nil_of_le (by omega), List.nil_append]
      simp only [hfile, if_false, Log.slice_eq, hd]
      refine ⟨List.take_prefix _ _, ?_, ?_, trivial⟩
      · simp only [List.length_take]
        omega
      · simp only [List.take_eq_nil_iff, List.drop_eq_nil_iff]
        unfold writePosition at hmore ⊢
        omega

theorem release_spec (s : ThresholdStore) :
    (s.release).2 = { s with file := none, memory := {}, cursor := 0 } ∧
      ((s.release).1 = .ok () ∨ (s.release).1 = .error (.spillLeft s.spillPath noSuchFile)) := by
  unfold release
  cases s.file with
  | none => simp
  | some f => cases hf : f.linked <;> simp [hf]

end ThresholdStore

namespace Store

variable {s t : Store} {data : Bytes}

/-- A store starts empty, whatever its settings. -/
@[simp] theorem log_build (c : Settings) (present : Bool) : (c.build present).log = [] := by
  unfold Settings.build
  split <;> rfl

theorem length_log (s : Store) : s.log.length = s.writePosition := by
  cases s with
  | memory s => exact Log.length_toList s.log
  | threshold s => exact ThresholdStore.length_log s

theorem put_spec (h : s.put data = (.ok (), t)) :
    t.log = s.log ++ data ∧ t.readPosition = s.readPosition := by
  cases s with
  | memory s =>
    simp only [put, Prod.mk.injEq, true_and] at h
    subst h
    exact ⟨Log.toList_append s.log data, rfl⟩
  | threshold s =>
    rcases hp : s.put data with ⟨r, u⟩
    simp only [put, hp, Prod.mk.injEq] at h
    obtain ⟨rfl, rfl⟩ := h
    exact ThresholdStore.put_spec hp

/-- Only a spill can fail, and it leaves nothing of the log. -/
theorem put_error {e : Fault} (h : s.put data = (.error e, t)) :
    t.log = [] ∧ t.readPosition = s.readPosition ∧
      ∃ directory, e = .io (.spillFailed directory noSuchFile) := by
  cases s with
  | memory s => simp [put] at h
  | threshold s =>
    rcases hp : s.put data with ⟨r, u⟩
    simp only [put, hp, Prod.mk.injEq] at h
    obtain ⟨rfl, rfl⟩ := h
    obtain ⟨hlog, hcursor, he⟩ := ThresholdStore.put_error hp
    exact ⟨hlog, hcursor, _, he⟩

theorem get_spec (s : Store) (n : Nat) :
    (s.get n).1 <+: s.log.drop s.readPosition ∧ (s.get n).1.length ≤ n ∧
      ((s.get n).1 = [] ↔ n = 0 ∨ s.writePosition ≤ s.readPosition) ∧
      (s.get n).2.log = s.log ∧
      (s.get n).2.readPosition = s.readPosition + (s.get n).1.length := by
  cases s with
  | memory s =>
    simp only [get, MemoryStore.get, log, readPosition, writePosition, Log.slice_eq]
    refine ⟨List.take_prefix _ _, by simp only [List.length_take]; omega, ?_, trivial, trivial⟩
    simp [List.take_eq_nil_iff, List.drop_eq_nil_iff]
  | threshold s =>
    obtain ⟨hp, hl, he, hs⟩ := ThresholdStore.get_spec s n
    refine ⟨hp, hl, he, ?_, ?_⟩
    · simp only [get, log, hs]
      rfl
    · simp only [get, readPosition, hs]

theorem seek_of_le {target : Nat} (h : target ≤ s.writePosition) :
    ∃ t, s.seek target = (.ok (), t) ∧ t.log = s.log ∧ t.readPosition = target := by
  cases s with
  | memory s =>
    have hn : ¬ s.log.size < target := Nat.not_lt.2 h
    exact ⟨.memory { s with cursor := target }, by simp [seek, MemoryStore.seek, hn], rfl, rfl⟩
  | threshold s =>
    have hn : ¬ s.writePosition < target := Nat.not_lt.2 h
    exact ⟨.threshold { s with cursor := target }, by simp [seek, ThresholdStore.seek, hn],
      rfl, rfl⟩

theorem seek_of_lt {target : Nat} (h : s.writePosition < target) :
    s.seek target = (.error (.misuse (.seekBeyondWritten target s.writePosition)), s) := by
  cases s with
  | memory s =>
    have hn : s.log.size < target := h
    simp [seek, MemoryStore.seek, hn, writePosition]
  | threshold s =>
    have hn : s.writePosition < target := h
    simp [seek, ThresholdStore.seek, hn, writePosition]

/-- A store is empty after a release, whether or not the file could be deleted. -/
theorem release_spec (s : Store) :
    s.release.2.log = [] ∧ s.release.2.readPosition = 0 ∧
      (s.release.1 = .ok () ∨ ∃ path, s.release.1 = .error (.spillLeft path noSuchFile)) := by
  cases s with
  | memory s => exact ⟨rfl, rfl, .inl rfl⟩
  | threshold s =>
    obtain ⟨hs, hr⟩ := ThresholdStore.release_spec s
    refine ⟨?_, ?_, hr.imp id fun h => ⟨_, h⟩⟩
    · simp only [release, log, hs]
      rfl
    · simp only [release, readPosition, hs]

theorem log_directoryMade (name : String) (s : Store) :
    (s.directoryMade name).log = s.log ∧ (s.directoryMade name).readPosition = s.readPosition := by
  cases s with
  | memory s => exact ⟨rfl, rfl⟩
  | threshold s =>
    simp only [directoryMade, ThresholdStore.directoryMade]
    split <;> exact ⟨rfl, rfl⟩

theorem log_directoryRemoved (name : String) (s : Store) :
    (s.directoryRemoved name).log = s.log ∧
      (s.directoryRemoved name).readPosition = s.readPosition := by
  cases s with
  | memory s => exact ⟨rfl, rfl⟩
  | threshold s =>
    simp only [directoryRemoved, ThresholdStore.directoryRemoved]
    split
    · refine ⟨?_, rfl⟩
      simp only [log, ThresholdStore.spilled]
      cases s.file <;> rfl
    · exact ⟨rfl, rfl⟩

end Store

end StreamLayers
