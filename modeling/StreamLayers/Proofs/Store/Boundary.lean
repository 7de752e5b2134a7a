import Mathlib.Algebra.GroupWithZero.Nat
import StreamLayers.Proofs.Store.Alike

/-!
Where a threshold store starts its file. Memory holds the whole log until an append would take it
past the threshold; from then on, and until the log is emptied, there is one file and something in
it. Files that cannot be made or deleted change nothing about that.
-/

namespace StreamLayers

namespace ThresholdStore

/-- Whether the next file can be made, and whether the one there is can be deleted. -/
def surround (s : ThresholdStore) (creatable deletable : Bool) : ThresholdStore :=
  { s with directoryExists := creatable, file := s.file.map ({ · with linked := deletable }) }

/-- A call of a store, or a change of what it finds around it. -/
inductive Call where
  | put (data : Bytes)
  | get (n : Nat)
  | seek (target : Nat)
  | release
  | surround (creatable deletable : Bool)
  deriving DecidableEq, Repr

namespace Call

def apply (s : ThresholdStore) : Call → ThresholdStore
  | put data => (s.put data).2
  | get n => (s.get n).2
  | seek target => (s.seek target).2
  | release => s.release.2
  | surround creatable deletable => s.surround creatable deletable

/-- How many bytes a call appends. -/
def appended : Call → Nat
  | put data => data.length
  | _ => 0

/-- Whether a call is not an append that fails. -/
def works (s : ThresholdStore) : Call → Bool
  | put data => (s.put data).1.isOk
  | _ => true

end Call

def after (s : ThresholdStore) (calls : List Call) : ThresholdStore := calls.foldl Call.apply s

/-- Whether no append of a run fails. -/
def working (s : ThresholdStore) : List Call → Bool
  | [] => true
  | call :: calls => call.works s && (call.apply s).working calls

/-- How many bytes a run appends. -/
def appended (calls : List Call) : Nat := (calls.map Call.appended).sum

/-- A store that has a file only if its log does not fit into memory. -/
structure Layered (s : ThresholdStore) : Prop where
  memory_le : s.memory.size ≤ s.threshold
  exceeds : s.file.isSome = true → s.threshold < s.writePosition

variable {s t : ThresholdStore} {data : Bytes}

theorem spillPosition_of_none (h : s.file = none) : s.spillPosition = 0 := by
  simp [spillPosition, spilled, h]

theorem writePosition_of_none (h : s.file = none) : s.writePosition = s.memory.size := by
  rw [writePosition, spillPosition_of_none h, Nat.zero_add]

namespace Layered

theorem spillPosition_pos (h : Layered s) (hf : s.file.isSome = true) : 0 < s.spillPosition := by
  have hover := h.exceeds hf
  have hmemory := h.memory_le
  rw [writePosition] at hover
  omega

theorem file_iff (h : Layered s) : s.file.isSome = true ↔ 0 < s.spillPosition := by
  refine ⟨h.spillPosition_pos, fun hpos => ?_⟩
  rcases hf : s.file with _ | f
  · rw [spillPosition_of_none hf] at hpos
    omega
  · rfl

theorem spilled_iff (h : Layered s) : 0 < s.spillPosition ↔ s.threshold < s.writePosition := by
  rw [← h.file_iff]
  refine ⟨h.exceeds, fun hover => ?_⟩
  rcases hf : s.file with _ | f
  · have hmemory := h.memory_le
    rw [writePosition_of_none hf] at hover
    omega
  · rfl

theorem isSome_iff (h : Layered s) : s.file.isSome = true ↔ s.threshold < s.writePosition :=
  h.file_iff.trans h.spilled_iff

end Layered

/-- Whether a store has a file or can make one. -/
def hasRoom (s : ThresholdStore) : Bool := s.file.isSome || s.directoryExists

/-- What an append comes to, told by where the bytes go. -/
inductive Placed (s : ThresholdStore) (data : Bytes) : Except Fault Unit × ThresholdStore → Prop where
  | inMemory (fits : s.memory.size + data.length ≤ s.threshold) :
      Placed s data (.ok (), { s with memory := s.memory.append data })
  | inFile {t : ThresholdStore} (full : s.threshold < s.memory.size + data.length)
      (room : s.hasRoom = true) (file : t.file.isSome = true)
      (memory : t.memory.size ≤ s.threshold)
      (made : t.filesCreated = s.filesCreated + if s.file.isSome then 0 else 1) :
      Placed s data (.ok (), t)
  | nowhere {t : ThresholdStore} (full : s.threshold < s.memory.size + data.length)
      (missing : s.hasRoom = false) (file : t.file = none) (memory : t.memory.size = 0)
      (made : t.filesCreated = s.filesCreated) :
      Placed s data (.error (.io (.spillFailed s.directory noSuchFile)), t)

theorem appendToFile_of_room (h : s.hasRoom = true) (data : Bytes) :
    ∃ t, s.appendToFile data = (.ok (), t) ∧ t.file.isSome = true ∧ t.memory = s.memory ∧
      t.threshold = s.threshold ∧ t.filesCreated = s.filesCreated + if s.file.isSome then 0 else 1 := by
  unfold hasRoom at h
  unfold appendToFile
  rcases hf : s.file with _ | f
  · have hd : s.directoryExists = true := by simpa [hf] using h
    rw [if_pos hd]
    exact ⟨_, rfl, rfl, rfl, rfl, rfl⟩
  · exact ⟨_, rfl, rfl, rfl, rfl, rfl⟩

theorem appendToFile_of_no_room (h : s.hasRoom = false) (data : Bytes) :
    s.appendToFile data = (.error (.io (.spillFailed s.directory noSuchFile)), s) := by
  obtain ⟨hf, hd⟩ : s.file = none ∧ s.directoryExists = false := by simpa [hasRoom] using h
  simp [appendToFile, hf, hd]

theorem placed_put (s : ThresholdStore) (data : Bytes) : Placed s data (s.put data) := by
  unfold put
  by_cases hfull : s.threshold < s.memory.size + data.length
  · rw [if_pos hfull]
    unfold spillMemory
    by_cases hz : s.memory.size = 0
    · -- Memory is empty, so the block alone is over the threshold.
      have hbig : s.threshold < data.length := by omega
      rw [if_pos hz]
      dsimp only
      rw [if_pos hbig]
      cases hroom : s.hasRoom with
      | true =>
        obtain ⟨t, ht, hfile, hmemory, -, hmade⟩ := appendToFile_of_room hroom data
        rw [ht]
        refine .inFile hfull hroom hfile ?_ hmade
        rw [hmemory, hz]
        exact Nat.zero_le _
      | false =>
        have hnone : s.file = none := by simpa using (Bool.or_eq_false_iff.1 hroom).1
        rw [appendToFile_of_no_room hroom]
        exact .nowhere hfull hroom hnone hz rfl
    · rw [if_neg hz]
      cases hroom : s.hasRoom with
      | true =>
        have hroom' : ({ s with memory := {} } : ThresholdStore).hasRoom = true := hroom
        obtain ⟨t, ht, hfile, hmemory, hthreshold, hmade⟩ :=
          appendToFile_of_room hroom' s.memory.toList
        rw [ht]
        dsimp only
        by_cases hbig : t.threshold < data.length
        · rw [if_pos hbig]
          obtain ⟨u, hu, hfile', hmemory', -, hmade'⟩ :=
            appendToFile_of_room (s := t) (by simp [hasRoom, hfile]) data
          rw [hu]
          refine .inFile hfull hroom hfile' ?_ ?_
          · rw [hmemory', hmemory]
            exact Nat.zero_le _
          · rw [hmade', hmade, if_pos hfile]
            rfl
        · rw [if_neg hbig]
          have hfits : data.length ≤ s.threshold := hthreshold ▸ Nat.le_of_not_lt hbig
          refine .inFile hfull hroom hfile ?_ hmade
          rw [Log.size_append, hmemory, Log.size_empty, Nat.zero_add]
          exact hfits
      | false =>
        have hnone : s.file = none := by simpa using (Bool.or_eq_false_iff.1 hroom).1
        have hroom' : ({ s with memory := {} } : ThresholdStore).hasRoom = false := hroom
        rw [appendToFile_of_no_room hroom']
        exact .nowhere hfull hroom hnone rfl rfl
  · rw [if_neg hfull]
    exact .inMemory (Nat.le_of_not_lt hfull)

theorem writePosition_put (h : (s.put data).1.isOk = true) :
    (s.put data).2.writePosition = s.writePosition + data.length := by
  rcases hp : s.put data with ⟨e | u, t⟩ <;> rw [hp] at h
  · cases h
  · obtain ⟨hlog, -⟩ := put_spec hp
    rw [← length_log, hlog, List.length_append, length_log]

/-- `t` keeps its bytes where `s` does. -/
structure Unmoved (s t : ThresholdStore) : Prop where
  threshold_eq : t.threshold = s.threshold
  memory_eq : t.memory = s.memory
  spilled_eq : t.spilled = s.spilled
  file_eq : t.file.isSome = s.file.isSome
  made_eq : t.filesCreated = s.filesCreated

theorem Unmoved.writePosition_eq (h : Unmoved s t) : t.writePosition = s.writePosition := by
  unfold writePosition spillPosition
  rw [h.spilled_eq, h.memory_eq]

/-- Only appending and emptying move bytes. -/
theorem apply_cases (s : ThresholdStore) (call : Call) :
    (∃ data, call = .put data) ∨ call = .release ∨
      (call.appended = 0 ∧ Unmoved s (call.apply s)) := by
  cases call with
  | put data => exact .inl ⟨data, rfl⟩
  | release => exact .inr (.inl rfl)
  | get n =>
    obtain ⟨-, -, -, hs⟩ := get_spec s n
    have happly : (Call.get n).apply s = _ := hs
    rw [happly]
    exact .inr (.inr ⟨rfl, rfl, rfl, rfl, rfl, rfl⟩)
  | seek target =>
    have happly : (Call.seek target).apply s = (s.seek target).2 := rfl
    rw [happly]
    unfold seek
    split <;> exact .inr (.inr ⟨rfl, rfl, rfl, rfl, rfl, rfl⟩)
  | surround creatable deletable =>
    refine .inr (.inr ⟨rfl, ?_⟩)
    unfold Call.apply surround
    cases hf : s.file <;> exact ⟨rfl, rfl, by simp [spilled, hf], by simp [hf], rfl⟩

theorem threshold_apply (s : ThresholdStore) (call : Call) :
    (call.apply s).threshold = s.threshold := by
  obtain ⟨data, rfl⟩ | rfl | ⟨-, hstays⟩ := s.apply_cases call
  · exact (put_settings s data).1
  · have happly : Call.release.apply s = _ := (release_spec s).1
    rw [happly]
  · exact hstays.threshold_eq

theorem Layered.put (h : Layered s) (data : Bytes) : Layered (s.put data).2 := by
  have hthreshold := (put_settings s data).1
  have hplaced := placed_put s data
  have hwritten : (s.put data).1.isOk = true → _ := writePosition_put
  generalize s.put data = q at hthreshold hplaced hwritten ⊢
  cases hplaced with
  | inMemory fits =>
    refine ⟨?_, fun hfile => ?_⟩
    · rw [Log.size_append]
      exact fits
    · rw [hwritten rfl]
      exact Nat.lt_of_lt_of_le (h.exceeds hfile) (Nat.le_add_right _ _)
  | inFile full room file memory made =>
    refine ⟨hthreshold ▸ memory, fun _ => ?_⟩
    have hmemory : s.memory.size ≤ s.writePosition := Nat.le_add_left _ _
    rw [hwritten rfl, hthreshold]
    omega
  | nowhere full missing file memory made =>
    refine ⟨?_, fun hfile => ?_⟩
    · rw [memory]
      exact Nat.zero_le _
    · rw [file] at hfile
      cases hfile

theorem Layered.apply (h : Layered s) (call : Call) : Layered (call.apply s) := by
  obtain ⟨data, rfl⟩ | rfl | ⟨-, hstays⟩ := s.apply_cases call
  · exact h.put data
  · have happly : Call.release.apply s = _ := (release_spec s).1
    rw [happly]
    exact ⟨Nat.zero_le _, nofun⟩
  · constructor
    · rw [hstays.threshold_eq, hstays.memory_eq]
      exact h.memory_le
    · rw [hstays.threshold_eq, hstays.writePosition_eq, hstays.file_eq]
      exact h.exceeds

theorem Layered.after (h : Layered s) (calls : List Call) : Layered (s.after calls) := by
  induction calls generalizing s with
  | nil => exact h
  | cons call rest ih => exact ih (h.apply call)

theorem threshold_after (s : ThresholdStore) (calls : List Call) :
    (s.after calls).threshold = s.threshold := by
  induction calls generalizing s with
  | nil => rfl
  | cons call rest ih => exact (ih (call.apply s)).trans (threshold_apply s call)

/-- As long as the log is not emptied, a file that is made stays, so that it is the only one. -/
theorem files_apply (s : ThresholdStore) {call : Call} (hrelease : call ≠ .release) :
    (s.file.isSome = true → (call.apply s).file.isSome = true) ∧
      (call.apply s).filesCreated + (if s.file.isSome then 1 else 0) =
        s.filesCreated + if (call.apply s).file.isSome then 1 else 0 := by
  obtain ⟨data, rfl⟩ | rfl | ⟨-, hstays⟩ := s.apply_cases call
  · have hplaced := placed_put s data
    show (_ → (s.put data).2.file.isSome = true) ∧
      (s.put data).2.filesCreated + _ = _ + if (s.put data).2.file.isSome then 1 else 0
    generalize s.put data = q at hplaced ⊢
    cases hplaced with
    | inMemory fits => exact ⟨id, rfl⟩
    | inFile full room file memory made =>
      refine ⟨fun _ => file, ?_⟩
      simp only [made, file, if_true]
      split <;> rfl
    | nowhere full missing file memory made =>
      have hnone : s.file.isSome = false := (Bool.or_eq_false_iff.1 missing).1
      rw [made, file, hnone]
      exact ⟨nofun, rfl⟩
  · exact absurd rfl hrelease
  · rw [hstays.file_eq, hstays.made_eq]
    exact ⟨id, rfl⟩

theorem files_after (s : ThresholdStore) {calls : List Call} (h : Call.release ∉ calls) :
    (s.file.isSome = true → (s.after calls).file.isSome = true) ∧
      (s.after calls).filesCreated + (if s.file.isSome then 1 else 0) =
        s.filesCreated + if (s.after calls).file.isSome then 1 else 0 := by
  induction calls generalizing s with
  | nil => exact ⟨id, rfl⟩
  | cons call rest ih =>
    have hhead := List.ne_of_not_mem_cons h
    have htail := List.not_mem_of_not_mem_cons h
    obtain ⟨hstays, hmade⟩ := files_apply s (Ne.symm hhead)
    obtain ⟨hstays', hmade'⟩ := ih (call.apply s) htail
    refine ⟨fun hfile => hstays' (hstays hfile), ?_⟩
    show (ThresholdStore.after (call.apply s) rest).filesCreated + _ =
      _ + if (ThresholdStore.after (call.apply s) rest).file.isSome then 1 else 0
    omega

/-- What a call appends that works arrives in the log. -/
theorem writePosition_apply {call : Call} (hrelease : call ≠ .release)
    (hworks : call.works s = true) :
    (call.apply s).writePosition = s.writePosition + call.appended := by
  obtain ⟨data, rfl⟩ | rfl | ⟨hnone, hstays⟩ := s.apply_cases call
  · exact writePosition_put hworks
  · exact absurd rfl hrelease
  · rw [hstays.writePosition_eq, hnone, Nat.add_zero]

theorem writePosition_after {calls : List Call} (h : Call.release ∉ calls)
    (hworks : s.working calls = true) :
    (s.after calls).writePosition = s.writePosition + appended calls := by
  induction calls generalizing s with
  | nil => rfl
  | cons call rest ih =>
    have hhead := List.ne_of_not_mem_cons h
    have htail := List.not_mem_of_not_mem_cons h
    obtain ⟨hone, hrest⟩ := Bool.and_eq_true_iff.1 hworks
    show (ThresholdStore.after (call.apply s) rest).writePosition = _
    rw [ih htail hrest, writePosition_apply (Ne.symm hhead) hone, Nat.add_assoc]
    rfl

/-- Appends that fit into memory work, whatever else is the case. -/
theorem works_of_fits {call : Call} (h : s.writePosition + call.appended ≤ s.threshold) :
    call.works s = true := by
  cases call with
  | put data =>
    have hfits : s.memory.size + data.length ≤ s.threshold :=
      Nat.le_trans (Nat.add_le_add_right (Nat.le_add_left _ _) _) h
    have hplaced := placed_put s data
    show (s.put data).1.isOk = true
    generalize s.put data = q at hplaced ⊢
    cases hplaced with
    | inMemory fits => rfl
    | inFile full room file memory made => rfl
    | nowhere full missing file memory made => omega
  | _ => rfl

theorem working_of_fits {calls : List Call} (h : Call.release ∉ calls)
    (hfits : s.writePosition + appended calls ≤ s.threshold) : s.working calls = true := by
  induction calls generalizing s with
  | nil => rfl
  | cons call rest ih =>
    have hhead := List.ne_of_not_mem_cons h
    have htail := List.not_mem_of_not_mem_cons h
    have hsum : appended (call :: rest) = call.appended + appended rest := rfl
    have hone : call.works s = true := works_of_fits (by omega)
    have hwritten := writePosition_apply (Ne.symm hhead) hone
    have hthreshold := threshold_apply s call
    exact Bool.and_eq_true_iff.2 ⟨hone, ih htail (by omega)⟩

/-- An append past the threshold makes the file, unless there is one, or fails for want of it. -/
theorem Layered.put_over (h : Layered s) (hover : s.threshold < s.writePosition + data.length) :
    if s.hasRoom then (s.put data).1 = .ok () ∧ (s.put data).2.file.isSome = true
    else s.file = none ∧ (s.put data).1 = .error (.io (.spillFailed s.directory noSuchFile)) ∧
      (s.put data).2.file = none ∧ (s.put data).2.filesCreated = s.filesCreated := by
  have hplaced := placed_put s data
  have hfile := (h.put data).isSome_iff
  have hwritten : (s.put data).1.isOk = true → _ := writePosition_put
  have hthreshold := (put_settings s data).1
  generalize s.put data = q at hplaced hfile hwritten hthreshold ⊢
  cases hplaced with
  | inMemory fits =>
    have hsome := hfile.2 (by rw [hwritten rfl, hthreshold]; exact hover)
    have hroom : s.hasRoom = true := Bool.or_eq_true_iff.2 (.inl hsome)
    rw [if_pos hroom]
    exact ⟨rfl, hsome⟩
  | inFile full room file memory made =>
    rw [if_pos room]
    exact ⟨rfl, file⟩
  | nowhere full missing file memory made =>
    have hnone : s.file = none := by simpa using (Bool.or_eq_false_iff.1 missing).1
    rw [if_neg (by simp [missing])]
    exact ⟨hnone, rfl, file, made⟩

/-- Whatever is asked of a store, and whether or not files can be made and deleted: memory keeps to
the threshold, and there is a file, with something in it, exactly if more was written than the
threshold. Until the log is emptied at most one file is made: none as long as the bytes fit, and one
as soon as an append goes past the threshold, or else that append fails. -/
theorem spills_past_threshold (threshold : Nat) (directory : Option String) (present : Bool)
    (calls : List Call) :
    let s := ({ threshold, directory, directoryExists := present } : ThresholdStore).after calls
    (s.memory.size ≤ threshold ∧ s.writePosition = s.spillPosition + s.memory.size ∧
      (s.file.isSome = true ↔ 0 < s.spillPosition) ∧
      (0 < s.spillPosition ↔ threshold < s.writePosition)) ∧
    (∀ later, Call.release ∉ later →
      (s.after later).filesCreated =
          s.filesCreated + (if s.file.isSome = false ∧ (s.after later).file.isSome then 1 else 0) ∧
        (s.writePosition + appended later ≤ threshold →
          s.working later = true ∧ (s.after later).file = none) ∧
        (s.working later = true →
          ((s.after later).file.isSome = true ↔ threshold < s.writePosition + appended later))) ∧
    ∀ data : Bytes, threshold < s.writePosition + data.length →
      if s.hasRoom then (s.put data).1 = .ok () ∧ (s.put data).2.file.isSome = true
      else s.file = none ∧ (s.put data).1 = .error (.io (.spillFailed s.directory noSuchFile)) ∧
        (s.put data).2.file = none ∧ (s.put data).2.filesCreated = s.filesCreated := by
  intro s
  have hstart : Layered { threshold, directory, directoryExists := present } :=
    ⟨Nat.zero_le _, nofun⟩
  have hs : Layered s := hstart.after calls
  have hthreshold : s.threshold = threshold := threshold_after _ calls
  refine ⟨⟨hthreshold ▸ hs.memory_le, rfl, hs.file_iff, hthreshold ▸ hs.spilled_iff⟩,
    fun later hrelease => ?_, fun data hover => hs.put_over (hthreshold ▸ hover)⟩
  have hfile (hworks : s.working later = true) :
      (s.after later).file.isSome = true ↔ threshold < s.writePosition + appended later := by
    rw [(hs.after later).isSome_iff, threshold_after, hthreshold,
      writePosition_after hrelease hworks]
  refine ⟨?_, fun hfits => ?_, hfile⟩
  · obtain ⟨hstays, hmade⟩ := files_after s hrelease
    rcases hbefore : s.file.isSome with _ | _ <;> rw [hbefore] at hmade hstays
    · simpa using hmade
    · rw [hstays rfl] at hmade
      simpa using hmade
  · have hworks := working_of_fits hrelease (hthreshold.symm ▸ hfits)
    refine ⟨hworks, Option.not_isSome_iff_eq_none.1 fun hsome => ?_⟩
    exact absurd ((hfile hworks).1 hsome) (Nat.not_lt_of_le hfits)

/-- A store that could not make its file, made one later and could not delete it: three bytes fit,
whatever blocks they come in, and the fourth makes the next file. -/
theorem spills_past_threshold_boundary :
    let start : ThresholdStore := { threshold := 3, directoryExists := false }
    let calls : List Call := [.put [1, 2], .put [3, 4], .surround true true, .put [5, 6, 7, 8, 9],
      .surround true false, .release]
    let s := start.after calls
    let fits : List Call := [.put [1, 2], .put [], .get 1, .put [3]]
    let more : List Call := fits ++ [.put [4]]
    s.filesCreated = 1 ∧ s.working fits = true ∧ (s.after fits).file = none ∧
      (s.after more).file.isSome = true ∧ (s.after more).filesCreated = 2 := by
  intro start calls s fits more
  have hfits : s.writePosition + appended fits ≤ 3 := by decide +kernel
  have hover : 3 < s.writePosition + appended more := by decide +kernel
  have hworks : s.working more = true := by decide +kernel
  obtain ⟨-, hrun, -⟩ := spills_past_threshold 3 none false calls
  obtain ⟨-, hmemory, -⟩ := hrun fits (by decide)
  obtain ⟨-, -, hfile⟩ := hrun more (by decide)
  obtain ⟨hfree, hnone⟩ := hmemory hfits
  exact ⟨by decide +kernel, hfree, hnone, (hfile hworks).2 hover, by decide +kernel⟩

end ThresholdStore

end StreamLayers
