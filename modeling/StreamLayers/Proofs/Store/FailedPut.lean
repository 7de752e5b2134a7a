import StreamLayers.Proofs.Store.LogView

/-!
Appends to a threshold store that fail. The file may fail to be made and every write to it may fail,
on any volume: then the store is as it was, unless memory was given up for a file that did not take
it. What memory held is gone in that case, and the cursor may lie behind the end.
-/

namespace StreamLayers

/-- What becomes of a spill file. A write is told by the store as it is then and by the bytes, so any
one of them may fail. -/
structure Volume where
  /-- What keeps the file from being made. -/
  creation : Option OsError := none
  /-- What keeps bytes from being written to it. -/
  writing : ThresholdStore → Bytes → Option OsError := fun _ _ => none

/-- A volume on which a file can be made if its directory exists, and written to from then on. -/
def Volume.ofDirectory (present : Bool) : Volume :=
  { creation := if present then none else some noSuchFile }

namespace ThresholdStore

/-- The file of a store, made if there is none. -/
def openFileOn (v : Volume) (s : ThresholdStore) : Except Fault SpillFile × ThresholdStore :=
  match s.file with
  | some f => (.ok f, s)
  | none =>
    match v.creation with
    | some cause => (.error (.io (.spillFailed s.directory cause)), s)
    | none => (.ok {}, { s with file := some {}, filesCreated := s.filesCreated + 1 })

/-- Appends to the spill file. What a write that fails has left in the file lies behind the end of the
log, where the next write goes. -/
def appendOn (v : Volume) (s : ThresholdStore) (data : Bytes) :
    Except Fault Unit × ThresholdStore :=
  match s.openFileOn v with
  | (.error e, s) => (.error e, s)
  | (.ok f, s) =>
    match v.writing s data with
    | some cause => (.error (.io (.spillFailed (some s.spillPath) cause)), s)
    | none => (.ok (), { s with file := some { f with contents := f.contents.append data } })

def spillMemoryOn (v : Volume) (s : ThresholdStore) : Except Fault Unit × ThresholdStore :=
  if s.memory.size = 0 then (.ok (), s)
  else { s with memory := {} }.appendOn v s.memory.toList

/-- An append on the volume `v`. -/
def putOn (v : Volume) (s : ThresholdStore) (data : Bytes) : Except Fault Unit × ThresholdStore :=
  if s.threshold < s.memory.size + data.length then
    match s.spillMemoryOn v with
    | (.error e, s) => (.error e, s)
    | (.ok (), s) =>
      if s.threshold < data.length then s.appendOn v data
      else (.ok (), { s with memory := s.memory.append data })
  else (.ok (), { s with memory := s.memory.append data })

theorem appendOn_ofDirectory (s : ThresholdStore) (data : Bytes) :
    s.appendOn (.ofDirectory s.directoryExists) data = s.appendToFile data := by
  unfold appendOn openFileOn appendToFile
  cases s.file with
  | some f => rfl
  | none => cases hd : s.directoryExists <;> simp [Volume.ofDirectory]

theorem spillMemoryOn_ofDirectory (s : ThresholdStore) :
    s.spillMemoryOn (.ofDirectory s.directoryExists) = s.spillMemory := by
  have happend := appendOn_ofDirectory { s with memory := {} } s.memory.toList
  unfold spillMemoryOn spillMemory
  rw [← happend]

theorem appendToFile_directoryExists (s : ThresholdStore) (data : Bytes) :
    (s.appendToFile data).2.directoryExists = s.directoryExists := by
  unfold appendToFile
  split
  · rfl
  · split <;> rfl

theorem spillMemory_directoryExists (s : ThresholdStore) :
    s.spillMemory.2.directoryExists = s.directoryExists := by
  unfold spillMemory
  split
  · rfl
  · exact appendToFile_directoryExists _ _

/-- A store appends as on the volume that its directory makes. -/
theorem putOn_ofDirectory (s : ThresholdStore) (data : Bytes) :
    s.putOn (.ofDirectory s.directoryExists) data = s.put data := by
  have hkept := s.spillMemory_directoryExists
  unfold putOn put
  rw [spillMemoryOn_ofDirectory]
  generalize s.spillMemory = moved at hkept ⊢
  obtain ⟨e | u, t⟩ := moved
  · rfl
  · dsimp only at hkept ⊢
    rw [← hkept, appendOn_ofDirectory]

variable {v : Volume} {s t : ThresholdStore} {data : Bytes} {e : Fault}

/-- Whether or not the file can be made, the log is as before. -/
theorem openFileOn_spec (v : Volume) (s : ThresholdStore) :
    (s.openFileOn v).2.spilled.toList = s.spilled.toList ∧
      (s.openFileOn v).2.memory = s.memory ∧ (s.openFileOn v).2.cursor = s.cursor ∧
      ∀ f, (s.openFileOn v).1 = .ok f → f.contents.toList = s.spilled.toList := by
  unfold openFileOn
  cases hf : s.file with
  | some f => exact ⟨rfl, rfl, rfl, fun g hg => by cases hg; simp [spilled, hf]⟩
  | none =>
    have hnone : s.spilled.toList = [] := by simp [spilled, hf]
    cases v.creation with
    | some cause => exact ⟨rfl, rfl, rfl, fun g hg => by cases hg⟩
    | none => exact ⟨hnone.symm, rfl, rfl, fun g hg => by cases hg; exact hnone.symm⟩

theorem appendOn_ok (h : s.appendOn v data = (.ok (), t)) :
    t.spilled.toList = s.spilled.toList ++ data ∧ t.memory = s.memory ∧ t.cursor = s.cursor := by
  obtain ⟨-, hmemory, hcursor, hfile⟩ := openFileOn_spec v s
  unfold appendOn at h
  rcases hopen : s.openFileOn v with ⟨e | f, u⟩ <;> rw [hopen] at h hmemory hcursor hfile
  · cases (Prod.mk.inj h).1
  · dsimp only at h
    cases hw : v.writing u data with
    | some cause =>
      rw [hw] at h
      cases (Prod.mk.inj h).1
    | none =>
      rw [hw] at h
      obtain ⟨-, rfl⟩ := Prod.mk.inj h
      exact ⟨by simp [spilled, hfile f rfl], hmemory, hcursor⟩

/-- A write that fails changes nothing of the log. -/
theorem appendOn_error (h : s.appendOn v data = (.error e, t)) :
    t.spilled.toList = s.spilled.toList ∧ t.memory = s.memory ∧ t.cursor = s.cursor := by
  obtain ⟨hspilled, hmemory, hcursor, -⟩ := openFileOn_spec v s
  unfold appendOn at h
  rcases hopen : s.openFileOn v with ⟨e' | f, u⟩ <;> rw [hopen] at h hspilled hmemory hcursor
  · obtain ⟨-, rfl⟩ := Prod.mk.inj h
    exact ⟨hspilled, hmemory, hcursor⟩
  · dsimp only at h
    cases hw : v.writing u data with
    | some cause =>
      rw [hw] at h
      obtain ⟨-, rfl⟩ := Prod.mk.inj h
      exact ⟨hspilled, hmemory, hcursor⟩
    | none =>
      rw [hw] at h
      cases (Prod.mk.inj h).1

/-- Memory that was moved is neither lost nor kept twice. -/
theorem spillMemoryOn_ok (h : s.spillMemoryOn v = (.ok (), t)) :
    t.spilled.toList = s.spilled.toList ++ s.memory.toList ∧ t.memory.toList = [] ∧
      t.cursor = s.cursor := by
  unfold spillMemoryOn at h
  split at h
  · rename_i hz
    obtain ⟨-, rfl⟩ := Prod.mk.inj h
    have hm : s.memory.toList = [] := List.eq_nil_of_length_eq_zero (by simp [hz])
    exact ⟨by rw [hm, List.append_nil], hm, rfl⟩
  · obtain ⟨hspilled, hmemory, hcursor⟩ := appendOn_ok h
    exact ⟨hspilled, by rw [hmemory]; rfl, hcursor⟩

/-- Memory that could not be moved is given up all the same. -/
theorem spillMemoryOn_error (h : s.spillMemoryOn v = (.error e, t)) :
    t.spilled.toList = s.spilled.toList ∧ t.memory.toList = [] ∧ t.cursor = s.cursor ∧
      s.memory.toList ≠ [] := by
  unfold spillMemoryOn at h
  split at h
  · cases (Prod.mk.inj h).1
  · rename_i hz
    obtain ⟨hspilled, hmemory, hcursor⟩ := appendOn_error h
    refine ⟨hspilled, by rw [hmemory]; rfl, hcursor, fun hm => hz ?_⟩
    rw [← Log.length_toList, hm, List.length_nil]

theorem putOn_ok (h : s.putOn v data = (.ok (), t)) :
    (Store.threshold t).log = (Store.threshold s).log ++ data := by
  show t.spilled.toList ++ t.memory.toList = s.spilled.toList ++ s.memory.toList ++ data
  unfold putOn at h
  split at h
  · rcases hm : s.spillMemoryOn v with ⟨e | u, a⟩ <;> rw [hm] at h
    · cases (Prod.mk.inj h).1
    · obtain ⟨hspilled, hmemory, -⟩ := spillMemoryOn_ok hm
      dsimp only at h
      split at h
      · obtain ⟨happend, hkept, -⟩ := appendOn_ok h
        rw [happend, hspilled, hkept, hmemory, List.append_nil]
      · obtain ⟨-, rfl⟩ := Prod.mk.inj h
        show a.spilled.toList ++ (a.memory.append data).toList = _
        rw [Log.toList_append, hspilled, hmemory, List.nil_append]
  · obtain ⟨-, rfl⟩ := Prod.mk.inj h
    show s.spilled.toList ++ (s.memory.append data).toList = _
    rw [Log.toList_append, List.append_assoc]

/-- What an append leaves that fails: all of the log, or what was in the file already where memory
was given up for nothing. -/
theorem putOn_error (h : s.putOn v data = (.error e, t)) :
    t.cursor = s.cursor ∧
      if (s.spillMemoryOn v).1.isOk then (Store.threshold t).log = (Store.threshold s).log
      else (Store.threshold t).log = s.spilled.toList ∧ s.memory.toList ≠ [] := by
  unfold putOn at h
  split at h
  · rcases hm : s.spillMemoryOn v with ⟨e' | u, a⟩ <;> rw [hm] at h
    · obtain ⟨-, rfl⟩ := Prod.mk.inj h
      obtain ⟨hspilled, hmemory, hcursor, hne⟩ := spillMemoryOn_error hm
      refine ⟨hcursor, ?_, hne⟩
      show a.spilled.toList ++ a.memory.toList = s.spilled.toList
      rw [hspilled, hmemory, List.append_nil]
    · obtain ⟨hspilled, hmemory, hcursor⟩ := spillMemoryOn_ok hm
      dsimp only at h
      split at h
      · obtain ⟨happend, hkept, hcursor'⟩ := appendOn_error h
        refine ⟨hcursor'.trans hcursor, ?_⟩
        show t.spilled.toList ++ t.memory.toList = s.spilled.toList ++ s.memory.toList
        rw [happend, hspilled, hkept, hmemory, List.append_nil]
      · cases (Prod.mk.inj h).1
  · cases (Prod.mk.inj h).1

/-- What a caller may expect of the store `t` that an append to `s` has left behind when it failed. -/
structure Intact (s t : ThresholdStore) : Prop where
  /-- The same bytes at the same places, and the same cursor. -/
  view_eq : (Store.threshold t).view = (Store.threshold s).view
  written_eq : t.writePosition = s.writePosition
  cursor_le : s.cursor ≤ s.writePosition → t.cursor ≤ t.writePosition
  appends : ∀ (v : Volume) (data : Bytes) (u : ThresholdStore), t.putOn v data = (.ok (), u) →
    (Store.threshold u).log = (Store.threshold s).log ++ data

theorem Intact.of_view (h : (Store.threshold t).view = (Store.threshold s).view) :
    Intact s t := by
  obtain ⟨hlog, hcursor⟩ := LogView.mk.inj h
  have hwritten : t.writePosition = s.writePosition := by
    rw [← length_log, ← length_log]
    exact congrArg List.length hlog
  refine ⟨h, hwritten, fun hle => ?_, fun v data u hput => ?_⟩
  · have hcursor : t.cursor = s.cursor := hcursor
    rw [hcursor, hwritten]
    exact hle
  · rw [putOn_ok hput, hlog]

/-- On every volume, an append that fails leaves the store as it was exactly if memory could be moved
to the file, or held nothing. Otherwise just what memory held is lost, the cursor stays where it was,
and the next append takes the place of what is lost. The volume of a store's own directory is one of
them. -/
theorem intact_iff_memory_moved (h : s.putOn v data = (.error e, t)) :
    (∀ more, s.putOn (.ofDirectory s.directoryExists) more = s.put more) ∧
      (Intact s t ↔ (s.spillMemoryOn v).1.isOk = true) ∧
      ((s.spillMemoryOn v).1.isOk = false →
        s.memory.toList ≠ [] ∧ (Store.threshold t).view = ⟨s.spilled.toList, s.cursor⟩ ∧
          (s.spillPosition < s.cursor → t.writePosition < t.cursor) ∧
          ∀ (w : Volume) (more : Bytes) (u : ThresholdStore), t.putOn w more = (.ok (), u) →
            (Store.threshold u).log = s.spilled.toList ++ more) := by
  obtain ⟨hcursor, hleft⟩ := putOn_error h
  refine ⟨s.putOn_ofDirectory, ?_⟩
  rcases hmoved : (s.spillMemoryOn v).1.isOk with _ | _ <;> rw [hmoved] at hleft
  · obtain ⟨hlog, hne⟩ : (Store.threshold t).log = s.spilled.toList ∧ s.memory.toList ≠ [] := hleft
    have hend : t.writePosition = s.spillPosition := by
      rw [← length_log]
      exact (congrArg List.length hlog).trans (Log.length_toList s.spilled)
    refine ⟨⟨fun hintact => ?_, nofun⟩, fun _ => ⟨hne, ?_, fun hbehind => ?_, ?_⟩⟩
    · have hsame : (Store.threshold t).log = s.spilled.toList ++ s.memory.toList :=
        congrArg LogView.written hintact.view_eq
      rw [hlog, List.self_eq_append_right] at hsame
      exact absurd hsame hne
    · rw [← hlog, ← hcursor]
      rfl
    · rw [hend, hcursor]
      exact hbehind
    · intro w more u hput
      rw [putOn_ok hput, hlog]
  · have hlog : (Store.threshold t).log = (Store.threshold s).log := hleft
    refine ⟨⟨fun _ => rfl, fun _ => Intact.of_view ?_⟩, nofun⟩
    show LogView.mk (Store.threshold t).log t.cursor = ⟨(Store.threshold s).log, s.cursor⟩
    rw [hlog, hcursor]

/-- A volume that is full: four bytes are in the file, the two in memory are lost, and the cursor that
had reached them lies behind the end. -/
theorem intact_iff_memory_moved_full :
    let full : Volume := { writing := fun _ _ => some OsErrorKind.other.plain }
    let written := ((({ threshold := 3 } : ThresholdStore).put [1, 2, 3, 4]).2.put [5, 6]).2
    let s := (written.seek 6).2
    let t := (s.putOn full [7, 8]).2
    (s.putOn full [7, 8]).1.isOk = false ∧ (Store.threshold s).view = ⟨[1, 2, 3, 4, 5, 6], 6⟩ ∧
      ¬ Intact s t ∧ (Store.threshold t).view = ⟨[1, 2, 3, 4], 6⟩ ∧ t.writePosition < t.cursor := by
  intro full written s t
  have hfail : s.putOn full [7, 8] =
      (.error (.io (.spillFailed (some t.spillPath) OsErrorKind.other.plain)), t) := rfl
  have hlost : (s.spillMemoryOn full).1.isOk = false := rfl
  obtain ⟨-, hintact, hleft⟩ := intact_iff_memory_moved hfail
  obtain ⟨-, hview, hcursor, -⟩ := hleft hlost
  have hnot : ¬ Intact s t := fun hi => by rw [hintact.1 hi] at hlost; cases hlost
  exact ⟨rfl, by decide +kernel, hnot, hview, hcursor (by decide +kernel)⟩

end ThresholdStore

namespace StoreScenario

/-- An append that cannot make its file takes back the three bytes that were appended before: the
store is empty, and its cursor lies behind the end. -/
theorem failed_put_loses_memory :
    let start : StoreScenario := ⟨Store.Settings.build ⟨some 3, some "missing"⟩ false, .initial⟩
    let before := (start.run [.put [1, 2, 3], .get 2]).2
    let failed := before.step (.put [4, 5])
    (∃ e, failed.1 = .failed e) ∧ before.store.view = ⟨[1, 2, 3], 2⟩ ∧
      failed.2.store.view = ⟨[], 2⟩ ∧ failed.2.store.view ≠ before.store.view ∧
      ¬ failed.2.store.readPosition ≤ failed.2.store.writePosition := by
  intro start before failed
  have hbefore : before.store.view = ⟨[1, 2, 3], 2⟩ := by decide +kernel
  have hafter : failed.2.store.view = ⟨[], 2⟩ := by decide +kernel
  refine ⟨⟨_, rfl⟩, hbefore, hafter, ?_, by decide +kernel⟩
  rw [hbefore, hafter]
  decide

end StoreScenario

end StreamLayers
