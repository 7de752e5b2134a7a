import StreamLayers.Proofs.Store.Alike

/-!
Both kinds of store behave as one run of bytes with a cursor. Where the part in the file ends can be
seen in the length of a read alone, and not in what the reads up to the end get.
-/

namespace StreamLayers

/-- A run of bytes with a read cursor. -/
structure LogView where
  /-- The bytes written since the log was last emptied. -/
  written : Bytes := []
  cursor : Nat := 0
  deriving DecidableEq, Repr

namespace LogView

open StoreScenario

/-- What a log may answer to a step, and what it then is. A read may stop short, but gets something
where there is something to get. Emptying the log may fail to delete a file. -/
def Permits (v : LogView) : Step → Reply → LogView → Prop
  | .put data, r, w => r = .done ∧ w = { v with written := v.written ++ data }
  | .get n, r, w => ∃ data, r = .got data ∧ data <+: v.written.drop v.cursor ∧ data.length ≤ n ∧
      (data = [] ↔ n = 0 ∨ v.written.length ≤ v.cursor) ∧
      w = { v with cursor := v.cursor + data.length }
  | .seek target, r, w =>
    if target ≤ v.written.length then r = .done ∧ w = { v with cursor := target }
    else r = .failed (.misuse (.seekBeyondWritten target v.written.length)) ∧ w = v
  | .release, r, w => (r = .done ∨ ∃ path e, r = .failed (.spillLeft path e)) ∧ w = {}
  | .makeDirectory _, _, w => w = v
  | .removeDirectory _, _, w => w = v

/-- The answers that a log may give to steps taken in turn. -/
inductive Run : LogView → List Step → List Reply → LogView → Prop where
  | nil (v : LogView) : Run v [] [] v
  | cons {v w u : LogView} {step : Step} {reply : Reply} {steps : List Step}
      {replies : List Reply} (head : v.Permits step reply w) (tail : Run w steps replies u) :
      Run v (step :: steps) (reply :: replies) u

/-- The bytes that steps leave in a log that held `held`. -/
def writtenFrom (held : Bytes) : List Step → Bytes
  | [] => held
  | .put data :: rest => writtenFrom (held ++ data) rest
  | .release :: rest => writtenFrom [] rest
  | _ :: rest => writtenFrom held rest

theorem Permits.writtenFrom_eq {v w : LogView} {step : Step} {reply : Reply}
    (h : v.Permits step reply w) (rest : List Step) :
    writtenFrom v.written (step :: rest) = writtenFrom w.written rest := by
  cases step with
  | put data =>
    obtain ⟨-, rfl⟩ := h
    rfl
  | get n =>
    obtain ⟨data, -, -, -, -, rfl⟩ := h
    rfl
  | seek target =>
    simp only [Permits] at h
    split at h <;> obtain ⟨-, rfl⟩ := h <;> rfl
  | release =>
    obtain ⟨-, rfl⟩ := h
    rfl
  | makeDirectory name =>
    obtain rfl : w = v := h
    rfl
  | removeDirectory name =>
    obtain rfl : w = v := h
    rfl

theorem Run.written_eq {v w : LogView} {steps : List Step} {replies : List Reply}
    (h : Run v steps replies w) : w.written = writtenFrom v.written steps := by
  induction h with
  | nil v => rfl
  | cons head tail ih => rw [ih, head.writtenFrom_eq]

theorem Permits.cursor_le {v w : LogView} {step : Step} {reply : Reply}
    (h : v.Permits step reply w) (hv : v.cursor ≤ v.written.length) :
    w.cursor ≤ w.written.length := by
  cases step with
  | put data =>
    obtain ⟨-, rfl⟩ := h
    simp only [List.length_append]
    omega
  | get n =>
    obtain ⟨data, -, hp, -, -, rfl⟩ := h
    have hl := hp.length_le
    simp only [List.length_drop] at hl ⊢
    omega
  | seek target =>
    simp only [Permits] at h
    split at h
    · obtain ⟨-, rfl⟩ := h
      assumption
    · obtain ⟨-, rfl⟩ := h
      exact hv
  | release =>
    obtain ⟨-, rfl⟩ := h
    exact Nat.le_refl 0
  | makeDirectory name =>
    obtain rfl : w = v := h
    exact hv
  | removeDirectory name =>
    obtain rfl : w = v := h
    exact hv

theorem Run.cursor_le {v w : LogView} {steps : List Step} {replies : List Reply}
    (h : Run v steps replies w) (hv : v.cursor ≤ v.written.length) :
    w.cursor ≤ w.written.length := by
  induction h with
  | nil v => exact hv
  | cons head tail ih => exact ih (head.cursor_le hv)

end LogView

namespace Store

/-- The bytes and the cursor of a store. -/
def view (s : Store) : LogView := ⟨s.log, s.readPosition⟩

/-- What reads of the given sizes get one after another. -/
def gets (s : Store) : List Nat → List Bytes
  | [] => []
  | n :: rest => (s.get n).1 :: (s.get n).2.gets rest

theorem get_append_rest (s : Store) (n : Nat) :
    (s.get n).1 ++ (s.get n).2.log.drop (s.get n).2.readPosition = s.log.drop s.readPosition := by
  obtain ⟨hp, -, -, hlog, hcur⟩ := get_spec s n
  obtain ⟨later, hlater⟩ := hp
  rw [hlog, hcur, ← List.drop_drop, ← hlater, List.drop_left]

theorem flatten_gets_prefix (s : Store) (sizes : List Nat) :
    (s.gets sizes).flatten <+: s.log.drop s.readPosition := by
  induction sizes generalizing s with
  | nil => exact List.nil_prefix
  | cons n rest ih =>
    rw [← get_append_rest s n, gets, List.flatten_cons, List.prefix_append_right_inj]
    exact ih (s.get n).2

/-- Reads up to one that gets nothing get everything behind the cursor. -/
theorem flatten_gets {s : Store} {sizes : List Nat} (hpos : ∀ n ∈ sizes, 0 < n)
    (hend : [] ∈ s.gets sizes) : (s.gets sizes).flatten = s.log.drop s.readPosition := by
  induction sizes generalizing s with
  | nil => simp [gets] at hend
  | cons n rest ih =>
    obtain ⟨-, -, he, -, -⟩ := get_spec s n
    by_cases hnil : (s.get n).1 = []
    · have hdone : s.writePosition ≤ s.readPosition :=
        (he.1 hnil).resolve_left (Nat.pos_iff_ne_zero.1 (hpos n (by simp)))
      have hempty : s.log.drop s.readPosition = [] :=
        List.drop_eq_nil_of_le (by rw [length_log]; exact hdone)
      have hp := flatten_gets_prefix s (n :: rest)
      rw [hempty, List.prefix_nil] at hp
      rw [hp, hempty]
    · have hin : [] ∈ (s.get n).2.gets rest := by
        rcases List.mem_cons.1 hend with h | h
        · exact absurd h.symm hnil
        · exact h
      rw [gets, List.flatten_cons, ih (fun m hm => hpos m (List.mem_cons_of_mem n hm)) hin]
      exact get_append_rest s n

/-- More reads than there are bytes come to the end. -/
theorem nil_mem_gets {s : Store} {sizes : List Nat} (hpos : ∀ n ∈ sizes, 0 < n)
    (hmany : s.log.length - s.readPosition < sizes.length) : [] ∈ s.gets sizes := by
  induction sizes generalizing s with
  | nil => simp at hmany
  | cons n rest ih =>
    obtain ⟨-, -, he, hlog, hcur⟩ := get_spec s n
    by_cases hnil : (s.get n).1 = []
    · simp [gets, hnil]
    · have hlen : 0 < (s.get n).1.length := List.length_pos_iff.2 hnil
      have hmore : s.readPosition < s.log.length := by
        rw [length_log]
        exact Nat.lt_of_not_le fun hend => hnil (he.2 (.inr hend))
      have hfew : (s.get n).2.log.length - (s.get n).2.readPosition < rest.length := by
        rw [hlog, hcur]
        simp only [List.length_cons] at hmany
        omega
      exact List.mem_cons_of_mem _ (ih (fun m hm => hpos m (List.mem_cons_of_mem n hm)) hfew)

end Store

namespace StoreScenario

/-- Takes steps in turn. -/
def run : StoreScenario → List Step → List Reply × StoreScenario
  | s, [] => ([], s)
  | s, step :: rest =>
    let (reply, s) := s.step step
    let (replies, s) := run s rest
    (reply :: replies, s)

def Step.isPut : Step → Bool
  | .put _ => true
  | _ => false

def Reply.isDone : Reply → Bool
  | .done => true
  | _ => false

/-- Whether every append among the steps was answered with success. -/
def Appended (steps : List Step) (replies : List Reply) : Prop :=
  ∀ p ∈ steps.zip replies, p.1.isPut = true → p.2.isDone = true

instance (steps : List Step) (replies : List Reply) : Decidable (Appended steps replies) :=
  inferInstanceAs (Decidable (∀ p ∈ steps.zip replies, p.1.isPut = true → p.2.isDone = true))

theorem Reply.eq_done {reply : Reply} (h : reply.isDone = true) : reply = .done := by
  cases reply with
  | done => rfl
  | got data => cases h
  | directory worked => cases h
  | failed e => cases h

theorem run_cons (s : StoreScenario) (step : Step) (rest : List Step) :
    s.run (step :: rest) =
      ((s.step step).1 :: ((s.step step).2.run rest).1, ((s.step step).2.run rest).2) := rfl

theorem Appended.head {step : Step} {steps : List Step} {reply : Reply} {replies : List Reply}
    (h : Appended (step :: steps) (reply :: replies)) (hs : step.isPut = true) : reply = .done :=
  Reply.eq_done (h (step, reply) (by simp) hs)

theorem Appended.tail {step : Step} {steps : List Step} {reply : Reply} {replies : List Reply}
    (h : Appended (step :: steps) (reply :: replies)) : Appended steps replies :=
  fun p hp => h p (by simp [hp])

/-- Each step of a store is one that a log permits, unless it is an append that failed. -/
theorem step_permits (s : StoreScenario) (step : Step)
    (hput : step.isPut = true → (s.step step).1 = .done) :
    s.store.view.Permits step (s.step step).1 (s.step step).2.store.view := by
  cases step with
  | put data =>
    have hdone := hput rfl
    refine ⟨hdone, ?_⟩
    rcases hp : s.store.put data with ⟨e | u, t⟩
    · simp only [StoreScenario.step, hp] at hdone
      cases hdone
    · obtain ⟨hlog, hcur⟩ := Store.put_spec hp
      simp [StoreScenario.step, hp, Store.view, hlog, hcur]
  | get n =>
    obtain ⟨hp, hn, he, hlog, hcur⟩ := Store.get_spec s.store n
    refine ⟨(s.store.get n).1, rfl, hp, hn, ?_, ?_⟩
    · rw [he, ← Store.length_log]
      rfl
    · simp [StoreScenario.step, Store.view, hlog, hcur]
  | seek target =>
    simp only [LogView.Permits, Store.view, Store.length_log]
    split
    · rename_i hle
      obtain ⟨t, ht, hlog, hcur⟩ := Store.seek_of_le hle
      simp only [StoreScenario.step, ht, hlog, hcur]
      exact ⟨rfl, trivial⟩
    · rename_i hlt
      have hf := Store.seek_of_lt (Nat.lt_of_not_le hlt)
      simp only [StoreScenario.step, hf]
      exact ⟨rfl, trivial⟩
  | release =>
    obtain ⟨hlog, hcur, hr⟩ := Store.release_spec s.store
    refine ⟨?_, ?_⟩
    · rcases hr with hr | ⟨path, hr⟩
      · simp only [StoreScenario.step, hr]
        exact .inl rfl
      · simp only [StoreScenario.step, hr]
        exact .inr ⟨path, noSuchFile, rfl⟩
    · simp [StoreScenario.step, Store.view, hlog, hcur]
  | makeDirectory name =>
    simp only [LogView.Permits, StoreScenario.step, Store.view]
    split
    · obtain ⟨hlog, hcur⟩ := Store.log_directoryMade name s.store
      rw [hlog, hcur]
    · rfl
  | removeDirectory name =>
    simp only [LogView.Permits, StoreScenario.step, Store.view]
    split
    · obtain ⟨hlog, hcur⟩ := Store.log_directoryRemoved name s.store
      rw [hlog, hcur]
    · rfl

theorem run_permits (s : StoreScenario) (steps : List Step)
    (hputs : Appended steps (s.run steps).1) :
    LogView.Run s.store.view steps (s.run steps).1 (s.run steps).2.store.view := by
  induction steps generalizing s with
  | nil => exact .nil _
  | cons step rest ih =>
    rw [run_cons] at hputs ⊢
    exact .cons (step_permits s step hputs.head) (ih (s.step step).2 hputs.tail)

/-- A reply without the place of a file that was left behind. -/
def Reply.unplaced : Reply → Reply
  | .failed (.spillLeft _ e) => .failed (.spillLeft "" e)
  | r => r

/-- Stores that are alike answer alike, and stay so. -/
theorem step_alike {s t : Store} (h : s.Alike t) (directories : Directories) (step : Step) :
    ((⟨s, directories⟩ : StoreScenario).step step).1.unplaced =
        ((⟨t, directories⟩ : StoreScenario).step step).1.unplaced ∧
      ((⟨s, directories⟩ : StoreScenario).step step).2.store.Alike
        ((⟨t, directories⟩ : StoreScenario).step step).2.store ∧
      ((⟨s, directories⟩ : StoreScenario).step step).2.directories =
        ((⟨t, directories⟩ : StoreScenario).step step).2.directories := by
  cases h with
  | memory s => exact ⟨rfl, .refl _, rfl⟩
  | threshold s k =>
    cases step with
    | put data =>
      obtain ⟨j, hj⟩ := s.put_recount k data
      simp only [StoreScenario.step, Store.put, hj]
      exact ⟨trivial, .threshold _ j, trivial⟩
    | get n =>
      simp only [StoreScenario.step, Store.get, s.get_recount k n]
      exact ⟨trivial, .threshold _ k, trivial⟩
    | seek target =>
      simp only [StoreScenario.step, Store.seek, s.seek_recount k target]
      exact ⟨trivial, .threshold _ k, trivial⟩
    | release =>
      obtain ⟨hs, hr⟩ := s.release_recount k
      simp only [StoreScenario.step, Store.release, hs]
      refine ⟨?_, .threshold _ k, trivial⟩
      rcases hr with hr | ⟨p, q, e, hp, hq⟩
      · rw [hr]
      · rw [hp, hq]
        rfl
    | makeDirectory name =>
      simp only [StoreScenario.step, Store.directoryMade, s.directoryMade_recount k name]
      refine ⟨trivial, ?_, trivial⟩
      split
      · exact .threshold _ k
      · exact .threshold s k
    | removeDirectory name =>
      simp only [StoreScenario.step, Store.directoryRemoved, s.directoryRemoved_recount k name]
      refine ⟨trivial, ?_, trivial⟩
      split
      · exact .threshold _ k
      · exact .threshold s k

theorem run_alike {s t : Store} (h : s.Alike t) (directories : Directories) (steps : List Step) :
    ((⟨s, directories⟩ : StoreScenario).run steps).1.map Reply.unplaced =
      ((⟨t, directories⟩ : StoreScenario).run steps).1.map Reply.unplaced := by
  induction steps generalizing s t directories with
  | nil => rfl
  | cons step rest ih =>
    obtain ⟨hr, ha, hd⟩ := step_alike h directories step
    simp only [run_cons, List.map_cons, hr]
    rcases hs : (⟨s, directories⟩ : StoreScenario).step step with ⟨rs, s', ds⟩
    rcases ht : (⟨t, directories⟩ : StoreScenario).step step with ⟨rt, t', dt⟩
    rw [hs, ht] at ha hd
    obtain rfl : ds = dt := hd
    exact congrArg _ (ih ha ds)

theorem settings_step (s : StoreScenario) (step : Step) :
    (s.step step).2.store.settings = s.store.settings := by
  obtain ⟨store, directories⟩ := s
  cases store with
  | memory s =>
    cases step with
    | put data => rfl
    | get n => rfl
    | seek target =>
      simp only [StoreScenario.step, Store.seek, MemoryStore.seek]
      split <;> rfl
    | release => rfl
    | makeDirectory name =>
      simp only [StoreScenario.step, Store.directoryMade]
      split <;> rfl
    | removeDirectory name =>
      simp only [StoreScenario.step, Store.directoryRemoved]
      split <;> rfl
  | threshold s =>
    cases step with
    | put data =>
      obtain ⟨ht, hd⟩ := s.put_settings data
      simp [StoreScenario.step, Store.put, Store.settings, ht, hd]
    | get n =>
      obtain ⟨-, -, -, hs⟩ := s.get_spec n
      simp [StoreScenario.step, Store.get, Store.settings, hs]
    | seek target =>
      simp only [StoreScenario.step, Store.seek, ThresholdStore.seek]
      split <;> rfl
    | release =>
      obtain ⟨hs, -⟩ := s.release_spec
      simp [StoreScenario.step, Store.release, Store.settings, hs]
    | makeDirectory name =>
      simp only [StoreScenario.step, Store.directoryMade, ThresholdStore.directoryMade]
      split
      · split <;> rfl
      · rfl
    | removeDirectory name =>
      simp only [StoreScenario.step, Store.directoryRemoved, ThresholdStore.directoryRemoved]
      split
      · split <;> rfl
      · rfl

theorem settings_run (s : StoreScenario) (steps : List Step) :
    (s.run steps).2.store.settings = s.store.settings := by
  induction steps generalizing s with
  | nil => rfl
  | cons step rest ih => rw [run_cons, ih, settings_step]

/-- Whatever its settings, a store that could make the files it needed answers every run of steps as
a log would and holds what the steps left in it. What its reads get up to the end depends on these
bytes and the cursor alone, and once emptied it answers as a new store does. -/
theorem run_refines_log (c : Store.Settings) (present : Bool) (directories : Directories)
    (steps : List Step)
    (hputs : Appended steps ((⟨c.build present, directories⟩ : StoreScenario).run steps).1) :
    let done := (⟨c.build present, directories⟩ : StoreScenario).run steps
    let s := done.2.store
    LogView.Run {} steps done.1 s.view ∧
      s.log = LogView.writtenFrom [] steps ∧ s.writePosition = s.log.length ∧
      s.readPosition ≤ s.writePosition ∧
      (∀ sizes : List Nat, (∀ n ∈ sizes, 0 < n) →
        (s.log.length - s.readPosition < sizes.length → [] ∈ s.gets sizes) ∧
          ([] ∈ s.gets sizes → (s.gets sizes).flatten = s.log.drop s.readPosition)) ∧
      (∀ t : Store, t.log = s.log → t.readPosition = s.readPosition →
        ∀ sizes others : List Nat, (∀ n ∈ sizes, 0 < n) → (∀ n ∈ others, 0 < n) →
          [] ∈ s.gets sizes → [] ∈ t.gets others →
            (s.gets sizes).flatten = (t.gets others).flatten) ∧
      ∀ (later : List Step) (around : Directories),
        ((⟨s.release.2, around⟩ : StoreScenario).run later).1.map Reply.unplaced =
          ((⟨c.build s.hasDirectory, around⟩ : StoreScenario).run later).1.map
            Reply.unplaced := by
  intro done s
  have hempty : (c.build present).view = {} := by
    obtain ⟨threshold, spillDir⟩ := c
    cases threshold <;> rfl
  have hrun : LogView.Run {} steps done.1 s.view := hempty ▸ run_permits _ steps hputs
  refine ⟨hrun, hrun.written_eq, (Store.length_log s).symm, ?_, ?_, ?_, ?_⟩
  · rw [← Store.length_log]
    exact hrun.cursor_le (Nat.le_refl 0)
  · intro sizes hpos
    exact ⟨Store.nil_mem_gets hpos, Store.flatten_gets hpos⟩
  · intro t hlog hcur sizes others hpos hpos' hend hend'
    rw [Store.flatten_gets hpos hend, Store.flatten_gets hpos' hend', hlog, hcur]
  · intro later around
    have hset : s.settings.build s.hasDirectory = c.build s.hasDirectory := by
      rw [settings_run, Store.settings_build]
    rw [← hset]
    exact run_alike (Store.alike_release s) around later

/-- A log whose first eight bytes lie in a file and whose last byte does not: a read ends with the
file, and the reads get the rest all the same. -/
theorem run_refines_log_across_file :
    let start : StoreScenario := ⟨Store.Settings.build ⟨some 4, some "dir"⟩ true, .initial⟩
    let steps : List Step := [.put [1, 2, 3], .put [4, 5, 6, 7, 8], .put [9], .seek 6]
    let s := (start.run steps).2.store
    Appended steps (start.run steps).1 ∧ s.gets [7, 7, 7] = [[7, 8], [9], []] ∧
      (s.gets [7, 7, 7]).flatten = s.log.drop s.readPosition := by
  intro start steps s
  have hputs : Appended steps (start.run steps).1 := by decide +kernel
  have hgets : s.gets [7, 7, 7] = [[7, 8], [9], []] := by decide +kernel
  have hend : [] ∈ s.gets [7, 7, 7] := by simp [hgets]
  obtain ⟨-, -, -, -, hreads, -, -⟩ :=
    run_refines_log ⟨some 4, some "dir"⟩ true .initial steps hputs
  exact ⟨hputs, hgets, (hreads [7, 7, 7] (by simp)).2 hend⟩

end StoreScenario

end StreamLayers
