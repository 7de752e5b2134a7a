import StreamLayers.Sink

/-!
What takes bytes without refusing any, and sinks under observation, which note what their writes
came to and otherwise do what the sink behind them does.
-/

namespace StreamLayers

variable {κ κ' : Type}

section Writing

variable (write : κ → Bytes → Except Fault Unit × κ)

def afterWrites (k : κ) (blocks : List Bytes) : κ := blocks.foldl (fun k d => (write k d).2) k

/-- None of the blocks is refused. -/
def WritesOk : κ → List Bytes → Prop
  | _, [] => True
  | k, d :: rest => (write k d).1 = .ok () ∧ WritesOk (write k d).2 rest

theorem WritesOk.of_append {write : κ → Bytes → Except Fault Unit × κ} {k : κ} {d : Bytes}
    {front later : List Bytes} (h : WritesOk write k (front ++ d :: later)) :
    (write (afterWrites write k front) d).1 = .ok () := by
  induction front generalizing k with
  | nil => exact h.1
  | cons b front ih => exact ih h.2

/-- Nothing of `data` is refused, whatever blocks a front of it is written in. -/
def Takes (k : κ) (data : Bytes) : Prop :=
  ∀ blocks, [] ∉ blocks → blocks.flatten <+: data → WritesOk write k blocks

variable {write} {k : κ} {d rest : Bytes}

theorem Takes.step (h : Takes write k (d ++ rest)) (hd : d ≠ []) :
    (write k d).1 = .ok () ∧ Takes write (write k d).2 rest := by
  have hone := h [d] (by simpa using hd.symm) (by simp)
  refine ⟨hone.1, fun blocks hne hfront => ?_⟩
  have hmore : [] ∉ d :: blocks := List.not_mem_cons_of_ne_of_not_mem hd.symm hne
  exact (h (d :: blocks) hmore ((List.prefix_append_right_inj d).2 hfront)).2

/-- What never refuses anything takes all data. -/
theorem Takes.of_invariant {Q : κ → Prop}
    (hstep : ∀ k d, Q k → (write k d).1 = .ok () ∧ Q (write k d).2) (hk : Q k) (data : Bytes) :
    Takes write k data := by
  have hall (blocks : List Bytes) : WritesOk write k blocks := by
    induction blocks generalizing k with
    | nil => trivial
    | cons d rest ih =>
      obtain ⟨hok, hnext⟩ := hstep k d hk
      exact ⟨hok, ih hnext⟩
  exact fun blocks _ _ => hall blocks

end Writing

/-- A sink that `data` can be pumped into: it takes all of it, and can be flushed then. -/
structure Absorbs [ByteSink κ] (k : κ) (data : Bytes) : Prop where
  takes : Takes ByteSink.writeAll k data
  flushes : ∀ blocks, [] ∉ blocks → blocks.flatten = data →
    (ByteSink.flush (afterWrites ByteSink.writeAll k blocks)).1 = .ok ()

theorem Absorbs.flush [ByteSink κ] {k : κ} (h : Absorbs k []) : (ByteSink.flush k).1 = .ok () :=
  h.flushes [] (by simp) rfl

theorem Absorbs.step [ByteSink κ] {k : κ} {d rest : Bytes} (h : Absorbs k (d ++ rest))
    (hd : d ≠ []) : (ByteSink.writeAll k d).1 = .ok () ∧ Absorbs (ByteSink.writeAll k d).2 rest := by
  obtain ⟨hok, htakes⟩ := h.takes.step hd
  refine ⟨hok, htakes, fun blocks hne hall => ?_⟩
  have hmore : [] ∉ d :: blocks := List.not_mem_cons_of_ne_of_not_mem hd.symm hne
  exact h.flushes (d :: blocks) hmore (congrArg (d ++ ·) hall)

/-- A sink and what became of the writes to it. -/
structure Observed (κ : Type) where
  inner : κ
  /-- The bytes of the writes that succeeded. -/
  accepted : Bytes := []
  /-- Whether a write has failed. -/
  refused : Bool := false
  deriving Repr

namespace Observed

def of (k : κ) : Observed κ := { inner := k }

instance [ByteSink κ] : ByteSink (Observed κ) where
  writeAll k data :=
    match ByteSink.writeAll k.inner data with
    | (.ok (), inner) => (.ok (), { k with inner, accepted := k.accepted ++ data })
    | (.error e, inner) => (.error e, { k with inner, refused := true })
  flush k :=
    let (r, inner) := ByteSink.flush k.inner
    (r, { k with inner })
  close k :=
    let (r, inner) := ByteSink.close k.inner
    (r, { k with inner })

/-- A sink that has refused nothing after a write has taken it all. -/
theorem accepted_writeAll [ByteSink κ] (k : Observed κ) (data : Bytes)
    (h : (ByteSink.writeAll k data).2.refused = false) :
    k.refused = false ∧ (ByteSink.writeAll k data).2.accepted = k.accepted ++ data := by
  simp only [ByteSink.writeAll] at h ⊢
  rcases hw : ByteSink.writeAll k.inner data with ⟨e | u, i⟩ <;> rw [hw] at h
  · cases h
  · exact ⟨h, rfl⟩

theorem writeAll_of_ok [ByteSink κ] {k : Observed κ} {data : Bytes}
    (h : (ByteSink.writeAll k.inner data).1 = .ok ()) :
    ByteSink.writeAll k data =
      (.ok (), { k with
        inner := (ByteSink.writeAll k.inner data).2
        accepted := k.accepted ++ data }) := by
  rcases hw : ByteSink.writeAll k.inner data with ⟨e | u, i⟩
  · rw [hw] at h
    cases h
  · simp only [ByteSink.writeAll, hw]

theorem flush_of_ok [ByteSink κ] {k : Observed κ} (h : (ByteSink.flush k.inner).1 = .ok ()) :
    ByteSink.flush k = (.ok (), { k with inner := (ByteSink.flush k.inner).2 }) := Prod.ext h rfl

end Observed

end StreamLayers
