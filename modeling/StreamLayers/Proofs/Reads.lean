import StreamLayers.Proofs.Source

/-!
Reads that are built from single reads, by the single reads that they come down to. Their fuel is
never what ends them.
-/

namespace StreamLayers

namespace ByteSource

variable {σ : Type} [ByteSource σ]

/-- An answer with more bytes in front, if it is not a failure. -/
def prepend (data : Bytes) (r : Except Fault Bytes × σ) : Except Fault Bytes × σ :=
  (r.1.map (data ++ ·), r.2)

omit [ByteSource σ] in
@[simp] theorem prepend_nil (r : Except Fault Bytes × σ) : prepend [] r = r := by
  rcases r with ⟨_ | _, s⟩ <;> rfl

omit [ByteSource σ] in
theorem prepend_prepend (front data : Bytes) (r : Except Fault Bytes × σ) :
    prepend front (prepend data r) = prepend (front ++ data) r := by
  rcases r with ⟨e | d, s⟩
  · rfl
  · show (Except.ok (front ++ (data ++ d)), s) = (Except.ok (front ++ data ++ d), s)
    rw [List.append_assoc]

omit [ByteSource σ] in
theorem prepend_ok_nil (data : Bytes) (s : σ) : prepend data (.ok [], s) = (.ok data, s) := by
  show (Except.ok (data ++ []), s) = (.ok data, s)
  rw [List.append_nil]

theorem fillFrom_acc (fuel : Nat) (s : σ) (room : Nat) (acc : List Bytes) :
    fillFrom fuel s room acc = prepend acc.reverse.flatten (fillFrom fuel s room []) := by
  induction fuel generalizing s room acc with
  | zero => exact (prepend_ok_nil _ s).symm
  | succ fuel ih =>
    unfold fillFrom
    by_cases hroom : room = 0
    · rw [if_pos hroom, if_pos hroom]
      exact (prepend_ok_nil _ s).symm
    · rw [if_neg hroom, if_neg hroom]
      rcases read s room with ⟨e | d, t⟩
      · rfl
      · cases d with
        | nil => exact (prepend_ok_nil _ t).symm
        | cons b d =>
          have hfront := ih t (room - (d.length + 1)) ((b :: d) :: acc)
          have hone := ih t (room - (d.length + 1)) [b :: d]
          have hacc : ((b :: d) :: acc).reverse.flatten = acc.reverse.flatten ++ (b :: d) := by simp
          dsimp only
          rw [hfront, hone, hacc, prepend_prepend, List.reverse_singleton, List.flatten_singleton]

theorem fillFrom_fuel {fuel fuel' room : Nat} (s : σ) (h : room ≤ fuel) (h' : room ≤ fuel') :
    fillFrom fuel s room [] = fillFrom fuel' s room [] := by
  induction fuel generalizing fuel' room s with
  | zero =>
    obtain rfl : room = 0 := Nat.le_zero.1 h
    cases fuel' <;> rfl
  | succ fuel ih =>
    by_cases hroom : room = 0
    · subst hroom
      cases fuel' <;> rfl
    · obtain ⟨fuel', rfl⟩ := Nat.exists_eq_add_one.2 (Nat.lt_of_lt_of_le (Nat.pos_of_ne_zero hroom) h')
      unfold fillFrom
      rw [if_neg hroom, if_neg hroom]
      rcases read s room with ⟨e | d, t⟩
      · rfl
      · cases d with
        | nil => rfl
        | cons b d =>
          have hleft : room - (d.length + 1) ≤ fuel := by omega
          have hleft' : room - (d.length + 1) ≤ fuel' := by omega
          dsimp only
          rw [fillFrom_acc fuel, fillFrom_acc fuel', ih t hleft hleft']

/-- Reading a full buffer takes one read, and goes on where that got something. -/
theorem readFull_pos (s : σ) {n : Nat} (hn : 0 < n) :
    readFull s n =
      match read s n with
      | (.error e, t) => (.error e, t)
      | (.ok [], t) => (.ok [], t)
      | (.ok (b :: d), t) => prepend (b :: d) (readFull t (n - (d.length + 1))) := by
  obtain ⟨m, rfl⟩ := Nat.exists_eq_add_one.2 hn
  have hroom : ¬ m + 1 = 0 := Nat.succ_ne_zero m
  unfold readFull
  rw [fillFrom, if_neg hroom]
  rcases read s (m + 1) with ⟨e | d, t⟩
  · rfl
  · cases d with
    | nil => rfl
    | cons b d =>
      have hleft : m + 1 - (d.length + 1) ≤ m := by omega
      dsimp only
      rw [fillFrom_acc, fillFrom_fuel t hleft (Nat.le_refl _), List.reverse_singleton,
        List.flatten_singleton]

/-- The sizes of the single reads that fill a buffer. -/
def fillSizes : Nat → σ → Nat → List Nat
  | 0, _, _ => []
  | fuel + 1, s, room =>
    if room = 0 then []
    else
      match read s room with
      | (.ok (_ :: d), t) => room :: fillSizes fuel t (room - (d.length + 1))
      | _ => [room]

/-- The sizes of the single reads that reading a full buffer of `n` bytes comes down to. -/
def fullSizes (s : σ) (n : Nat) : List Nat := fillSizes n s n

theorem fillSizes_fuel {fuel fuel' room : Nat} (s : σ) (h : room ≤ fuel) (h' : room ≤ fuel') :
    fillSizes fuel s room = fillSizes fuel' s room := by
  induction fuel generalizing fuel' room s with
  | zero =>
    obtain rfl : room = 0 := Nat.le_zero.1 h
    cases fuel' <;> rfl
  | succ fuel ih =>
    by_cases hroom : room = 0
    · subst hroom
      cases fuel' <;> rfl
    · obtain ⟨fuel', rfl⟩ := Nat.exists_eq_add_one.2 (Nat.lt_of_lt_of_le (Nat.pos_of_ne_zero hroom) h')
      unfold fillSizes
      rw [if_neg hroom, if_neg hroom]
      rcases read s room with ⟨e | d, t⟩
      · rfl
      · cases d with
        | nil => rfl
        | cons b d =>
          have hleft : room - (d.length + 1) ≤ fuel := by omega
          have hleft' : room - (d.length + 1) ≤ fuel' := by omega
          dsimp only
          rw [ih t hleft hleft']

theorem fullSizes_pos (s : σ) {n : Nat} (hn : 0 < n) :
    fullSizes s n =
      match read s n with
      | (.ok (_ :: d), t) => n :: fullSizes t (n - (d.length + 1))
      | _ => [n] := by
  obtain ⟨m, rfl⟩ := Nat.exists_eq_add_one.2 hn
  have hroom : ¬ m + 1 = 0 := Nat.succ_ne_zero m
  unfold fullSizes
  rw [fillSizes, if_neg hroom]
  rcases read s (m + 1) with ⟨e | d, t⟩
  · rfl
  · cases d with
    | nil => rfl
    | cons b d =>
      have hleft : m + 1 - (d.length + 1) ≤ m := by omega
      dsimp only
      rw [fillSizes_fuel t hleft (Nat.le_refl _)]

section Map

variable {τ : Type} [ByteSource τ] {f : σ → τ}

theorem readFull_map (hf : ∀ s n, read (f s) n = ((read s n).1, f (read s n).2)) (s : σ) (n : Nat) :
    readFull (f s) n = ((readFull s n).1, f (readFull s n).2) := by
  induction n using Nat.strongRecOn generalizing s with
  | ind n ih =>
    rcases Nat.eq_zero_or_pos n with rfl | hn
    · rfl
    · rw [readFull_pos s hn, readFull_pos (f s) hn, hf]
      rcases read s n with ⟨e | _ | ⟨b, d⟩, t⟩
      · rfl
      · rfl
      · dsimp only
        rw [ih (n - (d.length + 1)) (by omega)]
        rfl

theorem fullSizes_map (hf : ∀ s n, read (f s) n = ((read s n).1, f (read s n).2)) (s : σ) (n : Nat) :
    fullSizes (f s) n = fullSizes s n := by
  induction n using Nat.strongRecOn generalizing s with
  | ind n ih =>
    rcases Nat.eq_zero_or_pos n with rfl | hn
    · rfl
    · rw [fullSizes_pos s hn, fullSizes_pos (f s) hn, hf]
      rcases read s n with ⟨e | _ | ⟨b, d⟩, t⟩
      · rfl
      · rfl
      · exact congrArg (n :: ·) (ih (n - (d.length + 1)) (by omega) t)

end Map

end ByteSource

/-- A source that notes the sizes of the reads it is asked for. -/
structure Traced (σ : Type) where
  inner : σ
  sizes : List Nat := []
  deriving Repr

instance {σ : Type} [ByteSource σ] : ByteSource (Traced σ) where
  name t := ByteSource.name t.inner
  read t n :=
    let (r, s) := ByteSource.read t.inner n
    (r, ⟨s, t.sizes ++ [n]⟩)
  canMark t := ByteSource.canMark t.inner
  mark t limit :=
    let (r, s) := ByteSource.mark t.inner limit
    (r, { t with inner := s })
  reset t :=
    let (r, s) := ByteSource.reset t.inner
    (r, { t with inner := s })
  close t :=
    let (r, s) := ByteSource.close t.inner
    (r, { t with inner := s })
  left t := ByteSource.left t.inner

/-- A function between sources that every read and close commutes with. -/
structure SourceMap {σ τ : Type} [ByteSource σ] [ByteSource τ] (f : σ → τ) : Prop where
  read : ∀ s n,
    ByteSource.read (f s) n = ((ByteSource.read s n).1, f (ByteSource.read s n).2)
  close : ∀ s, ByteSource.close (f s) = ((ByteSource.close s).1, f (ByteSource.close s).2)

theorem sourceMap_inner {σ : Type} [ByteSource σ] : SourceMap (Traced.inner (σ := σ)) where
  read _ _ := rfl
  close _ := rfl

end StreamLayers
