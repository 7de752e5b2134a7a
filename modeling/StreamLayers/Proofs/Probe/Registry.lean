import Mathlib.Algebra.BigOperators.Group.List.Basic
import Mathlib.Algebra.GroupWithZero.Nat
import Mathlib.Data.List.Nodup
import StreamLayers.Probe

/-!
The registry as a map from sites to tallies. Numbers of tallies are given out in order and never
taken back, so a site keeps its tally and shares it with no other.
-/

namespace StreamLayers

namespace Tally

theorem add_eq (a b : Tally) : a + b =
    ⟨a.instances + b.instances, a.bytes + b.bytes, a.reads + b.reads, a.nanos + b.nanos⟩ := rfl

instance : Zero Tally := ⟨{}⟩

instance : AddCommMonoid Tally where
  add_assoc a b c := by simp only [add_eq, UInt64.add_assoc]
  zero_add a := by
    show ({} : Tally) + a = a
    simp only [add_eq, UInt64.zero_add]
  add_zero a := by
    show a + ({} : Tally) = a
    simp only [add_eq, UInt64.add_zero]
  add_comm a b := by simp only [add_eq, UInt64.add_comm]
  nsmul := nsmulRec

@[simp] theorem default_eq_zero : ({} : Tally) = 0 := rfl

end Tally

namespace CallSite

theorem le_iff {a b : CallSite} :
    a.le b = true ↔
      a.file < b.file ∨
        a.file = b.file ∧ (a.line < b.line ∨ a.line = b.line ∧ a.column ≤ b.column) := by
  simp [le]

theorem le_trans {a b c : CallSite} (hab : a.le b = true) (hbc : b.le c = true) :
    a.le c = true := by
  rw [le_iff] at *
  rcases hab with hab | ⟨hab, hline⟩ <;> rcases hbc with hbc | ⟨hbc, hline'⟩
  · exact .inl (String.lt_trans hab hbc)
  · exact .inl (hbc ▸ hab)
  · exact .inl (hab ▸ hbc)
  · exact .inr ⟨hab.trans hbc, by omega⟩

theorem le_total (a b : CallSite) : (a.le b || b.le a) = true := by
  rw [Bool.or_eq_true, le_iff, le_iff]
  rcases Std.lt_trichotomy a.file b.file with hlt | heq | hgt
  · exact .inl (.inl hlt)
  · rcases Nat.lt_trichotomy a.line b.line with hlt | hline | hgt
    · exact .inl (.inr ⟨heq, .inl hlt⟩)
    · rcases Nat.le_total a.column b.column with hcol | hcol
      · exact .inl (.inr ⟨heq, .inr ⟨hline, hcol⟩⟩)
      · exact .inr (.inr ⟨heq.symm, .inr ⟨hline.symm, hcol⟩⟩)
    · exact .inr (.inr ⟨heq.symm, .inl hgt⟩)
  · exact .inr (.inl hgt)

end CallSite

namespace Registry

/-- Every site has one tally, and the tallies are numbered in the order of their creation. -/
structure Sound (r : Registry) : Prop where
  keys : (r.index.map Prod.fst).Nodup
  numbers : r.index.map Prod.snd = List.range r.cells.length

/-- What was counted at a site, which is nothing where the site has no tally. -/
def total (r : Registry) (site : CallSite) : Tally := (r.site? site).getD 0

variable {r : Registry} {site site' : CallSite} {i j : Nat} {t : Tally}

theorem sound_empty : Sound {} := ⟨List.nodup_nil, rfl⟩

namespace Sound

theorem find_iff (h : r.Sound) : r.find? site = some i ↔ (site, i) ∈ r.index := by
  unfold find?
  constructor
  · intro hfind
    obtain ⟨before, later, heq, -⟩ := List.lookup_eq_some_iff.1 hfind
    rw [heq]
    exact List.mem_append_right before List.mem_cons_self
  · intro hmem
    obtain ⟨before, later, heq⟩ := List.append_of_mem hmem
    refine List.lookup_eq_some_iff.2 ⟨before, later, heq, fun p hp => bne_iff_ne.2 ?_⟩
    have hkeys := h.keys
    rw [heq, List.map_append, List.map_cons, List.nodup_append] at hkeys
    exact (hkeys.2.2 p.1 (List.mem_map_of_mem hp) site List.mem_cons_self).symm

theorem find_lt (h : r.Sound) (hi : r.find? site = some i) : i < r.cells.length := by
  have hmem := List.mem_map_of_mem (f := Prod.snd) (h.find_iff.1 hi)
  rw [h.numbers] at hmem
  exact List.mem_range.1 hmem

/-- No two sites share a tally. -/
theorem find_inj (h : r.Sound) (hi : r.find? site = some i) (hj : r.find? site' = some i) :
    site = site' := by
  have hnodup : (r.index.map Prod.snd).Nodup := by
    rw [h.numbers]
    exact List.nodup_range
  exact congrArg Prod.fst
    (List.inj_on_of_nodup_map hnodup (h.find_iff.1 hi) (h.find_iff.1 hj) rfl)

theorem isSome_site (h : r.Sound) : (r.site? site).isSome = (r.find? site).isSome := by
  unfold site?
  rcases hi : r.find? site with _ | i
  · rfl
  · simp [h.find_lt hi]

end Sound

/-- Looking up a site gives it a number and changes that of no other. -/
theorem find_counters (r : Registry) (site site' : CallSite) :
    (r.counters site).2.find? site' =
      if site' = site then some (r.counters site).1 else r.find? site' := by
  unfold counters
  rcases hi : r.find? site with _ | i
  · simp only [find?] at hi ⊢
    rw [List.lookup_append]
    split
    · rename_i heq
      rw [heq, hi]
      simp
    · rename_i hne
      have hbeq : (site' == site) = false := beq_eq_false_iff_ne.2 hne
      simp [List.lookup_cons, hbeq]
  · dsimp only
    split
    · rename_i heq
      rw [heq, hi]
    · rfl

theorem find_counters_self (r : Registry) (site : CallSite) :
    (r.counters site).2.find? site = some (r.counters site).1 := by
  rw [find_counters, if_pos rfl]

/-- A number that was given out stays. -/
theorem find_counters_of_some (hi : r.find? site' = some i) :
    (r.counters site).2.find? site' = some i := by
  rw [find_counters]
  split
  · rename_i heq
    rw [← heq, counters, hi]
  · exact hi

theorem Sound.counters (h : r.Sound) (site : CallSite) : (r.counters site).2.Sound := by
  unfold Registry.counters
  rcases hi : r.find? site with _ | i
  · dsimp only
    constructor
    · rw [List.map_append, List.nodup_append]
      refine ⟨h.keys, List.nodup_singleton site, fun a ha b hb => ?_⟩
      rintro rfl
      obtain ⟨⟨a, i⟩, hmem, rfl⟩ := List.mem_map.1 ha
      obtain rfl : a = site := List.mem_singleton.1 hb
      rw [h.find_iff.2 hmem] at hi
      cases hi
    · rw [List.map_append, h.numbers, List.length_append, List.length_singleton, List.range_succ]
      rfl
  · exact h

/-- A lookup counts nothing. -/
theorem Sound.total_counters (h : r.Sound) (site site' : CallSite) :
    (r.counters site).2.total site' = r.total site' := by
  have hfind := find_counters r site site'
  rcases hi : r.find? site with _ | i
  · simp only [Registry.counters, hi] at hfind ⊢
    unfold total site?
    rw [hfind]
    by_cases heq : site' = site
    · rw [if_pos heq, heq, hi]
      simp
    · rw [if_neg heq]
      rcases hj : r.find? site' with _ | j
      · rfl
      · rw [Option.bind_some, Option.bind_some, List.getElem?_append_left (h.find_lt hj)]
  · simp only [Registry.counters, hi]

@[simp] theorem find_record (r : Registry) (i : Nat) (t : Tally) (site : CallSite) :
    (r.record i t).find? site = r.find? site := rfl

theorem Sound.record (h : r.Sound) (i : Nat) (t : Tally) : (r.record i t).Sound := by
  refine ⟨h.keys, ?_⟩
  rw [Registry.record, List.length_modify]
  exact h.numbers

/-- What is recorded counts at the one site that has the number. -/
theorem Sound.total_record (h : r.Sound) (hi : r.find? site = some i) (t : Tally)
    (site' : CallSite) :
    (r.record i t).total site' = r.total site' + if site' = site then t else 0 := by
  unfold total site?
  rw [find_record]
  rcases hj : r.find? site' with _ | j
  · have hne : site' ≠ site := by
      rintro rfl
      rw [hi] at hj
      cases hj
    rw [if_neg hne, add_zero]
    rfl
  · have hcell := List.getElem?_eq_getElem (h.find_lt hj)
    rw [Option.bind_some, Option.bind_some, Registry.record, List.getElem?_modify, hcell]
    by_cases heq : site' = site
    · subst heq
      obtain rfl : i = j := Option.some.inj (hi.symm.trans hj)
      rw [if_pos rfl]
      simp
    · have hne : ¬ i = j := by
        rintro rfl
        exact heq (h.find_inj hj hi)
      rw [if_neg heq, add_zero]
      simp [hne]

theorem Sound.mem_sites (h : r.Sound) : (site, t) ∈ r.sites ↔ r.site? site = some t := by
  unfold sites site?
  rw [(List.mergeSort_perm _ _).mem_iff, List.mem_filterMap, Option.bind_eq_some_iff]
  constructor
  · rintro ⟨⟨s, i⟩, hmem, hcell⟩
    obtain ⟨u, hu, heq⟩ := Option.map_eq_some_iff.1 hcell
    obtain ⟨rfl, rfl⟩ := Prod.mk.inj heq
    exact ⟨i, h.find_iff.2 hmem, hu⟩
  · rintro ⟨i, hi, hcell⟩
    exact ⟨(site, i), h.find_iff.1 hi, Option.map_eq_some_iff.2 ⟨t, hcell, rfl⟩⟩

/-- Every site is listed once, and the list is in the order of the locations. -/
theorem Sound.sites_ordered (h : r.Sound) :
    (r.sites.map Prod.fst).Pairwise fun a b => a.le b = true ∧ a ≠ b := by
  unfold sites
  generalize hl : r.index.filterMap _ = l
  have hne : l.Pairwise fun a b => a.1 ≠ b.1 := by
    rw [← hl]
    refine (List.pairwise_map.1 h.keys).filterMap _ fun a b hab x hx y hy => ?_
    obtain ⟨t, -, rfl⟩ := Option.map_eq_some_iff.1 hx
    obtain ⟨u, -, rfl⟩ := Option.map_eq_some_iff.1 hy
    exact hab
  have hle := @List.pairwise_mergeSort _ (fun a b : CallSite × Tally => a.1.le b.1)
    (fun _ _ _ => CallSite.le_trans) (fun a b => CallSite.le_total a.1 b.1) l
  have hsorted := hne.perm (List.mergeSort_perm l fun a b => a.1.le b.1).symm fun hab => hab.symm
  exact List.pairwise_map.2 (hle.and hsorted)

end Registry

end StreamLayers
