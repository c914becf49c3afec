import Mathlib

/-!
# Ordered maps

An ordered map as the list of its entries in ascending order of the keys. `insert` is an
insertion that leaves the map alone when the key is there already, as `std::map::insert`
does.

Such a list is determined by its members (`eq_of_mem_iff`), so when no two entries have the
same key, what has been inserted decides the map, and not the order of the insertions
(`insertAll_eq`). The first entry with a property is the one with the least key
(`find?_eq_some_iff`).
-/

namespace SortedMap

variable {κ α : Type} [LinearOrder κ]

/-- The keys are in ascending order. -/
abbrev Sorted (m : List (κ × α)) : Prop := m.Pairwise fun p q => p.1 < q.1

/-- Insert an entry unless its key is there. -/
def insert (k : κ) (a : α) : List (κ × α) → List (κ × α)
  | [] => [(k, a)]
  | p :: m => if k < p.1 then (k, a) :: p :: m else if k = p.1 then p :: m else p :: insert k a m

/-- Insert one entry after the other. -/
def insertAll (m : List (κ × α)) (l : List (κ × α)) : List (κ × α) :=
  l.foldl (fun m p => insert p.1 p.2 m) m

variable {m m' l l' : List (κ × α)} {k : κ} {a : α} {p : κ × α}

theorem mem_insert (hm : Sorted m) :
    p ∈ insert k a m ↔ p ∈ m ∨ p = (k, a) ∧ ∀ q ∈ m, q.1 ≠ k := by
  induction m with
  | nil => simp [insert]
  | cons q m ih =>
    obtain ⟨hq, hm⟩ := List.pairwise_cons.mp hm
    rw [insert]
    split
    · next hlt =>
      -- the key is below all others, so it is not there
      have hfree : ∀ q' ∈ q :: m, q'.1 ≠ k := by
        intro q' hq'
        rcases List.mem_cons.mp hq' with rfl | hq'
        · exact hlt.ne'
        · exact (hlt.trans (hq q' hq')).ne'
      rw [List.mem_cons, or_comm]
      exact or_congr_right (and_iff_left hfree).symm
    · split
      · next heq =>
        refine ⟨Or.inl, ?_⟩
        rintro (hp | ⟨-, hfree⟩)
        · exact hp
        · exact absurd heq.symm (hfree q List.mem_cons_self)
      · next hne =>
        rw [List.mem_cons, ih hm, List.mem_cons, or_assoc]
        refine or_congr_right (or_congr_right (and_congr_right fun _ => ?_))
        rw [List.forall_mem_cons]
        exact (and_iff_right (Ne.symm hne)).symm

theorem sorted_insert (hm : Sorted m) : Sorted (insert k a m) := by
  induction m with
  | nil => exact List.pairwise_singleton _ _
  | cons q m ih =>
    obtain ⟨hq, hm'⟩ := List.pairwise_cons.mp hm
    rw [insert]
    split
    · next hlt =>
      refine List.pairwise_cons.mpr ⟨fun q' hq' => ?_, hm⟩
      rcases List.mem_cons.mp hq' with rfl | hq'
      · exact hlt
      · exact hlt.trans (hq q' hq')
    · next hnlt =>
      split
      · exact hm
      · next hne =>
        -- the new entry goes further down, and is still above `q`
        refine List.pairwise_cons.mpr ⟨fun q' hq' => ?_, ih hm'⟩
        rcases (mem_insert hm').mp hq' with hq' | ⟨rfl, -⟩
        · exact hq q' hq'
        · exact lt_of_le_of_ne (not_lt.mp hnlt) (Ne.symm hne)

/-- A map is determined by its entries. -/
theorem eq_of_mem_iff (hm : Sorted m) (hm' : Sorted m') (h : ∀ p, p ∈ m ↔ p ∈ m') : m = m' := by
  have hnodup : ∀ {m : List (κ × α)}, Sorted m → m.Nodup := fun hm =>
    hm.imp fun hlt heq => hlt.ne (congrArg Prod.fst heq)
  -- distinct keys: no entry occurs twice, and the order of the keys fixes the rest
  have hperm : m.Perm m' := (List.perm_ext_iff_of_nodup (hnodup hm) (hnodup hm')).mpr h
  exact hperm.eq_of_pairwise (fun p q _ _ hpq hqp => absurd hqp hpq.asymm) hm hm'

/-- The first entry with a property is the one with the least key. -/
theorem find?_eq_some_iff (hm : Sorted m) {P : κ × α → Bool} :
    m.find? P = some p ↔ p ∈ m ∧ P p ∧ ∀ q ∈ m, P q → p.1 ≤ q.1 := by
  induction m with
  | nil => simp
  | cons r m ih =>
    obtain ⟨hr, hm⟩ := List.pairwise_cons.mp hm
    rw [List.find?_cons]
    split
    · next hP =>
      constructor
      · rintro ⟨rfl⟩
        refine ⟨List.mem_cons_self, hP, fun q hq _ => ?_⟩
        rcases List.mem_cons.mp hq with rfl | hq
        · exact le_refl _
        · exact (hr q hq).le
      · rintro ⟨hp, -, hleast⟩
        rcases List.mem_cons.mp hp with rfl | hp
        · rfl
        · exact absurd (hleast r List.mem_cons_self hP) (not_le.mpr (hr p hp))
    · next hP =>
      rw [ih hm, List.forall_mem_cons]
      have hne : P p = true → p ≠ r := by
        rintro hPp rfl
        rw [hPp] at hP
        cases hP
      constructor
      · rintro ⟨hp, hPp, hleast⟩
        refine ⟨List.mem_cons_of_mem _ hp, hPp, fun hPr => ?_, hleast⟩
        rw [hPr] at hP
        cases hP
      · rintro ⟨hp, hPp, -, hleast⟩
        exact ⟨(List.mem_cons.mp hp).resolve_left (hne hPp), hPp, hleast⟩

theorem sorted_insertAll (hm : Sorted m) : Sorted (insertAll m l) := by
  induction l generalizing m with
  | nil => exact hm
  | cons p l ih => exact ih (sorted_insert hm)

/-- The entries after insertions under new and different keys. -/
theorem mem_insertAll (hm : Sorted m) (hnew : ∀ p ∈ l, ∀ q ∈ m, q.1 ≠ p.1)
    (hl : (l.map Prod.fst).Nodup) : p ∈ insertAll m l ↔ p ∈ m ∨ p ∈ l := by
  induction l generalizing m with
  | nil => simp [insertAll]
  | cons r l ih =>
    obtain ⟨hr, hl⟩ := List.nodup_cons.mp hl
    obtain ⟨hnew_r, hnew⟩ := List.forall_mem_cons.mp hnew
    have hmem : ∀ q, q ∈ insert r.1 r.2 m ↔ q ∈ m ∨ q = r := fun q => by
      rw [mem_insert hm]
      exact or_congr_right (and_iff_left hnew_r)
    have hnext : ∀ p ∈ l, ∀ q ∈ insert r.1 r.2 m, q.1 ≠ p.1 := by
      intro p hp q hq
      rcases (hmem q).mp hq with hq | rfl
      · exact hnew p hp q hq
      · intro heq
        exact hr (heq ▸ List.mem_map_of_mem hp)
    -- the keys still to come are not those of `r` either, so the induction goes on after it
    show p ∈ insertAll (insert r.1 r.2 m) l ↔ _
    rw [ih (sorted_insert hm) hnext hl, hmem, List.mem_cons, or_assoc]

/-- **The order of the insertions does not matter**, only what is inserted. -/
theorem insertAll_eq (hm : Sorted m) (hnew : ∀ p ∈ l, ∀ q ∈ m, q.1 ≠ p.1)
    (hl : (l.map Prod.fst).Nodup) (hperm : l.Perm l') : insertAll m l = insertAll m l' := by
  have hl' : (l'.map Prod.fst).Nodup := ((hperm.map Prod.fst).nodup_iff).mp hl
  have hnew' : ∀ p ∈ l', ∀ q ∈ m, q.1 ≠ p.1 := fun p hp => hnew p (hperm.mem_iff.mpr hp)
  apply eq_of_mem_iff (sorted_insertAll hm) (sorted_insertAll hm)
  intro p
  rw [mem_insertAll hm hnew hl, mem_insertAll hm hnew' hl', hperm.mem_iff]

end SortedMap
