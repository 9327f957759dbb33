import EventMetrics.Proofs.Alert
import EventMetrics.Proofs.Table
import Mathlib.Algebra.BigOperators.Group.List.Basic
import Mathlib.Algebra.Group.Basic

namespace EventMetrics.Alert

open Keyed Tracker

variable {α : Type} [AddCommGroup α] {k : DimensionKey} {b : PastBucket α} {bs gone : List (PastBucket α)}
  {sums : Table DimensionKey (α × Nat)} {rows : List (DimensionKey × α)}

def held (k : DimensionKey) (bs : List (PastBucket α)) : List α := bs.filterMap (·.values.get? k)

def tally : List α → Option (α × Nat)
  | [] => none
  | v :: vs => some ((v :: vs).sum, (v :: vs).length)

def Tallies (sums : Table DimensionKey (α × Nat)) (bs : List (PastBucket α)) : Prop :=
  ∀ k, sums.get? k = tally (held k bs)

def withOne (v : α) (entry : Option (α × Nat)) : Option (α × Nat) :=
  some ((entry.getD (0, 0)).1 + v, (entry.getD (0, 0)).2 + 1)

def without (v : α) : Option (α × Nat) → Option (α × Nat)
  | none => none
  | some (sum, buckets) => if buckets ≤ 1 then none else some (sum - v, buckets - 1)

theorem tally_fst (vs : List α) : ((tally vs).map (·.1)).getD 0 = vs.sum := by
  cases vs with
  | nil => rfl
  | cons v vs => rfl

theorem withOne_tally (v : α) (vs : List α) : withOne v (tally vs) = tally (vs ++ [v]) := by
  cases vs with
  | nil => simp [withOne, tally]
  | cons w vs => simp [withOne, tally, add_assoc]

theorem without_tally (v : α) (vs : List α) : without v (tally (v :: vs)) = tally vs := by
  cases vs with
  | nil => rfl
  | cons w vs => simp [without, tally]

theorem get?_addValues (sums : Table DimensionKey (α × Nat)) (values : Table DimensionKey α)
    (k : DimensionKey) : (addValues sums values).get? k = match values.get? k with
      | none => sums.get? k
      | some v => withOne v (sums.get? k) := by
  refine Table.foldl_entries (·.get? k) _ withOne (fun sums e => ?_) values.ascending sums
  rw [Table.get?_insert]
  by_cases he : text e.1 = text k
  · rw [if_pos he, if_pos he.symm, Table.get?_congr he]
    rfl
  · rw [if_neg he, if_neg (Ne.symm he)]

theorem get?_forgetValues (sums : Table DimensionKey (α × Nat)) (values : Table DimensionKey α)
    (k : DimensionKey) : (forgetValues sums values).get? k = match values.get? k with
      | none => sums.get? k
      | some v => without v (sums.get? k) := by
  refine Table.foldl_entries (·.get? k) _ without (fun sums e => ?_) values.ascending sums
  by_cases he : text e.1 = text k
  · rw [if_pos he, ← Table.get?_congr he sums]
    rcases hs : sums.get? e.1 with _ | ⟨sum, buckets⟩
    · rw [← Table.get?_congr he, hs]
      rfl
    · simp only [without]
      split
      · rw [Table.get?_erase, if_pos he.symm]
      · rw [Table.get?_insert, if_pos he.symm]
  · rw [if_neg he]
    rcases sums.get? e.1 with _ | ⟨sum, buckets⟩
    · rfl
    · simp only []
      split
      · rw [Table.get?_erase, if_neg (Ne.symm he)]
      · rw [Table.get?_insert, if_neg (Ne.symm he)]

omit [AddCommGroup α] in
theorem held_append (k : DimensionKey) (as bs : List (PastBucket α)) :
    held k (as ++ bs) = held k as ++ held k bs := List.filterMap_append

omit [AddCommGroup α] in
theorem held_cons (k : DimensionKey) (b : PastBucket α) (bs : List (PastBucket α)) :
    held k (b :: bs) = match b.values.get? k with
      | none => held k bs
      | some v => v :: held k bs := List.filterMap_cons

namespace Tallies

theorem nil : Tallies (.empty : Table DimensionKey (α × Nat)) [] := fun _ => rfl

theorem add (h : Tallies sums bs) (b : PastBucket α) : Tallies (addValues sums b.values) (bs ++ [b]) := by
  intro k
  rw [get?_addValues, h k, held_append, held_cons]
  cases b.values.get? k with
  | none => rw [show held k ([] : List (PastBucket α)) = [] from rfl, List.append_nil]
  | some v => exact withOne_tally v _

theorem forget (h : Tallies sums (b :: bs)) : Tallies (forgetValues sums b.values) bs := by
  intro k
  rw [get?_forgetValues, h k, held_cons]
  cases b.values.get? k with
  | none => rfl
  | some v => exact without_tally v _

theorem forgetAll (h : Tallies sums (gone ++ bs)) :
    Tallies (gone.foldl (fun sums b => forgetValues sums b.values) sums) bs := by
  induction gone generalizing sums with
  | nil => exact h
  | cons b gone ih => exact ih (forget h)

end Tallies

variable {t : Tracker α}

theorem pastSum_eq (h : Tallies t.sums t.past) (k : DimensionKey) : t.pastSum k = (held k t.past).sum := by
  rw [pastSum, h k, tally_fst]

theorem dropBefore_tallies (h : Tallies t.sums t.past) (oldest : Nat) :
    Tallies (t.dropBefore oldest).sums (t.dropBefore oldest).past :=
  Tallies.forgetAll (by simpa [dropBefore] using h)

theorem dropExcess_tallies (h : Tallies t.sums t.past) : Tallies t.dropExcess.sums t.dropExcess.past :=
  Tallies.forgetAll (by simpa [dropExcess] using h)

theorem keep_tallies (h : Tallies t.sums t.past) (num : Nat) (rows : List (DimensionKey × α)) :
    Tallies (t.keep num rows).sums (t.keep num rows).past := by
  rw [keep]
  split
  · exact h
  · exact dropExcess_tallies (h.add ⟨num, collect rows⟩)

def worth (k : DimensionKey) (rows : List (DimensionKey × α)) : α :=
  ((rows.filter fun row => text row.1 = text k).map (·.2)).sum

theorem worth_cons (k : DimensionKey) (row : DimensionKey × α) (rows : List (DimensionKey × α)) :
    worth k (row :: rows) = if text row.1 = text k then row.2 + worth k rows else worth k rows := by
  by_cases h : text row.1 = text k <;> simp [worth, h]

theorem get?_collect (rows : List (DimensionKey × α)) (k : DimensionKey) :
    (collect rows).get? k = if ∃ row ∈ rows, text row.1 = text k then some (worth k rows) else none := by
  have hfold : ∀ (rows : List (DimensionKey × α)) (values : Table DimensionKey α),
      (rows.foldl (fun values row => values.insert row.1 ((values.get? row.1).getD 0 + row.2)) values).get? k =
        if ∃ row ∈ rows, text row.1 = text k then some ((values.get? k).getD 0 + worth k rows)
        else values.get? k := by
    intro rows
    induction rows with
    | nil => intro values; simp
    | cons row rows ih =>
        intro values
        rw [List.foldl_cons, ih, worth_cons, Table.get?_insert]
        by_cases hrow : text row.1 = text k
        · have hnow : ∃ r ∈ row :: rows, text r.1 = text k := ⟨row, List.mem_cons_self, hrow⟩
          rw [if_pos hrow.symm, if_pos hrow, if_pos hnow, Table.get?_congr hrow, Option.getD_some]
          split
          · rw [add_assoc]
          next hlater =>
            have hnone : worth k rows = 0 := by
              rw [worth, List.filter_eq_nil_iff.2 (by simpa using hlater)]
              rfl
            rw [hnone, add_zero]
        · rw [if_neg (Ne.symm hrow), if_neg hrow]
          simp only [List.mem_cons, exists_eq_or_imp, hrow, false_or]
  rw [collect, hfold]
  simp [Table.get?_empty]

theorem worth_eq_zero (h : ¬ ∃ row ∈ rows, text row.1 = text k) : worth k rows = 0 := by
  rw [worth, List.filter_eq_nil_iff.2 (by simpa using h)]
  rfl

theorem worth_of_mem (h : rows.Pairwise fun a b => text a.1 ≠ text b.1) {row : DimensionKey × α}
    (hrow : row ∈ rows) : worth row.1 rows = row.2 := by
  induction rows with
  | nil => simp at hrow
  | cons first rows ih =>
      obtain ⟨hfirst, hrest⟩ := List.pairwise_cons.1 h
      rw [worth_cons]
      rcases List.mem_cons.1 hrow with rfl | hrow
      · have hrest : ¬ ∃ r ∈ rows, text r.1 = text row.1 := fun ⟨r, hr, he⟩ => hfirst r hr he.symm
        rw [if_pos rfl, worth_eq_zero hrest, add_zero]
      · rw [if_neg (hfirst row hrow), ih hrest hrow]

end EventMetrics.Alert
