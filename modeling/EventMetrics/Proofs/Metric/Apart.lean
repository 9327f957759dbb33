import EventMetrics.Proofs.Metric.Reports

namespace EventMetrics.Metric

open Instant (last)
open Record (gaps gaps_append)

/-- The stretches of one call, with the one that is owed: no two of them join, and only the last one may
reach up to `b`. -/
structure Apart (b : Int) (pending : Option Record.Skipped) (xs : List Record) : Prop where
  pairs : (gaps xs ++ pending.toList).Pairwise fun g g' => ¬ g.Joins g'
  reported : ∀ g ∈ gaps xs, g.stop < b
  awaited : ∀ g, pending = some g → g.stop ≤ b

variable {m : Metric} {slot : Slot} {stop τ : Int} {out xs : List Record} {pending : Option Record.Skipped}

namespace Closes

theorem pairs (h : Closes m slot stop out pending) (ha : Apart slot.start m.pending xs) :
    (gaps (xs ++ out) ++ pending.toList).Pairwise fun g g' => ¬ g.Joins g' := by
  obtain ⟨hpairs, hreported, -⟩ := ha
  cases h with
  | rows alerts hrows =>
      change (gaps (xs ++ (m.owed ++ m.ofRows slot stop alerts)) ++ []).Pairwise _
      rwa [gaps_append, gaps_append, gaps_ofRows, gaps_owed, List.append_nil, List.append_nil]
  | @join g hrows hs hjoin =>
      -- the stretch begins where it began
      rw [hs] at hpairs
      rw [List.append_nil]
      obtain ⟨hxs, -, hbefore⟩ := List.pairwise_append.1 hpairs
      refine List.pairwise_append.2 ⟨hxs, List.pairwise_singleton _ _, fun x hx y hy => ?_⟩
      rw [Option.toList_some, List.mem_singleton] at hy
      subst hy
      exact hbefore x hx g (by simp)
  | fresh hrows hnot =>
      rw [gaps_append, gaps_owed]
      refine List.pairwise_append.2 ⟨hpairs, List.pairwise_singleton _ _, fun x hx y hy => ?_⟩
      rw [Option.toList_some, List.mem_singleton] at hy
      subst hy
      rcases List.mem_append.1 hx with hx | hx
      · exact fun hjoin => Int.ne_of_lt (hreported x hx) hjoin.1
      · exact hnot x (by simpa using hx)

theorem apart (h : Closes m slot stop out pending) (ha : Apart slot.start m.pending xs)
    (hlt : slot.start < stop) : Apart stop pending (xs ++ out) := by
  refine ⟨h.pairs ha, fun x hx => ?_, fun g hg => ?_⟩
  · have hnew : ∀ x ∈ gaps out, x.stop ≤ slot.start := by
      intro x hx
      cases h with
      | rows alerts hrows =>
          change x ∈ gaps (m.owed ++ m.ofRows slot stop alerts) at hx
          rw [gaps_append, gaps_ofRows, gaps_owed, List.append_nil] at hx
          exact ha.awaited x (by simpa using hx)
      | join => cases hx
      | fresh =>
          rw [gaps_owed] at hx
          exact ha.awaited x (by simpa using hx)
    rw [gaps_append] at hx
    rcases List.mem_append.1 hx with hx | hx
    · exact Int.lt_trans (ha.reported x hx) hlt
    · exact Int.lt_of_le_of_lt (hnew x hx) hlt
  · cases h with
    | rows => cases hg
    | join | fresh =>
        cases hg
        exact Int.le_refl _

end Closes

namespace Apart

theorem rise (h : Apart stop pending xs) {b : Int} (hb : stop ≤ b) : Apart b pending xs :=
  ⟨h.pairs, fun g hg => Int.lt_of_lt_of_le (h.reported g hg) hb, fun g hg => Int.le_trans (h.awaited g hg) hb⟩

theorem begin (hpending : m.pending = none) (b : Int) : Apart b m.pending [] := by
  rw [hpending]
  exact ⟨.nil, by simp [gaps], by simp⟩

theorem pairs_flushPending (h : Apart stop m.pending xs) :
    (gaps (xs ++ m.flushPending.records)).Pairwise fun g g' => ¬ g.Joins g' := by
  rw [flushPending_records, gaps_append, gaps_owed]
  exact h.pairs

theorem roll (h : Apart (m.floor slot.stop) m.pending xs) (hp : Placed slot.stop m)
    (hs : m.grid.current = some slot) (hlast : slot.stop < last) (cs : Conditions) :
    Apart ((m.roll cs slot).state.floor slot.stop) (m.roll cs slot).state.pending
      (xs ++ (m.roll cs slot).records) := by
  have hlt := hp.start_lt_stop hs (by have := (hp.slot slot hs).2.1; omega)
  rw [floor_of_slot hs, ← onIntervals_pending m, ← accrue] at h
  rw [floor_roll cs hs]
  exact (roll_closes m cs slot).apart h hlt

theorem advance (h : Apart (m.floor τ) m.pending xs) (hon : OnTime τ m) (cs : Conditions) {limit : Int}
    (hle : τ ≤ limit) (hlast : limit ≤ last) : OnTime limit (m.advance cs limit false).state ∧
      Apart ((m.advance cs limit false).state.floor limit) (m.advance cs limit false).state.pending
        (xs ++ (m.advance cs limit false).records) := by
  refine advance_course (P := fun τ n xs => Apart (n.floor τ) n.pending xs) cs ?_ ?_ ?_ hon h hle hlast
  · exact fun _ _ n _ _ h hle _ => h.rise (floor_mono n hle)
  · exact fun _ _ _ hon h hs hlast => h.roll hon.toPlaced hs hlast cs
  · intro n _ due _ h _
    rw [floor, deactivate_grid, deactivate_pending]
    exact h

theorem meet (h : Apart (m.floor τ) m.pending xs) (hp : Placed τ m) (hlast : τ < last) (cs : Conditions) :
    Apart ((m.meet cs τ).floor τ) (m.meet cs τ).pending (xs ++ (m.rollTo cs τ).records) := by
  rw [Metric.meet, floor_followWindows, followWindows_pending]
  rcases rollTo_cases cs hp (.inl hlast) with ⟨-, hr⟩ | ⟨slot, hs, rfl, hr⟩ <;> rw [hr]
  · rwa [List.append_nil]
  · exact h.roll hp hs hlast cs

theorem see {ev : Event} (h : Apart (m.floor ev.time) m.pending xs) (hb : m.plan.isBucketed = true)
    (hp : Placed ev.time m) (hlast : ev.time < last) (cs : Conditions) (hits : Hits) :
    Apart ((m.see cs ev hits).1.state.floor ev.time) (m.see cs ev hits).1.state.pending
      (xs ++ (m.see cs ev hits).1.records) := by
  have hwatched : Apart ((m.watch ev.time hits).floor ev.time) (m.watch ev.time hits).pending xs := h
  have hmet := hwatched.meet (hp.watch ev.time hits) hlast (cs.onEvent ev hits).1
  have hplan := meet_plan (cs.onEvent ev hits).1 (m.watch ev.time hits) ev.time
  have hstill := measure_still ((m.watch ev.time hits).meet (cs.onEvent ev hits).1 ev.time)
    (cs.onEvent ev hits).1 ev hits (cs.onEvent ev hits).2
  have hmeasured : Apart _ _ _ := (congrArg (fun n : Metric => Apart (n.floor ev.time) n.pending
    (xs ++ ((m.watch ev.time hits).rollTo (cs.onEvent ev hits).1 ev.time).records)) hstill).mpr hmet
  rw [Metric.see, onEvent_eq, measure_records_of_isBucketed (hplan ▸ hb), List.append_nil]
  generalize (((m.watch ev.time hits).meet (cs.onEvent ev hits).1 ev.time).measure (cs.onEvent ev hits).1 ev hits
    (cs.onEvent ev hits).2).2 = o
  cases o <;> exact hmeasured

theorem closeAt (h : Apart (m.floor τ) m.pending xs) (hp : Placed τ m) :
    (gaps (xs ++ (m.closeAt τ).records) ++ (m.closeAt τ).state.pending.toList).Pairwise
      fun g g' => ¬ g.Joins g' := by
  cases hs : m.grid.current with
  | none =>
      rw [closeAt_of_none hs, List.append_nil]
      exact h.pairs
  | some slot =>
      rw [floor_of_slot hs] at h
      rcases closeAt_closes hs (hp.slot slot hs).2.1 with ⟨hcloses, -⟩ | ⟨-, -, hnone, hsame⟩
      · rw [← onIntervals_pending m, ← settle] at h
        exact hcloses.pairs h
      · rw [hnone, hsame, List.append_nil]
        exact h.pairs

end Apart

variable (hon : OnTime τ m) (hpending : m.pending = none)
include hon hpending

theorem gaps_advanceTo (cs : Conditions) {now : Int} (hle : τ ≤ now) (hlast : now ≤ last) :
    (gaps (m.advanceTo cs now).records).Pairwise fun g g' => ¬ g.Joins g' :=
  ((Apart.begin hpending _).advance hon cs hle hlast).2.pairs_flushPending

theorem gaps_visit (hb : m.plan.isBucketed = true) (cs : Conditions) {ev : Event} (hits : Hits) (hle : τ ≤ ev.time)
    (hlast : ev.time < last) : (gaps (m.visit cs ev hits).1.records).Pairwise fun g g' => ¬ g.Joins g' := by
  obtain ⟨hon, hapart⟩ := (Apart.begin hpending _).advance hon cs hle (Int.le_of_lt hlast)
  have hplan := advance_plan m cs ev.time false
  have hseen := hapart.see (hplan ▸ hb) hon.toPlaced hlast cs hits
  rw [visit_eq hon.toPlaced (.inl hlast), Emitting.andThen_records, Emitting.andThen_records, ← List.append_assoc]
  exact hseen.pairs_flushPending

theorem gaps_shutdown (cs : Conditions) {now : Int} (hle : τ ≤ now) (hlast : now ≤ last) :
    (gaps (m.shutdown cs now).records).Pairwise fun g g' => ¬ g.Joins g' := by
  obtain ⟨hon, hapart⟩ := (Apart.begin hpending _).advance hon cs hle hlast
  have hclosed := hapart.closeAt hon.toPlaced
  rw [Metric.shutdown, Emitting.andThen_records, Emitting.andThen_records, flushPending_records, gaps_append,
    gaps_owed]
  exact hclosed

end EventMetrics.Metric
