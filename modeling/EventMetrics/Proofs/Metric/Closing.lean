import EventMetrics.Proofs.Metric.Life
import EventMetrics.Proofs.Skipped

namespace EventMetrics

def Record.buckets (rs : List Record) : List Record.Bucket :=
  rs.filterMap fun
    | .bucket r => some r
    | _ => none

theorem Record.buckets_append (rs xs : List Record) :
    Record.buckets (rs ++ xs) = Record.buckets rs ++ Record.buckets xs :=
  List.filterMap_append ..

theorem Record.buckets_rows {α : Type} (f : α → Record.Bucket) (rows : List α) (alerts : List Record.Alert) :
    Record.buckets (rows.map (fun r => .bucket (f r)) ++ alerts.map .alert) = rows.map f := by
  have hrows : Record.buckets (rows.map fun r => .bucket (f r)) = rows.map f := by
    rw [Record.buckets, List.filterMap_map, ← List.filterMap_eq_map]
    rfl
  have halerts : Record.buckets (alerts.map .alert) = [] := by simp [Record.buckets]
  rw [Record.buckets_append, hrows, halerts, List.append_nil]

namespace Metric

open Record (buckets buckets_append gaps gaps_append)

variable (m : Metric) (cs : Conditions)

def toBucket (slot : Slot) (stop : Int) (r : Row) : Record.Bucket where
  metric := m.plan.id
  dimension := r.key
  start := slot.start
  stop
  value := r.value
  samples := r.samples
  isPartial := stop < slot.stop

variable {m} in
theorem toBucket_congr {n : Metric} (h : n.plan = m.plan) : n.toBucket = m.toBucket := by
  funext slot stop r
  simp only [toBucket, h]

theorem buckets_owed : buckets m.owed = [] := by
  cases h : m.pending <;> simp [owed, h, buckets]

theorem buckets_flushPending : buckets m.flushPending.records = [] := by
  rw [flushPending_records, buckets_owed]

theorem buckets_skip (start stop : Int) (reason : SkipReason) :
    buckets (m.skip start stop reason).records = [] := by
  rcases skip_cases m start stop reason with ⟨s, -, -, -, hskip⟩ | hskip <;> rw [hskip]
  · rfl
  · simp [buckets_flushPending]

theorem buckets_emitRows (slot : Slot) (stop : Int) (rows : List Row) :
    buckets (m.emitRows slot stop rows).records = rows.map (m.toBucket slot stop) :=
  Record.buckets_rows (m.toBucket slot stop) rows _

theorem buckets_flushBucket (slot : Slot) (stop : Int) (reportEmpty : Bool) :
    buckets (m.flushBucket slot stop reportEmpty).records = m.rows.map (m.toBucket slot stop) := by
  cases hr : m.rows.isEmpty with
  | false =>
      have hplan : m.clearBucket.flushPending.state.plan = m.plan :=
        (congrArg Metric.plan (body_flushPending m.clearBucket) :)
      rw [flushBucket_of_rows hr, Emitting.andThen_records, buckets_append, buckets_flushPending,
        List.nil_append, buckets_emitRows, toBucket_congr hplan]
  | true =>
      rw [List.isEmpty_iff.1 hr, List.map_nil]
      cases reportEmpty with
      | false => rw [flushBucket_unreported hr]; rfl
      | true => rw [flushBucket_of_empty hr]; exact buckets_skip _ _ _ _

theorem buckets_roll (slot : Slot) : buckets (m.roll cs slot).records =
    (m.accrue slot.stop).rows.map (m.toBucket slot slot.stop) := by
  rw [roll_eq, Emitting.andThen_records, List.append_nil, buckets_flushBucket, toBucket_congr]
  simp [accrue]

theorem buckets_closeAt {slot : Slot} (hs : m.grid.current = some slot) (now : Int) :
    buckets (m.closeAt now).records =
      (m.settle (max now slot.start)).rows.map (m.toBucket slot (max now slot.start)) := by
  rw [closeAt_of_slot hs, Emitting.andThen_records, List.append_nil, buckets_flushBucket, toBucket_congr]
  simp [settle]

theorem mem_gaps_skip {start stop : Int} {reason : SkipReason} {g : Record.Skipped}
    (hg : g ∈ gaps ((m.skip start stop reason).records ++ (m.skip start stop reason).state.owed)) :
    g ∈ gaps m.owed ∨ g.stop = stop ∧
      (g.start = start ∨ ∃ g₀ ∈ gaps m.owed, g₀.start = g.start ∧ g₀.stop = start) := by
  rcases skip_cases m start stop reason with ⟨s, hs, hjoin, -, hskip⟩ | hskip <;> rw [hskip] at hg
  · have hg' : g = { s with stop, buckets := s.buckets + 1 } := by simpa [owed, gaps] using hg
    subst hg'
    exact .inr ⟨rfl, .inr ⟨s, by simp [owed, hs, gaps], rfl, hjoin⟩⟩
  · have howed : m.flushPending.state.owed = [] := by
      cases hs : m.pending <;> simp [flushPending, owed, hs]
    have hflush := flushPending_owed m
    rw [howed, List.append_nil] at hflush
    simp only [Emitting.andThen_records, Emitting.andThen_state, List.append_nil, hflush, gaps_append,
      List.mem_append] at hg
    rcases hg with hg | hg
    · exact .inl hg
    · have hg' : g = ⟨m.flushPending.state.plan.id, start, stop, 1, reason⟩ := by
        simpa [await, owed, gaps] using hg
      subst hg'
      exact .inr ⟨rfl, .inl rfl⟩

theorem mem_gaps_flushBucket {slot : Slot} {stop : Int} {reportEmpty : Bool} {g : Record.Skipped}
    (hg : g ∈ gaps ((m.flushBucket slot stop reportEmpty).records ++
      (m.flushBucket slot stop reportEmpty).state.owed)) :
    g ∈ gaps m.owed ∨ m.rows = [] ∧ g.stop = stop ∧
      (g.start = slot.start ∨ ∃ g₀ ∈ gaps m.owed, g₀.start = g.start ∧ g₀.stop = slot.start) := by
  cases hr : m.rows.isEmpty with
  | false =>
      left
      rw [flushBucket_of_rows hr] at hg
      have hflush := flushPending_owed m.clearBucket
      simp only [Emitting.andThen_records, Emitting.andThen_state, gaps_append, gaps_emitRows, List.append_nil] at hg
      rw [← gaps_append] at hg
      exact hflush ▸ hg
  | true =>
      cases reportEmpty with
      | false =>
          rw [flushBucket_unreported hr] at hg
          exact .inl hg
      | true =>
          rw [flushBucket_of_empty hr] at hg
          exact (mem_gaps_skip m.clearBucket hg).imp_right fun h => ⟨List.isEmpty_iff.1 hr, h⟩

theorem buckets_measure (ev : Event) (hits : Hits) (u : Condition.Update) :
    buckets (m.measure cs ev hits u).1.records = [] := by
  refine List.filterMap_eq_nil_iff.2 fun x hx => ?_
  obtain ⟨key, rfl⟩ := measure_records hx
  rfl

end Metric

end EventMetrics
