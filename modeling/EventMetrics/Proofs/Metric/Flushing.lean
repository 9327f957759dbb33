import EventMetrics.Proofs.Alert.Feeding
import EventMetrics.Proofs.Metric.Numbering
import EventMetrics.Proofs.Metric.Slots
import EventMetrics.Proofs.Metric.Logged

namespace EventMetrics

open Alert (Tracker Feeding)
open Instant (last)

def Record.flushed (rs : List Record) : List Record :=
  rs.filter fun
    | .bucket _ | .alert _ => true
    | .skipped _ | .event _ => false

theorem Record.flushed_append (rs xs : List Record) : flushed (rs ++ xs) = flushed rs ++ flushed xs :=
  List.filter_append ..

theorem Record.flushed_skipped (gs : List Record.Skipped) : flushed (gs.map .skipped) = [] := by
  simp [flushed, List.filter_eq_nil_iff]

theorem Record.buckets_flushed (rs : List Record) : buckets (flushed rs) = buckets rs := by
  rw [buckets, flushed, List.filterMap_filter]
  refine congrArg (List.filterMap · rs) (funext fun x => ?_)
  cases x <;> rfl

/-- A bucket that has ended: its slot, the instant at which it was closed, and its rows. -/
structure Ended where
  slot : Slot
  stop : Int
  rows : List Row

namespace Ended

variable {b : Ended} {bs cs : List Ended} {ts : List (Tracker Float)}

def feeding (b : Ended) : Feeding Float := ⟨b.slot.num, b.stop, b.rows.map fun r => (r.key, r.value.toFloat)⟩

/-- Trackers are fed with the buckets that have rows. -/
def feedings (bs : List Ended) : List (Feeding Float) := (bs.filter (!·.rows.isEmpty)).map feeding

def feedAll (ts : List (Tracker Float)) (bs : List Ended) : List (Tracker Float) :=
  ts.map fun t => (t.feedAll (feedings bs)).1

def alerts (b : Ended) (ts : List (Tracker Float)) : List Record.Alert :=
  ts.flatMap fun t => (t.feedAll (feedings [b])).2.map (·.toRecord t.rule)

/-- What is reported of a bucket of `m`, whose trackers have become `ts` before. -/
def reports (m : Metric) (ts : List (Tracker Float)) (b : Ended) : List Record :=
  b.rows.map (fun r => .bucket (m.toBucket b.slot b.stop r)) ++ (b.alerts ts).map .alert

def reportAll (m : Metric) : List (Tracker Float) → List Ended → List Record
  | _, [] => []
  | ts, b :: bs => b.reports m ts ++ reportAll m (feedAll ts [b]) bs

theorem feedings_append (bs cs : List Ended) : feedings (bs ++ cs) = feedings bs ++ feedings cs := by
  rw [feedings, List.filter_append, List.map_append]
  rfl

theorem feedAll_append (ts : List (Tracker Float)) (bs cs : List Ended) :
    feedAll ts (bs ++ cs) = feedAll (feedAll ts bs) cs := by
  simp only [feedAll, feedings_append, Tracker.feedAll_append, List.map_map, Function.comp_def]

theorem feedAll_nil (ts : List (Tracker Float)) : feedAll ts [] = ts := List.map_id ts

theorem reportAll_concat (m : Metric) (ts : List (Tracker Float)) (bs : List Ended) (b : Ended) :
    reportAll m ts (bs ++ [b]) = reportAll m ts bs ++ b.reports m (feedAll ts bs) := by
  induction bs generalizing ts with
  | nil => simp [reportAll, feedAll_nil]
  | cons a bs ih => rw [List.cons_append, reportAll, ih, reportAll, ← feedAll_append, List.singleton_append,
      List.append_assoc]

theorem reports_congr {m n : Metric} (h : n.plan = m.plan) : reports n = reports m := by
  funext ts b
  rw [reports, reports, Metric.toBucket_congr h]

theorem flushed_reports (m : Metric) (ts : List (Tracker Float)) (b : Ended) :
    Record.flushed (b.reports m ts) = b.reports m ts := by
  refine List.filter_eq_self.2 fun x hx => ?_
  rcases List.mem_append.1 hx with hx | hx <;> obtain ⟨y, -, rfl⟩ := List.mem_map.1 hx <;> rfl

theorem buckets_reports (m : Metric) (ts : List (Tracker Float)) (b : Ended) :
    Record.buckets (b.reports m ts) = b.rows.map (m.toBucket b.slot b.stop) := Record.buckets_rows ..

theorem buckets_reportAll (m : Metric) (ts : List (Tracker Float)) (bs : List Ended) :
    Record.buckets (reportAll m ts bs) = bs.flatMap fun b => b.rows.map (m.toBucket b.slot b.stop) := by
  induction bs generalizing ts with
  | nil => rfl
  | cons b bs ih => rw [reportAll, Record.buckets_append, buckets_reports, ih, List.flatMap_cons]

theorem idle (hb : b.rows = []) (m : Metric) (ts : List (Tracker Float)) :
    feedAll ts [b] = ts ∧ b.reports m ts = [] := by
  have hnone : feedings [b] = [] := by simp [feedings, hb]
  refine ⟨?_, ?_⟩
  · rw [feedAll, hnone]
    exact List.map_id ts
  · simp [reports, alerts, hnone, hb, Tracker.feedAll]

end Ended

namespace Metric

open Ended (feedings feedAll reports reportAll)
open Record (Lays flushed flushed_append flushed_skipped lays_append)
open Slot (Numbered Unbroken)

variable {m n m₀ : Metric} {slot : Slot} {stop s τ i : Int} {rs : List Record} {bs : List Ended} {b : Ended}

theorem flushed_owed (m : Metric) : flushed m.owed = [] := flushed_skipped _

theorem feed_eq (b : Ended) (hb : b.rows ≠ []) (ts : List (Tracker Float)) :
    feed b.slot.num b.stop (b.rows.map fun r => (r.key, r.value.toFloat)) ts = (feedAll ts [b], b.alerts ts) := by
  have hone : feedings [b] = [b.feeding] := by simp [feedings, hb]
  simp only [feedAll, Ended.alerts, hone, Tracker.feedAll_singleton]
  induction ts with
  | nil => rfl
  | cons t ts ih =>
      rw [feed, ih]
      rfl

theorem flushPending_trackers (m : Metric) : m.flushPending.state.trackers = m.trackers := by
  cases hs : m.pending <;> simp [Metric.flushPending, hs]

/-- To close a bucket is to report of it and to feed the trackers with it. -/
theorem flushBucket_flushes (m : Metric) (slot : Slot) (stop : Int) (reportEmpty : Bool) :
    (m.flushBucket slot stop reportEmpty).state.trackers = feedAll m.trackers [⟨slot, stop, m.rows⟩] ∧
      flushed (m.flushBucket slot stop reportEmpty).records = reports m m.trackers ⟨slot, stop, m.rows⟩ := by
  cases hr : m.rows.isEmpty with
  | false =>
      have hplan : m.clearBucket.flushPending.state.plan = m.plan :=
        (congrArg Metric.plan (body_flushPending m.clearBucket) :)
      have hfeed := feed_eq ⟨slot, stop, m.rows⟩ (by simpa using hr) m.trackers
      rw [flushBucket_of_rows hr, Emitting.andThen_records, Emitting.andThen_state, flushed_append,
        flushPending_records, flushed_owed, List.nil_append, ← Ended.flushed_reports]
      simp only [emitRows, flushPending_trackers, hplan]
      exact ⟨congrArg Prod.fst hfeed, congrArg (fun q => flushed (_ ++ q.2.map .alert)) hfeed⟩
  | true =>
      obtain ⟨hfed, hnone⟩ := Ended.idle (b := ⟨slot, stop, m.rows⟩) (List.isEmpty_iff.1 hr) m m.trackers
      rw [hfed, hnone]
      cases reportEmpty with
      | false =>
          rw [flushBucket_unreported hr]
          exact ⟨rfl, rfl⟩
      | true =>
          rw [flushBucket_of_empty hr]
          rcases skip_cases m.clearBucket slot.start stop m.skipReason with ⟨g, -, -, -, hskip⟩ | hskip <;> rw [hskip]
          · exact ⟨rfl, rfl⟩
          · rw [Emitting.andThen_records, Emitting.andThen_state, List.append_nil, flushPending_records]
            exact ⟨flushPending_trackers _, flushed_owed _⟩

theorem proceed_trackers (m : Metric) (cs : Conditions) (slot : Slot) : (m.proceed cs slot).trackers = m.trackers := by
  rcases proceed_cases m cs slot with h | h | h <;> simp [h, openWindow]

theorem roll_flushes (m : Metric) (cs : Conditions) (slot : Slot) :
    (m.roll cs slot).state.trackers = feedAll m.trackers [⟨slot, slot.stop, (m.accrue slot.stop).rows⟩] ∧
      flushed (m.roll cs slot).records = reports m m.trackers ⟨slot, slot.stop, (m.accrue slot.stop).rows⟩ := by
  have hflush := flushBucket_flushes (m.accrue slot.stop) slot slot.stop true
  have htrackers : (m.accrue slot.stop).trackers = m.trackers := m.onIntervals_trackers _
  rw [htrackers, Ended.reports_congr (m.accrue_plan slot.stop)] at hflush
  rw [roll_eq, Emitting.andThen_records, Emitting.andThen_state, List.append_nil, proceed_trackers]
  exact hflush

theorem closeAt_flushes {now : Int} (hs : m.grid.current = some slot) (hle : slot.start ≤ now) :
    (m.closeAt now).state.trackers = feedAll m.trackers [⟨slot, now, (m.settle now).rows⟩] ∧
      flushed (m.closeAt now).records = reports m m.trackers ⟨slot, now, (m.settle now).rows⟩ := by
  have hflush := flushBucket_flushes (m.settle now) slot now (slot.start < now)
  have htrackers : (m.settle now).trackers = m.trackers := m.onIntervals_trackers _
  rw [htrackers, Ended.reports_congr (m.settle_plan now)] at hflush
  rw [closeAt_of_slot hs, Int.max_eq_left hle, Emitting.andThen_records, Emitting.andThen_state, List.append_nil]
  exact hflush

end Metric

end EventMetrics
