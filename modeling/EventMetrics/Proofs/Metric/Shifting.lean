import EventMetrics.Proofs.Metric.Flushing
import EventMetrics.Proofs.Shift

namespace EventMetrics

open Instant (Carries last)

def Emitting.shift (c : Int) (r : Emitting Metric) : Emitting Metric :=
  ⟨r.state.shift c, r.records.map (·.shift c)⟩

theorem Emitting.andThen_shift {c : Int} {f g : Metric → Emitting Metric} (r : Emitting Metric)
    (h : g (r.state.shift c) = (f r.state).shift c) : (r.shift c).andThen g = (r.andThen f).shift c := by
  have hg : g (r.shift c).state = (f r.state).shift c := h
  rw [Emitting.andThen, Emitting.andThen, hg]
  simp only [Emitting.shift, List.map_append]

namespace Metric

variable {c : Int} {m : Metric} {cs : Conditions} {t : Int} {slot : Slot}

theorem current_shift (h : m.grid.current = some slot) : (m.shift c).grid.current = some (slot.shift c) :=
  congrArg (Option.map _) h

theorem current_shift_none (h : m.grid.current = none) : (m.shift c).grid.current = none := congrArg (Option.map _) h

theorem onIntervals_shift {f g : Timing → Intervals → Intervals} (m : Metric)
    (h : ∀ t is, g t (is.shift c) = (f t is).shift c) : (m.shift c).onIntervals g = (m.onIntervals f).shift c := by
  cases hr : m.plan.rule <;> simp only [onIntervals, shift, hr, h]

theorem regateAll_shift (c : Int) (m : Metric) (t : Int) (gate : Option DimensionKey → Bool) :
    (m.shift c).onIntervals (fun u is => is.regate u.aggregation (t + c) gate) =
      (m.onIntervals fun u is => is.regate u.aggregation t gate).shift c :=
  onIntervals_shift m fun u is => is.regate_shift c u.aggregation t gate

theorem activate_shift (h : Carries c t m.grid.size) : (m.shift c).activate cs (t + c) = (m.activate cs t).shift c := by
  have hgrid : (if m.plan.isBucketed && (m.shift c).grid.current.isNone then (m.shift c).grid.openAt (t + c)
      else (m.shift c).grid) =
      (if m.plan.isBucketed && m.grid.current.isNone then m.grid.openAt t else m.grid).shift c := by
    have hnone : (m.shift c).grid.current.isNone = m.grid.current.isNone := Option.isNone_map
    rw [hnone]
    split
    · exact Grid.openAt_shift h
    · rfl
  exact (congrArg (fun g : Grid =>
    let n : Metric := openWindow { m.shift c with active := true, grid := g } cs
    n.onIntervals fun u is => is.regate u.aggregation (t + c) (n.gateOpen cs)) hgrid).trans
      (regateAll_shift c (openWindow { m with active := true, grid := _ } cs) t _)

theorem deactivate_shift (c : Int) (m : Metric) (t : Int) : (m.shift c).deactivate (t + c) = (m.deactivate t).shift c :=
  regateAll_shift c { m with active := false } t fun _ => false

theorem windows_shift (c : Int) (m : Metric) (t : Int) :
    (m.shift c).windows.isActive (t + c) = m.windows.isActive t := Activations.isActive_shift c m.windows t

theorem start_shift (h : Carries c t m.grid.size) : (m.shift c).start cs (t + c) = (m.start cs t).shift c := by
  rw [start, start, windows_shift]
  split
  · exact activate_shift h
  · rfl

theorem followWindows_shift (h : Carries c t m.grid.size) :
    (m.shift c).followWindows cs (t + c) = (m.followWindows cs t).shift c := by
  have hactive : (m.shift c).active = m.active := rfl
  rw [followWindows, followWindows, windows_shift, hactive]
  split
  · exact activate_shift h
  · exact deactivate_shift c m t
  · rfl

theorem flushPending_shift (c : Int) (m : Metric) : (m.shift c).flushPending = m.flushPending.shift c := by
  cases hp : m.pending <;> simp [flushPending, Emitting.shift, shift, hp, Record.shift]

theorem skip_shift (c : Int) (m : Metric) (start stop : Int) (reason : SkipReason) :
    (m.shift c).skip (start + c) (stop + c) reason = (m.skip start stop reason).shift c := by
  have hflush : (m.shift c).flushPending.andThen (fun n => ⟨n.await (start + c) (stop + c) reason, []⟩) =
      (m.flushPending.andThen fun n => ⟨n.await start stop reason, []⟩).shift c := by
    rw [flushPending_shift]
    exact Emitting.andThen_shift _ rfl
  cases hp : m.pending with
  | none =>
      have hp' : (m.shift c).pending = none := congrArg (Option.map _) hp
      simp only [flushPending, hp, hp'] at hflush
      simp only [skip, hp, hp']
      exact hflush
  | some s =>
      have hp' : (m.shift c).pending = some (s.shift c) := congrArg (Option.map _) hp
      have hjoins : ((s.shift c).stop = start + c ∧ (s.shift c).reason = reason) ↔
          s.stop = start ∧ s.reason = reason := by
        rw [Record.Skipped.shift, Int.add_left_inj]
      simp only [skip, hp, hp', hjoins]
      split
      · rfl
      · exact hflush

theorem feed_shift {ts : List (Alert.Tracker Float)} (h : ∀ tr ∈ ts, Carries c t tr.rule.quiet) (num : Nat)
    (rows : List (DimensionKey × Float)) : feed num (t + c) rows (ts.map (·.shift c)) =
      ((feed num t rows ts).1.map (·.shift c), (feed num t rows ts).2.map (·.shift c)) := by
  induction ts with
  | nil => rfl
  | cons tr ts ih =>
      obtain ⟨htr, hts⟩ := List.forall_mem_cons.1 h
      have hone := Alert.Tracker.onBucket_shift htr num rows
      simp only [List.map_cons, feed, hone, ih hts, List.map_append, List.map_map]
      rfl

theorem emitRows_shift (h : ∀ tr ∈ m.trackers, Carries c t tr.rule.quiet) (slot : Slot) (rows : List Row) :
    (m.shift c).emitRows (slot.shift c) (t + c) rows = (m.emitRows slot t rows).shift c := by
  have hfeed := feed_shift h slot.num (rows.map fun r => (r.key, r.value.toFloat))
  simp only [emitRows, Emitting.shift, shift, Slot.shift, hfeed, List.length_map, List.map_append, List.map_map,
    Function.comp_def, Record.shift, Record.Bucket.shift, Int.add_lt_add_iff_right]

theorem flushBucket_shift (h : ∀ tr ∈ m.trackers, Carries c t tr.rule.quiet) (slot : Slot) (reportEmpty : Bool) :
    (m.shift c).flushBucket (slot.shift c) (t + c) reportEmpty = (m.flushBucket slot t reportEmpty).shift c := by
  have hrows : (m.shift c).rows = m.rows := rfl
  cases hr : m.rows.isEmpty with
  | false =>
      have hflush : (m.shift c).clearBucket.flushPending = m.clearBucket.flushPending.shift c :=
        flushPending_shift c m.clearBucket
      rw [flushBucket_of_rows hr, flushBucket_of_rows (hrows ▸ hr), hflush]
      refine Emitting.andThen_shift _ (emitRows_shift ?_ slot m.rows)
      rwa [flushPending_trackers]
  | true =>
      cases reportEmpty with
      | false => rw [flushBucket_unreported hr, flushBucket_unreported (hrows ▸ hr)]; rfl
      | true =>
          rw [flushBucket_of_empty hr, flushBucket_of_empty (hrows ▸ hr)]
          exact skip_shift c m.clearBucket slot.start t m.skipReason

theorem accrue_shift (c : Int) (m : Metric) (t : Int) : (m.shift c).accrue (t + c) = (m.accrue t).shift c :=
  onIntervals_shift m fun u is => is.accrueTo_shift c u.aggregation t

theorem settle_shift (c : Int) (m : Metric) (t : Int) : (m.shift c).settle (t + c) = (m.settle t).shift c :=
  onIntervals_shift m fun u is => is.settle_shift c u.aggregation t

theorem proceed_shift (hs : m.grid.current = some slot) (hsize : Carries c slot.stop m.grid.size) :
    (m.shift c).proceed cs (slot.shift c) = (m.proceed cs slot).shift c := by
  have hroll : (m.shift c).grid.roll = m.grid.roll.shift c := Grid.roll_shift fun s h => by
    cases hs.symm.trans h
    exact hsize
  have hclose : (m.shift c).grid.close = m.grid.close.shift c := Grid.close_shift c m.grid
  have hactive : (m.shift c).active = m.active := rfl
  have hopen : (m.shift c).windows.isActive (slot.shift c).stop = m.windows.isActive slot.stop :=
    windows_shift c m slot.stop
  rw [proceed, proceed, hactive, hopen, hroll, hclose]
  split
  · rfl
  · dsimp only
    split
    · exact deactivate_shift c { m with grid := m.grid.close } slot.stop
    · rfl

theorem roll_shift (hs : m.grid.current = some slot) (hsize : Carries c slot.stop m.grid.size)
    (hquiet : ∀ tr ∈ m.trackers, Carries c slot.stop tr.rule.quiet) :
    (m.shift c).roll cs (slot.shift c) = (m.roll cs slot).shift c := by
  have haccrue : (m.shift c).accrue (slot.shift c).stop = (m.accrue slot.stop).shift c := accrue_shift c m slot.stop
  have hflush : ((m.accrue slot.stop).shift c).flushBucket (slot.shift c) (slot.shift c).stop true =
      ((m.accrue slot.stop).flushBucket slot slot.stop true).shift c :=
    flushBucket_shift (by rwa [accrue, onIntervals_trackers]) slot true
  have hgrid : ((m.accrue slot.stop).flushBucket slot slot.stop true).state.grid = m.grid :=
    (congrArg Metric.grid (body_flushBucket (m.accrue slot.stop) slot slot.stop true) :).trans (m.onIntervals_grid _)
  rw [roll_eq, roll_eq, haccrue, hflush]
  refine Emitting.andThen_shift _ (congrArg (Emitting.mk · []) ?_)
  exact proceed_shift (hgrid ▸ hs) (hgrid ▸ hsize)

theorem fire_shift {due : Int} (h : ∀ slot, m.grid.current = some slot → slot.stop ≤ due →
      (m.shift c).roll cs (slot.shift c) = (m.roll cs slot).shift c) :
    (m.shift c).fire cs (due + c) = (m.fire cs due).map (·.shift c) := by
  have hexpire : (if (m.shift c).active && !(m.shift c).windows.isActive (due + c) then
        some (⟨(m.shift c).deactivate (due + c), []⟩ : Emitting Metric) else none) =
      (if m.active && !m.windows.isActive due then some (⟨m.deactivate due, []⟩ : Emitting Metric) else none).map
        (·.shift c) := by
    rw [windows_shift, deactivate_shift]
    change (ite (m.active && !m.windows.isActive due) _ _) = _
    split <;> rfl
  cases hs : m.grid.current with
  | none =>
      simp only [fire, hs, current_shift_none hs]
      exact hexpire
  | some slot =>
      have hstop : (slot.shift c).stop ≤ due + c ↔ slot.stop ≤ due := Int.add_le_add_iff_right c
      simp only [fire, hs, current_shift hs, hstop]
      split
      next hle => rw [h slot hs hle, Option.map_some]
      next => exact hexpire

theorem closeAt_shift (m : Metric) (now : Int)
    (hquiet : ∀ slot, m.grid.current = some slot → ∀ tr ∈ m.trackers, Carries c (max now slot.start) tr.rule.quiet) :
    (m.shift c).closeAt (now + c) = (m.closeAt now).shift c := by
  cases hs : m.grid.current with
  | none => rw [closeAt_of_none hs, closeAt_of_none (current_shift_none hs)]; rfl
  | some slot =>
      have hstop : max (now + c) (slot.shift c).start = max now slot.start + c := by
        simp only [Slot.shift]
        omega
      have hopen : decide ((slot.shift c).start < max now slot.start + c) =
          decide (slot.start < max now slot.start) := by
        simp only [Slot.shift, Int.add_lt_add_iff_right]
      have hflush : ((m.settle (max now slot.start)).shift c).flushBucket (slot.shift c) (max now slot.start + c)
          (slot.start < max now slot.start) = ((m.settle (max now slot.start)).flushBucket slot (max now slot.start)
            (slot.start < max now slot.start)).shift c :=
        flushBucket_shift (by rw [settle, onIntervals_trackers]; exact hquiet slot hs) slot _
      rw [closeAt_of_slot hs, closeAt_of_slot (current_shift hs), hstop, hopen, settle_shift, hflush]
      refine Emitting.andThen_shift _ ?_
      rw [Emitting.shift]
      exact congrArg (fun g => (⟨{ Metric.shift c _ with grid := g }, []⟩ : Emitting Metric)) (Grid.close_shift c _)

theorem sampleEvent_shift (m : Metric) (cs : Conditions) (ev : Event)
    {accept accept' : DimensionKey → Except DropReason (Emitting Metric)}
    (h : ∀ key, accept' key = (accept key).map (·.shift c)) :
    (m.shift c).sampleEvent cs (ev.shift c) accept' =
      ((m.sampleEvent cs ev accept).1.shift c, (m.sampleEvent cs ev accept).2) := by
  have hjudge : (m.shift c).judge cs (ev.shift c) = m.judge cs ev := rfl
  rw [sampleEvent, sampleEvent, hjudge]
  cases m.judge cs ev with
  | ignore | drop | unknown => rfl
  | take key =>
      simp only [h]
      cases accept key <;> rfl

theorem takeSample_shift (c : Int) (m : Metric) (reading : Reading) (key : DimensionKey) (ev : Event) :
    (m.shift c).takeSample reading key (ev.shift c) = (m.takeSample reading key ev).map (·.shift c) := by
  have hsample : reading.sample (ev.shift c) = reading.sample ev := rfl
  rw [takeSample, takeSample, hsample]
  cases reading.sample ev with
  | error r => rfl
  | ok q =>
      change (m.samples.add m.plan.maxDimensions key q).bind (fun samples => .ok { m.shift c with samples }) =
        ((m.samples.add m.plan.maxDimensions key q).bind fun samples => .ok { m with samples }).map (·.shift c)
      cases m.samples.add m.plan.maxDimensions key q <;> rfl

theorem prepareIntervals_shift (c : Int) (m : Metric) (t : Timing) (cs : Conditions) (ev : Event) (hits : Hits)
    (u : Condition.Update) :
    (m.shift c).prepareIntervals t cs (ev.shift c) hits u = (m.prepareIntervals t cs ev hits u).shift c := by
  have hasked : (if (m.plan.gate.any fun g => u.isChanged g.condition) then
        (m.shift c).regate t cs (ev.time + c) else m.shift c) =
      (if (m.plan.gate.any fun g => u.isChanged g.condition) then m.regate t cs ev.time else m).shift c := by
    split
    · exact congrArg (fun is => { m.shift c with intervals := is })
        (m.intervals.regate_shift c t.aggregation ev.time (m.gateOpen cs))
    · rfl
  have hstopped : ∀ n : Metric, (if t.stopAll.any hits.get then
        { n.shift c with intervals := (n.shift c).intervals.stopAll t.aggregation (ev.time + c) } else n.shift c) =
      (if t.stopAll.any hits.get then
        { n with intervals := n.intervals.stopAll t.aggregation ev.time } else n).shift c := by
    intro n
    split
    · exact congrArg (fun is => { n.shift c with intervals := is })
        (n.intervals.stopAll_shift c t.aggregation ev.time)
    · rfl
  exact (congrArg (fun n : Metric => if t.stopAll.any hits.get then
    { n with intervals := n.intervals.stopAll t.aggregation (ev.time + c) } else n) hasked).trans (hstopped _)

theorem startInterval_shift (c : Int) (m : Metric) (t : Timing) (cs : Conditions) (ev : Event) (key : DimensionKey) :
    (m.shift c).startInterval t cs (ev.shift c) key = (m.startInterval t cs ev key).map (·.shift c) := by
  have hlink : (m.shift c).intervalLink (ev.shift c) = m.intervalLink ev := rfl
  rw [startInterval, startInterval, hlink]
  cases m.intervalLink ev with
  | error r => rfl
  | ok link =>
      have hstart := m.intervals.start_shift c ev.time t.nested m.plan.maxDimensions (m.gateOpen cs link) key link
      change ((m.intervals.shift c).start t.nested m.plan.maxDimensions (ev.time + c) (m.gateOpen cs link) key
          link).bind (fun intervals => .ok { m.shift c with intervals }) =
        ((m.intervals.start t.nested m.plan.maxDimensions ev.time (m.gateOpen cs link) key link).bind
          fun intervals => .ok { m with intervals }).map (·.shift c)
      rw [hstart]
      cases m.intervals.start t.nested m.plan.maxDimensions ev.time (m.gateOpen cs link) key link <;> rfl

theorem turnInterval_shift (c : Int) (m : Metric) (t : Timing) (cs : Conditions) (ev : Event) (hits : Hits) :
    (m.shift c).turnInterval t cs (ev.shift c) hits =
      ((m.turnInterval t cs ev hits).1.shift c, (m.turnInterval t cs ev hits).2) := by
  have hkey : DimensionKey.extract? (ev.shift c) (m.shift c).plan.dimensions =
      DimensionKey.extract? ev m.plan.dimensions := rfl
  have hstop : ∀ key, (m.shift c).intervals.stop t.aggregation t.nested (ev.shift c).time key =
      (m.intervals.stop t.aggregation t.nested ev.time key).shift c :=
    m.intervals.stop_shift c t.aggregation ev.time t.nested
  rw [turnInterval, turnInterval, hkey]
  cases hits.get t.start <;> cases hits.get t.stop <;> cases DimensionKey.extract? ev m.plan.dimensions <;>
    simp only [startInterval_shift, hstop] <;> try rfl
  next key => cases m.startInterval t cs ev key <;> rfl

theorem measure_shift (c : Int) (m : Metric) (cs : Conditions) (ev : Event) (hits : Hits) (u : Condition.Update) :
    (m.shift c).measure cs (ev.shift c) hits u =
      ((m.measure cs ev hits u).1.shift c, (m.measure cs ev hits u).2) := by
  have hplan : (m.shift c).plan = m.plan := rfl
  rw [measure, measure, hplan]
  cases m.plan.rule with
  | sampled what reading =>
      dsimp only
      split
      · refine sampleEvent_shift m cs ev fun key => ?_
        rw [takeSample_shift]
        cases m.takeSample reading key ev <;> rfl
      · rfl
  | passed what =>
      dsimp only
      split
      · exact sampleEvent_shift m cs ev fun key => rfl
      · rfl
  | timed t =>
      dsimp only
      rw [prepareIntervals_shift, turnInterval_shift]
      rfl

theorem note_shift (c : Int) (m : Metric) (o : Outcome) : (m.shift c).note o = (m.note o).shift c := by
  cases o <;> rfl

theorem watch_shift (h : ∀ a ∈ m.windows, Carries c t a.ttl) (hits : Hits) :
    (m.shift c).watch (t + c) hits = (m.watch t hits).shift c :=
  congrArg (fun as => { m.shift c with windows := as }) (Activations.onEvent_shift h hits)

end Metric

end EventMetrics
