import EventMetrics.Proofs.Metric.Pace

namespace EventMetrics.Metric

open Record (Agree gaps reports gaps_append reports_append)

variable (m : Metric) (cs : Conditions) (e : Event) (hits : Hits) (u : Condition.Update)

/-- A metric without the empty buckets that it reported or has yet to report. -/
def core : Metric := { m with pending := none, turnover := { m.turnover with skipped := 0 } }

theorem reports_owed : reports m.owed = [] := by
  rw [owed]
  cases m.pending <;> rfl

theorem core_onIntervals (f : Timing → Intervals → Intervals) :
    (m.onIntervals f).core = m.core.onIntervals f := by
  rw [onIntervals, onIntervals, core, core]
  cases m.plan.rule <;> rfl

theorem core_activate (time : Int) : (m.activate cs time).core = m.core.activate cs time :=
  core_onIntervals _ _

theorem core_deactivate (time : Int) : (m.deactivate time).core = m.core.deactivate time :=
  core_onIntervals _ _

theorem core_followWindows (time : Int) :
    (m.followWindows cs time).core = m.core.followWindows cs time := by
  have hactive : m.core.active = m.active := rfl
  have hwindows : m.core.windows = m.windows := rfl
  rw [followWindows, followWindows, hactive, hwindows]
  split
  · exact core_activate m cs time
  · exact core_deactivate m time
  · rfl

theorem core_proceed (slot : Slot) : (m.proceed cs slot).core = m.core.proceed cs slot := by
  have hactive : m.core.active = m.active := rfl
  have hwindows : m.core.windows = m.windows := rfl
  rw [proceed, proceed, hactive, hwindows]
  split
  · rfl
  · dsimp only
    split
    · exact core_deactivate _ _
    · rfl

theorem core_note (outcome : Outcome) : (m.note outcome).core = m.core.note outcome := by
  cases outcome <;> rfl

def coreStep (r : Emitting Metric × Outcome) : Emitting Metric × Outcome :=
  (⟨r.1.state.core, r.1.records⟩, r.2)

theorem core_sampleEvent {accept accept' : DimensionKey → Except DropReason (Emitting Metric)}
    (h : ∀ key, accept' key = (accept key).map fun r => ⟨r.state.core, r.records⟩) :
    m.core.sampleEvent cs e accept' = coreStep (m.sampleEvent cs e accept) := by
  have hjudge : m.core.judge cs e = m.judge cs e := rfl
  rw [sampleEvent, sampleEvent]
  rw [hjudge]
  cases m.judge cs e with
  | ignore => rfl
  | drop r => rfl
  | unknown => rfl
  | take key =>
      dsimp only
      rw [h key]
      cases accept key <;> rfl

theorem core_startInterval (t : Timing) (key : DimensionKey) :
    m.core.startInterval t cs e key = (m.startInterval t cs e key).map core := by
  have hlink : m.core.intervalLink e = m.intervalLink e := rfl
  rw [startInterval, startInterval]
  rw [hlink]
  cases m.intervalLink e with
  | error r => rfl
  | ok link =>
      have hstart : m.core.intervals.start t.nested m.core.plan.maxDimensions e.time
          (m.core.gateOpen cs link) key link = m.intervals.start t.nested m.plan.maxDimensions e.time
            (m.gateOpen cs link) key link := rfl
      simp only [bind, Except.bind, hstart]
      cases m.intervals.start t.nested m.plan.maxDimensions e.time (m.gateOpen cs link) key link <;> rfl

theorem core_turnInterval (t : Timing) : m.core.turnInterval t cs e hits =
    ((m.turnInterval t cs e hits).1.core, (m.turnInterval t cs e hits).2) := by
  have hplan : m.core.plan = m.plan := rfl
  rw [turnInterval, turnInterval]
  rw [hplan]
  split
  · rfl
  · rfl
  · split
    · rfl
    · split
      · rw [core_startInterval]
        cases m.startInterval t cs e _ <;> rfl
      · rfl

theorem core_prepareIntervals (t : Timing) :
    (m.prepareIntervals t cs e hits u).core = m.core.prepareIntervals t cs e hits u := by
  have hplan : m.core.plan = m.plan := rfl
  unfold prepareIntervals
  dsimp only
  rw [hplan]
  split <;> split <;> rfl

theorem core_takeSample (reading : Reading) (key : DimensionKey) :
    m.core.takeSample reading key e = (m.takeSample reading key e).map core := by
  rw [takeSample, takeSample]
  cases reading.sample e with
  | error r => rfl
  | ok q =>
      have hadd : m.core.samples.add m.core.plan.maxDimensions key q =
          m.samples.add m.plan.maxDimensions key q := rfl
      simp only [bind, Except.bind, hadd]
      cases m.samples.add m.plan.maxDimensions key q <;> rfl

theorem core_measure : m.core.measure cs e hits u = coreStep (m.measure cs e hits u) := by
  have hplan : m.core.plan = m.plan := rfl
  rw [measure, measure]
  rw [hplan]
  cases m.plan.rule with
  | sampled what reading =>
      dsimp only
      split
      · refine core_sampleEvent m cs e fun key => ?_
        rw [core_takeSample]
        cases m.takeSample reading key e <;> rfl
      · rfl
  | timed t =>
      dsimp only
      rw [← core_prepareIntervals, core_turnInterval]
      rfl
  | passed what =>
      dsimp only
      split
      · exact core_sampleEvent m cs e fun key => rfl
      · rfl

/-- Copies of one metric with what they emitted: both come to the same. -/
structure Tally (rs rs' : List Record) (m m' : Metric) : Prop where
  core : m.core = m'.core
  books : Agree (rs ++ m.owed) (rs' ++ m'.owed)

namespace Tally

variable {rs rs' : List Record} {m m' n n' : Metric} (cs : Conditions)

theorem congr (h : Tally rs rs' m m') (hcore : n.core = n'.core) (hpending : n.pending = m.pending)
    (hpending' : n'.pending = m'.pending) : Tally rs rs' n n' := by
  refine ⟨hcore, ?_⟩
  rw [owed, owed, hpending, hpending']
  exact h.books

theorem plan (h : Tally rs rs' m m') : m.plan = m'.plan := (congrArg Metric.plan h.core :)

theorem current (h : Tally rs rs' m m') : m.grid.current = m'.grid.current :=
  (congrArg (fun m : Metric => m.grid.current) h.core :)

theorem nextDeadline (h : Tally rs rs' m m') : m.nextDeadline = m'.nextDeadline :=
  (congrArg Metric.nextDeadline h.core :)

theorem remaining (h : Tally rs rs' m m') : m.remaining = m'.remaining :=
  (congrArg Metric.remaining h.core :)

theorem onIntervals (h : Tally rs rs' m m') (f : Timing → Intervals → Intervals) :
    Tally rs rs' (m.onIntervals f) (m'.onIntervals f) :=
  h.congr (by rw [core_onIntervals, core_onIntervals, h.core]) (by simp) (by simp)

theorem activate (h : Tally rs rs' m m') (time : Int) :
    Tally rs rs' (m.activate cs time) (m'.activate cs time) :=
  h.congr (by rw [core_activate, core_activate, h.core]) (activate_pending m cs time)
    (activate_pending m' cs time)

theorem deactivate (h : Tally rs rs' m m') (time : Int) :
    Tally rs rs' (m.deactivate time) (m'.deactivate time) :=
  h.congr (by rw [core_deactivate, core_deactivate, h.core]) (deactivate_pending m time)
    (deactivate_pending m' time)

theorem start (h : Tally rs rs' m m') (time : Int) :
    Tally rs rs' (m.start cs time) (m'.start cs time) := by
  have hwindows : m.windows = m'.windows := (congrArg Metric.windows h.core :)
  rw [Metric.start, Metric.start, hwindows]
  split
  · exact h.activate cs time
  · exact h

theorem followWindows (h : Tally rs rs' m m') (time : Int) :
    Tally rs rs' (m.followWindows cs time) (m'.followWindows cs time) :=
  h.congr (by rw [core_followWindows, core_followWindows, h.core]) (followWindows_pending m cs time)
    (followWindows_pending m' cs time)

theorem proceed (h : Tally rs rs' m m') (slot : Slot) :
    Tally rs rs' (m.proceed cs slot) (m'.proceed cs slot) :=
  h.congr (by rw [core_proceed, core_proceed, h.core]) (proceed_pending m cs slot) (proceed_pending m' cs slot)

theorem clearBucket (h : Tally rs rs' m m') : Tally rs rs' m.clearBucket m'.clearBucket :=
  h.congr (congrArg Metric.clearBucket h.core) rfl rfl

theorem note (h : Tally rs rs' m m') (outcome : Outcome) :
    Tally rs rs' (m.note outcome) (m'.note outcome) := by
  refine h.congr (by rw [core_note, core_note, h.core]) ?_ ?_ <;> cases outcome <;> rfl

theorem emit (h : Tally rs rs' m m') {xs : List Record} (hxs : gaps xs = []) (hcore : n.core = n'.core)
    (hpending : n.pending = m.pending) (hpending' : n'.pending = m'.pending) :
    Tally (rs ++ xs) (rs' ++ xs) n n' := by
  obtain ⟨hreports, hgaps⟩ := h.books
  refine ⟨hcore, ?_⟩
  rw [owed, owed, hpending, hpending', ← owed, ← owed]
  simp only [reports_append, gaps_append, reports_owed, List.append_nil] at hreports hgaps
  constructor
  · simp only [reports_append, reports_owed, hreports]
  · simp only [gaps_append, hxs, List.append_nil, hgaps]

theorem measure (h : Tally rs rs' m m') (e : Event) (hits : Hits) (u : Condition.Update) :
    Tally (rs ++ (m.measure cs e hits u).1.records) (rs' ++ (m'.measure cs e hits u).1.records)
      (m.measure cs e hits u).1.state (m'.measure cs e hits u).1.state ∧
    (m.measure cs e hits u).2 = (m'.measure cs e hits u).2 := by
  have heq : coreStep (m.measure cs e hits u) = coreStep (m'.measure cs e hits u) := by
    rw [← core_measure, ← core_measure, h.core]
  have hrecords : (m.measure cs e hits u).1.records = (m'.measure cs e hits u).1.records :=
    (congrArg (·.1.records) heq :)
  have hpending : ∀ n : Metric, (n.measure cs e hits u).1.state.pending = n.pending := fun n =>
    (congrArg Metric.pending (measure_still n cs e hits u) :)
  have hgaps : gaps (m.measure cs e hits u).1.records = [] := by
    refine List.filterMap_eq_nil_iff.2 fun x hx => ?_
    obtain ⟨key, rfl⟩ := measure_records hx
    rfl
  refine ⟨?_, (congrArg Prod.snd heq :)⟩
  rw [← hrecords]
  exact h.emit hgaps (congrArg (·.1.state) heq :) (hpending m) (hpending m')

theorem flushLeft (h : Tally rs rs' m m') :
    Tally (rs ++ m.flushPending.records) rs' m.flushPending.state m' := by
  have hcore : m.flushPending.state.core = m.core := by
    cases hp : m.pending <;> simp [Metric.flushPending, Metric.core, hp]
  refine ⟨hcore.trans h.core, ?_⟩
  rw [List.append_assoc, flushPending_owed]
  exact h.books

theorem symm (h : Tally rs rs' m m') : Tally rs' rs m' m := ⟨h.core.symm, h.books.symm⟩

theorem flushPending (h : Tally rs rs' m m') : Tally (rs ++ m.flushPending.records)
    (rs' ++ m'.flushPending.records) m.flushPending.state m'.flushPending.state :=
  h.flushLeft.symm.flushLeft.symm

theorem skip_books (m : Metric) (start stop : Int) (reason : SkipReason) :
    Agree ((m.skip start stop reason).records ++ (m.skip start stop reason).state.owed)
      (m.owed ++ [.skipped ⟨m.plan.id, start, stop, 1, reason⟩]) := by
  rcases skip_cases m start stop reason with ⟨s, hs, hstop, hreason, hskip⟩ | hskip <;> rw [hskip]
  · simp [owed, hs, Agree, gaps, reports, Record.isSkipped, Record.Skipped.merge, Record.Skipped.glue,
      Record.Skipped.Joins, Record.Skipped.join, hstop, hreason]
  · cases hs : m.pending <;> simp [Metric.flushPending, await, owed, hs, Agree.rfl]

theorem skip (h : Tally rs rs' m m') (start stop : Int) (reason : SkipReason) :
    Tally (rs ++ (m.skip start stop reason).records) (rs' ++ (m'.skip start stop reason).records)
      (m.skip start stop reason).state (m'.skip start stop reason).state := by
  have hcore : ∀ n : Metric, (n.skip start stop reason).state.core = n.core := by
    intro n
    rcases skip_cases n start stop reason with ⟨s, -, -, -, hskip⟩ | hskip <;> rw [hskip]
    · rfl
    · cases hs : n.pending <;> simp [Metric.flushPending, await, Metric.core, hs]
  refine ⟨(hcore m).trans (h.core.trans (hcore m').symm), ?_⟩
  rw [List.append_assoc, List.append_assoc]
  refine (Agree.append .rfl (skip_books m start stop reason)).trans ?_
  refine .trans ?_ (Agree.append .rfl (skip_books m' start stop reason)).symm
  rw [← List.append_assoc, ← List.append_assoc, h.plan]
  exact h.books.append .rfl

theorem emitRows (h : Tally rs rs' m m') (slot : Slot) (stop : Int) (rows : List Row) :
    Tally (rs ++ (m.emitRows slot stop rows).records) (rs' ++ (m'.emitRows slot stop rows).records)
      (m.emitRows slot stop rows).state (m'.emitRows slot stop rows).state := by
  have hrecords : (m.emitRows slot stop rows).records = (m'.emitRows slot stop rows).records :=
    (congrArg (fun n => (Metric.emitRows n slot stop rows).records) h.core :)
  have hcore : (m.emitRows slot stop rows).state.core = (m'.emitRows slot stop rows).state.core :=
    (congrArg (fun n => (Metric.emitRows n slot stop rows).state) h.core :)
  rw [← hrecords]
  exact h.emit (gaps_emitRows m slot stop rows) hcore rfl rfl

theorem flushBucket (h : Tally rs rs' m m') (slot : Slot) (stop : Int) (reportEmpty : Bool) :
    Tally (rs ++ (m.flushBucket slot stop reportEmpty).records)
      (rs' ++ (m'.flushBucket slot stop reportEmpty).records)
      (m.flushBucket slot stop reportEmpty).state (m'.flushBucket slot stop reportEmpty).state := by
  have hrows : m.rows = m'.rows := (congrArg Metric.rows h.core :)
  have hreason : m.skipReason = m'.skipReason := (congrArg Metric.skipReason h.core :)
  cases hr : m.rows.isEmpty with
  | false =>
      have hr' : m'.rows.isEmpty = false := hrows ▸ hr
      rw [flushBucket_of_rows hr, flushBucket_of_rows hr', hrows]
      simp only [Emitting.andThen_records, ← List.append_assoc]
      exact h.clearBucket.flushPending.emitRows slot stop m'.rows
  | true =>
      have hr' : m'.rows.isEmpty = true := hrows ▸ hr
      cases reportEmpty with
      | false =>
          rw [flushBucket_unreported hr, flushBucket_unreported hr']
          simpa using h.clearBucket
      | true =>
          rw [flushBucket_of_empty hr, flushBucket_of_empty hr', hreason]
          exact h.clearBucket.skip slot.start stop m'.skipReason

theorem roll (h : Tally rs rs' m m') (slot : Slot) :
    Tally (rs ++ (m.roll cs slot).records) (rs' ++ (m'.roll cs slot).records)
      (m.roll cs slot).state (m'.roll cs slot).state := by
  rw [roll_eq, roll_eq]
  simpa [accrue] using ((h.onIntervals _).flushBucket slot slot.stop true).proceed cs slot

theorem advance (h : Tally rs rs' m m') (limit : Int) (inclusive : Bool) :
    Tally (rs ++ (m.advance cs limit inclusive).records) (rs' ++ (m'.advance cs limit inclusive).records)
      (m.advance cs limit inclusive).state (m'.advance cs limit inclusive).state :=
  advance_simulation current nextDeadline remaining (fun slot h => h.roll cs slot)
    (fun due h => h.deactivate due) h

theorem rollTo (h : Tally rs rs' m m') (time : Int) :
    Tally (rs ++ (m.rollTo cs time).records) (rs' ++ (m'.rollTo cs time).records)
      (m.rollTo cs time).state (m'.rollTo cs time).state := by
  fun_induction Metric.rollTo m cs time generalizing rs rs' m' with
  | case1 m hs =>
      rw [h.current] at hs
      rw [Metric.rollTo, hs]
      simpa using h
  | case2 m slot hs hle r hlt =>
      rename_i ih
      have hr := h.roll cs slot
      rw [hr.remaining, h.remaining] at hlt
      rw [h.current] at hs
      rw [Metric.rollTo, hs]
      simp only [hle, hlt, if_true]
      simpa using ih hr
  | case3 m slot hs hle r =>
      rename_i hlt
      have hr := h.roll cs slot
      rw [hr.remaining, h.remaining] at hlt
      rw [h.current] at hs
      rw [Metric.rollTo, hs]
      simp only [hle, hlt, if_true, if_false]
      exact hr
  | case4 m slot hs hle =>
      rw [h.current] at hs
      rw [Metric.rollTo, hs]
      simp only [hle, if_false]
      simpa using h

theorem onEvent (h : Tally rs rs' m m') (e : Event) (hits : Hits) (u : Condition.Update) :
    Tally (rs ++ (m.onEvent cs e hits u).1.records) (rs' ++ (m'.onEvent cs e hits u).1.records)
      (m.onEvent cs e hits u).1.state (m'.onEvent cs e hits u).1.state ∧
    (m.onEvent cs e hits u).2 = (m'.onEvent cs e hits u).2 := by
  obtain ⟨hm, ho⟩ := ((h.rollTo cs e.time).followWindows cs e.time).measure cs e hits u
  refine ⟨?_, ho⟩
  have hn := hm.note ((m.onEvent cs e hits u).2)
  rw [List.append_assoc, List.append_assoc] at hn
  unfold Metric.onEvent at hn ⊢
  dsimp only at hn ⊢
  rwa [← ho]

theorem absorb (h : Tally rs rs' m m') (e : Event) (hits : Hits) (u : Condition.Update) :
    Tally (rs ++ (m.absorb cs e hits u).1.records) (rs' ++ (m'.absorb cs e hits u).1.records)
      (m.absorb cs e hits u).1.state (m'.absorb cs e hits u).1.state ∧
    (m.absorb cs e hits u).2 = (m'.absorb cs e hits u).2 := by
  have hw : Tally rs rs' { m with windows := m.windows.onEvent e.time hits }
      { m' with windows := m'.windows.onEvent e.time hits } :=
    h.congr (congrArg (fun n : Metric => { n with windows := n.windows.onEvent e.time hits }) h.core :)
      rfl rfl
  obtain ⟨he, ho⟩ := hw.onEvent cs e hits u
  have ha := (he.advance cs e.time true).flushPending
  refine ⟨?_, ho⟩
  simpa only [Metric.absorb, Emitting.andThen_state, Emitting.andThen_records, List.append_assoc] using ha

theorem closeAt (h : Tally rs rs' m m') (now : Int) :
    Tally (rs ++ (m.closeAt now).records) (rs' ++ (m'.closeAt now).records)
      (m.closeAt now).state (m'.closeAt now).state := by
  rw [Metric.closeAt, Metric.closeAt, h.current]
  split
  next => simpa using h
  next slot hs =>
    have hf := (h.onIntervals fun t is => is.settle t.aggregation (max now slot.start)).flushBucket slot
      (max now slot.start) (slot.start < max now slot.start)
    simp only [Emitting.andThen_records, Emitting.andThen_state, List.append_nil]
    exact hf.congr (congrArg (fun n : Metric => { n with grid := n.grid.close }) hf.core :) rfl rfl

theorem shutdown (h : Tally rs rs' m m') (now : Int) :
    Tally (rs ++ (m.shutdown cs now).records) (rs' ++ (m'.shutdown cs now).records)
      (m.shutdown cs now).state (m'.shutdown cs now).state := by
  have hc := ((h.advance cs now false).closeAt now).flushPending
  simpa only [Metric.shutdown, Emitting.andThen_state, Emitting.andThen_records, List.append_assoc] using hc

theorem advanceTo (h : Tally rs rs' m m') (now : Int) :
    Tally (rs ++ (m.advanceTo cs now).records) (rs' ++ (m'.advanceTo cs now).records)
      (m.advanceTo cs now).state (m'.advanceTo cs now).state := by
  have ha := (h.advance cs now false).flushPending
  rwa [List.append_assoc, List.append_assoc] at ha

/-- To report empty buckets on the way makes no difference. -/
theorem advance_through (h : Tally rs rs' m m') (hm : Paced m) (mid limit : Int) (i j : Bool)
    (hlast : ∀ d, Due d mid i → d < Instant.last) (hdue : ∀ d, Due d mid i → Due d limit j) :
    Tally (rs ++ (m.advance cs limit j).records)
      (rs' ++ (((m'.advance cs mid i).andThen Metric.flushPending).andThen (·.advance cs limit j)).records)
      (m.advance cs limit j).state
      (((m'.advance cs mid i).andThen Metric.flushPending).andThen (·.advance cs limit j)).state := by
  rw [← Metric.advance_through hm hlast hdue]
  have ht := (h.advance cs mid i).symm.flushLeft.symm.advance cs limit j
  simpa only [Emitting.andThen_state, Emitting.andThen_records, List.append_assoc] using ht

end Tally

end EventMetrics.Metric
