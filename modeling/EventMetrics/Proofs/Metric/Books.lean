import EventMetrics.Proofs.Metric.Ownership
import EventMetrics.Proofs.Metric.Sampling
import Mathlib.Data.List.Forall2

namespace EventMetrics

def Turnover.emitted (t : Turnover) : Record.Kind → Nat
  | .bucket => t.buckets
  | .skipped => t.skipped
  | .alert => t.alerts
  | .event => t.events

namespace Record

def events (rs : List Record) : List Record.Event :=
  rs.filterMap fun r => match r with
    | .event e => some e
    | _ => none

theorem events_append (rs rs' : List Record) : events (rs ++ rs') = events rs ++ events rs' :=
  List.filterMap_append

theorem events_eq_nil {rs : List Record} (h : ∀ r ∈ rs, r.kind ≠ .event) : events rs = [] := by
  refine List.filterMap_eq_nil_iff.2 fun r hr => ?_
  cases r with
  | event e => exact absurd rfl (h _ hr)
  | bucket | skipped | alert => rfl

theorem length_events (rs : List Record) : (events rs).length = rs.countP (·.kind = .event) := by
  rw [events, List.length_filterMap_eq_countP]
  refine List.countP_congr fun r _ => ?_
  cases r <;> simp [kind]

theorem countP_kind_eq {k : Kind} {rs : List Record} (h : ∀ r ∈ rs, r.kind = k) (j : Kind) :
    rs.countP (·.kind = j) = if j = k then rs.length else 0 := by
  by_cases hj : j = k
  · rw [if_pos hj, List.countP_eq_length]
    exact fun r hr => decide_eq_true ((h r hr).trans hj.symm)
  · rw [if_neg hj, List.countP_eq_zero]
    exact fun r hr heq => hj ((of_decide_eq_true heq).symm.trans (h r hr))

end Record

def Outcome.taken (ev : Event) : Outcome → List Event
  | accepted => [ev]
  | ignored | dropped _ => []

theorem Outcome.taken_of_ne {ev : Event} {o : Outcome} (h : o ≠ .accepted) : o.taken ev = [] := by
  cases o with
  | accepted => exact absurd rfl h
  | ignored | dropped => rfl

/-- The record with which a metric passes an event on. -/
def MetricPlan.Passes (p : MetricPlan) (r : Record.Event) (ev : Event) : Prop :=
  ∃ key, DimensionKey.extract? ev p.dimensions = some key ∧ r = ⟨p.id, key, ev.atom, ev.time, ev.fields⟩

namespace Metric

theorem measure_turnover (m : Metric) (cs : Conditions) (e : Event) (hits : Hits) (u : Condition.Update) :
    (m.measure cs e hits u).1.records = [] ∧ (m.measure cs e hits u).1.state.turnover = m.turnover ∧
      (m.plan.isBucketed = false → (m.measure cs e hits u).2 ≠ .accepted) ∨
    ∃ key, DimensionKey.extract? e m.plan.dimensions = some key ∧
      m.measure cs e hits u = (m.passOn key e, .accepted) := by
  cases hrule : m.plan.rule with
  | sampled what reading =>
      have hb : m.plan.isBucketed = true := by rw [MetricPlan.isBucketed, hrule]
      refine .inl ⟨measure_records_of_isBucketed hb, ?_, by simp [hb]⟩
      rcases measure_sampled cs e hits u hrule with ⟨k, outcome, h, -⟩ | ⟨key, q, ss, -, -, -, h⟩ <;> rw [h]
  | timed t =>
      have hb : m.plan.isBucketed = true := by rw [MetricPlan.isBucketed, hrule]
      refine .inl ⟨measure_records_of_isBucketed hb, ?_, by simp [hb]⟩
      obtain ⟨is, hprepared⟩ := prepareIntervals_eq m cs e hits u t
      obtain ⟨is', hturned⟩ := turnInterval_eq (m.prepareIntervals t cs e hits u) cs e hits t
      rw [measure_timed cs e hits u hrule, hturned, hprepared]
  | passed what =>
      rcases measure_passed cs e hits u hrule with ⟨k, outcome, h, hnot⟩ | ⟨key, hj, h⟩
      · rw [h]
        exact .inl ⟨rfl, rfl, fun _ => hnot⟩
      · exact .inr ⟨key, (Sampled.judge_eq_take hj).2, h⟩

/-- A metric with plan `p` that emitted `rs` and accepted the events `evs`. -/
structure Balanced (p : MetricPlan) (m : Metric) (rs : List Record) (evs : List Event) : Prop where
  plan : m.plan = p
  emitted : ∀ k, m.turnover.emitted k = rs.countP (·.kind = k)
  accepted : m.turnover.accepted = evs.length
  passed : p.isBucketed = false → List.Forall₂ p.Passes (Record.events rs) evs

namespace Balanced

variable {p : MetricPlan} {m n : Metric} {rs xs : List Record} {evs : List Event} (cs : Conditions)

theorem congr (h : Balanced p m rs evs) (hplan : n.plan = m.plan) (hturnover : n.turnover = m.turnover) :
    Balanced p n rs evs :=
  ⟨hplan ▸ h.plan, hturnover ▸ h.emitted, hturnover ▸ h.accepted, h.passed⟩

theorem emit (h : Balanced p m rs evs) (hplan : n.plan = m.plan)
    (haccepted : n.turnover.accepted = m.turnover.accepted)
    (hcount : ∀ k, n.turnover.emitted k = m.turnover.emitted k + xs.countP (·.kind = k))
    (hevents : ∀ x ∈ xs, x.kind ≠ .event) : Balanced p n (rs ++ xs) evs where
  plan := hplan ▸ h.plan
  emitted k := by rw [hcount, h.emitted, List.countP_append]
  accepted := haccepted ▸ h.accepted
  passed hp := by
    rw [Record.events_append, Record.events_eq_nil hevents, List.append_nil]
    exact h.passed hp

theorem deactivate (h : Balanced p m rs evs) (time : Int) : Balanced p (m.deactivate time) rs evs :=
  h.congr (deactivate_plan m time) (deactivate_turnover m time)

theorem flushPending (h : Balanced p m rs evs) :
    Balanced p m.flushPending.state (rs ++ m.flushPending.records) evs := by
  rw [Metric.flushPending]
  split
  next => simpa using h
  next s hs =>
    refine h.emit rfl rfl (fun k => ?_) (by simp [Record.kind])
    cases k <;> rfl

theorem skip (h : Balanced p m rs evs) (start stop : Int) (reason : SkipReason) :
    Balanced p (m.skip start stop reason).state (rs ++ (m.skip start stop reason).records) evs := by
  rcases skip_cases m start stop reason with ⟨s, -, -, -, hskip⟩ | hskip <;> rw [hskip]
  · rw [List.append_nil]
    exact h.congr rfl rfl
  · simp only [Emitting.andThen_records, List.append_nil]
    exact h.flushPending.congr rfl rfl

theorem emitRows (h : Balanced p m rs evs) (slot : Slot) (stop : Int) (rows : List Row) :
    Balanced p (m.emitRows slot stop rows).state (rs ++ (m.emitRows slot stop rows).records) evs := by
  refine h.emit rfl rfl (fun k => ?_) ?_
  · simp only [Metric.emitRows, List.countP_append]
    rw [Record.countP_kind_eq (k := .bucket) (by simp [Record.kind]),
      Record.countP_kind_eq (k := .alert) (by simp [Record.kind])]
    cases k <;> simp [Turnover.emitted]
  · simp only [Metric.emitRows, List.mem_append, List.mem_map]
    rintro x (⟨r, -, rfl⟩ | ⟨a, -, rfl⟩) <;> simp [Record.kind]

theorem flushBucket (h : Balanced p m rs evs) (slot : Slot) (stop : Int) (reportEmpty : Bool) :
    Balanced p (m.flushBucket slot stop reportEmpty).state
      (rs ++ (m.flushBucket slot stop reportEmpty).records) evs := by
  have hc : Balanced p m.clearBucket rs evs := h.congr rfl rfl
  cases hr : m.rows.isEmpty with
  | false =>
      rw [flushBucket_of_rows hr, Emitting.andThen_records, ← List.append_assoc]
      exact hc.flushPending.emitRows slot stop m.rows
  | true =>
      cases reportEmpty with
      | false => simpa [flushBucket_unreported hr] using hc
      | true =>
          rw [flushBucket_of_empty hr]
          exact hc.skip slot.start stop m.skipReason

theorem roll (h : Balanced p m rs evs) (slot : Slot) :
    Balanced p (m.roll cs slot).state (rs ++ (m.roll cs slot).records) evs := by
  rw [roll_eq]
  have hcut : Balanced p (m.accrue slot.stop) rs evs := h.congr (by simp [accrue]) (by simp [accrue])
  have hflushed := hcut.flushBucket slot slot.stop true
  simp only [Emitting.andThen_records, List.append_nil]
  exact hflushed.congr (proceed_plan _ cs slot) (proceed_turnover _ cs slot)

theorem advance (h : Balanced p m rs evs) (limit : Int) (inclusive : Bool) :
    Balanced p (m.advance cs limit inclusive).state (rs ++ (m.advance cs limit inclusive).records) evs :=
  advance_induction (P := fun m rs => Balanced p m rs evs) (fun _ _ slot h _ _ _ => h.roll cs slot)
    (fun _ _ due h _ _ _ => h.deactivate due) m rs h

theorem rollTo (h : Balanced p m rs evs) (time : Int) :
    Balanced p (m.rollTo cs time).state (rs ++ (m.rollTo cs time).records) evs :=
  rollTo_induction (P := fun m rs => Balanced p m rs evs) (fun _ _ slot h _ _ => h.roll cs slot) m rs h

theorem followWindows (h : Balanced p m rs evs) (time : Int) : Balanced p (m.followWindows cs time) rs evs :=
  h.congr (followWindows_plan m cs time) (followWindows_turnover m cs time)

theorem note (h : Balanced p m rs evs) {o : Outcome} {ev : Event} (hplan : n.plan = m.plan)
    (haccepted : n.turnover.accepted = m.turnover.accepted)
    (hcount : ∀ k, n.turnover.emitted k = m.turnover.emitted k + xs.countP (·.kind = k))
    (hpassed : p.isBucketed = false →
      List.Forall₂ p.Passes (Record.events xs) (o.taken ev)) :
    Balanced p (n.note o) (rs ++ xs) (evs ++ o.taken ev) where
  plan := by cases o <;> exact hplan ▸ h.plan
  emitted k := by
    have hnote : (n.note o).turnover.emitted k = n.turnover.emitted k := by cases o <;> cases k <;> rfl
    rw [hnote, hcount, h.emitted, List.countP_append]
  accepted := by
    rw [List.length_append, ← h.accepted, ← haccepted]
    cases o <;> rfl
  passed hp := by
    rw [Record.events_append]
    exact List.rel_append (h.passed hp) (hpassed hp)

theorem measure (h : Balanced p m rs evs) (e : Event) (hits : Hits) (u : Condition.Update) :
    Balanced p ((m.measure cs e hits u).1.state.note (m.measure cs e hits u).2)
      (rs ++ (m.measure cs e hits u).1.records) (evs ++ (m.measure cs e hits u).2.taken e) := by
  have hplan : (m.measure cs e hits u).1.state.plan = m.plan :=
    (congrArg Metric.plan (measure_still m cs e hits u) :)
  rcases measure_turnover m cs e hits u with ⟨hrecords, hturnover, hnot⟩ | ⟨key, hkey, hpassed⟩
  · refine h.note hplan (congrArg Turnover.accepted hturnover) (fun k => ?_) fun hp => ?_
    · rw [hrecords, hturnover]
      rfl
    · rw [hrecords, Outcome.taken_of_ne (hnot (h.plan ▸ hp))]
      exact .nil
  · rw [hpassed]
    refine h.note rfl rfl (fun k => ?_) fun _ => ?_
    · cases k <;> rfl
    · refine .cons ⟨key, h.plan ▸ hkey, ?_⟩ .nil
      rw [← h.plan]

theorem onEvent (h : Balanced p m rs evs) (e : Event) (hits : Hits) (u : Condition.Update) :
    Balanced p (m.onEvent cs e hits u).1.state (rs ++ (m.onEvent cs e hits u).1.records)
      (evs ++ (m.onEvent cs e hits u).2.taken e) := by
  have hm := ((h.rollTo cs e.time).followWindows cs e.time).measure cs e hits u
  rwa [List.append_assoc] at hm

theorem absorb (h : Balanced p m rs evs) (e : Event) (hits : Hits) (u : Condition.Update) :
    Balanced p (m.absorb cs e hits u).1.state (rs ++ (m.absorb cs e hits u).1.records)
      (evs ++ (m.absorb cs e hits u).2.taken e) := by
  have hw : Balanced p { m with windows := m.windows.onEvent e.time hits } rs evs := h.congr rfl rfl
  have ha := ((hw.onEvent cs e hits u).advance cs e.time true).flushPending
  simpa only [Metric.absorb, Emitting.andThen_state, Emitting.andThen_records, List.append_assoc] using ha

theorem visit (h : Balanced p m rs evs) (e : Event) (hits : Hits) :
    Balanced p (m.visit cs e hits).1.state (rs ++ (m.visit cs e hits).1.records)
      (evs ++ (m.visit cs e hits).2.taken e) := by
  have hv := (h.advance cs e.time false).absorb (cs.onEvent e hits).1 e hits (cs.onEvent e hits).2
  rwa [List.append_assoc] at hv

theorem advanceTo (h : Balanced p m rs evs) (now : Int) :
    Balanced p (m.advanceTo cs now).state (rs ++ (m.advanceTo cs now).records) evs := by
  have ha := (h.advance cs now false).flushPending
  rwa [List.append_assoc] at ha

theorem closeAt (h : Balanced p m rs evs) (now : Int) :
    Balanced p (m.closeAt now).state (rs ++ (m.closeAt now).records) evs := by
  cases hs : m.grid.current with
  | none => simpa [closeAt_of_none hs] using h
  | some slot =>
      have hsettle : Balanced p (m.settle (max now slot.start)) rs evs :=
        h.congr (by simp [settle]) (by simp [settle])
      have hf := hsettle.flushBucket slot (max now slot.start) (slot.start < max now slot.start)
      rw [closeAt_of_slot hs, Emitting.andThen_records, List.append_nil]
      exact hf.congr rfl rfl

theorem shutdown (h : Balanced p m rs evs) (now : Int) :
    Balanced p (m.shutdown cs now).state (rs ++ (m.shutdown cs now).records) evs := by
  have hc := ((h.advance cs now false).closeAt now).flushPending
  simpa only [Metric.shutdown, Emitting.andThen_state, Emitting.andThen_records, List.append_assoc] using hc

theorem start (h : Balanced p m rs evs) (time : Int) : Balanced p (m.start cs time) rs evs :=
  h.congr (start_plan m cs time) (start_turnover m cs time)

theorem events_eq_accepted (h : Balanced p m rs evs) (hp : p.isBucketed = false) :
    m.turnover.events = m.turnover.accepted := by
  rw [h.accepted, ← (h.passed hp).length_eq, Record.length_events]
  exact h.emitted .event

end Balanced

end Metric

end EventMetrics
