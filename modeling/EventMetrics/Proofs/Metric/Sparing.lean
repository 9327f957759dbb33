import EventMetrics.Proofs.Metric.Life

namespace EventMetrics

/-- The hits of an event without those of some matchers. -/
def Hits.without (hits : Hits) (hidden : List Nat) : Hits :=
  hits.mapIdx fun i hit => hit && !hidden.contains i

theorem Hits.get_without (hits : Hits) (hidden : List Nat) (i : Nat) :
    (hits.without hidden).get i = (hits.get i && !hidden.contains i) := by
  simp only [get, without, List.getD_eq_getElem?_getD, List.getElem?_mapIdx]
  cases hits[i]? <;> rfl

theorem Hits.get_of_silent {hits : Hits} (h : ∀ hit ∈ hits, hit = false) (i : Nat) : hits.get i = false := by
  rw [get, List.getD_eq_getElem?_getD]
  cases hi : hits[i]? with
  | none => rfl
  | some hit => exact h hit (List.mem_of_getElem? hi)

def MeasureRule.turns : MeasureRule → List Nat
  | .sampled what _ | .passed what => [what]
  | .timed t => [t.start, t.stop]

def MeasureRule.stopAll : MeasureRule → Option Nat
  | .timed t => t.stopAll
  | _ => none

/-- All matchers by which an event is for the metric itself. -/
def MeasureRule.own (r : MeasureRule) : List Nat := r.turns ++ r.stopAll.toList

namespace Metric

variable (m n : Metric) (cs : Conditions)

def stock : Metric := { m.body with unknownDrops := 0, drops := {}, turnover := {} }

variable {m n} in
theorem stock_of_body (h : m.body = n.body) : m.stock = n.stock :=
  (congrArg stock h :)

theorem stock_onIntervals (f : Timing → Intervals → Intervals) :
    (m.onIntervals f).stock = m.stock.onIntervals f := by
  rw [onIntervals, onIntervals, stock, stock]
  cases hrule : m.plan.rule <;> simp [body, hrule]

theorem stock_deactivate (time : Int) : (m.deactivate time).stock = m.stock.deactivate time :=
  stock_onIntervals _ _

theorem stock_proceed (slot : Slot) : (m.proceed cs slot).stock = m.stock.proceed cs slot := by
  have hactive : m.stock.active = m.active := rfl
  have hwindows : m.stock.windows = m.windows := rfl
  rw [proceed, proceed, hactive, hwindows]
  split
  · rfl
  · dsimp only
    split
    · exact stock_deactivate _ _
    · rfl

theorem stock_roll (slot : Slot) : (m.roll cs slot).state.stock =
    (m.stock.accrue slot.stop).clearBucket.proceed cs slot := by
  have hcut : (m.accrue slot.stop).clearBucket.stock = (m.stock.accrue slot.stop).clearBucket := by
    rw [accrue, accrue, ← stock_onIntervals]
    rfl
  rw [stock_of_body (body_roll m cs slot), stock_proceed, hcut]

theorem stock_flushPending : m.flushPending.state.stock = m.stock :=
  stock_of_body (body_flushPending m)

variable {m n cs}

theorem stock_advance (h : m.stock = n.stock) (limit : Int) (inclusive : Bool) :
    (m.advance cs limit inclusive).state.stock = (n.advance cs limit inclusive).state.stock :=
  advance_simulation (R := fun _ _ m n => m.stock = n.stock) (a := []) (b := [])
    (fun h => (congrArg (fun m : Metric => m.grid.current) h :))
    (fun h => (congrArg Metric.nextDeadline h :))
    (fun h => (congrArg Metric.remaining h :))
    (fun slot h => by rw [stock_roll, stock_roll, h])
    (fun due h => by rw [stock_deactivate, stock_deactivate, h]) h

variable {e : Event} {hits own : Hits} {u : Condition.Update} {r : DropReason}

theorem measure_unturned (h : ∀ i ∈ m.plan.rule.turns, own.get i = false) : m.measure cs e own u =
    (⟨match m.plan.rule with
      | .timed t => m.prepareIntervals t cs e own u
      | _ => m, []⟩, .ignored) := by
  cases hrule : m.plan.rule with
  | sampled what reading => simp [measure, hrule, h what (by simp [hrule, MeasureRule.turns])]
  | passed what => simp [measure, hrule, h what (by simp [hrule, MeasureRule.turns])]
  | timed t =>
      have hstart := h t.start (by simp [hrule, MeasureRule.turns])
      have hstop := h t.stop (by simp [hrule, MeasureRule.turns])
      simp only [measure, hrule, turnInterval, hstart, hstop]

/-- To drop an event is to miss its samples, its start and its stop. -/
theorem measure_dropped (h : (m.measure cs e hits u).2 = .dropped r)
    (hturns : ∀ i ∈ m.plan.rule.turns, own.get i = false)
    (hstopAll : ∀ i ∈ m.plan.rule.stopAll, own.get i = hits.get i) :
    (m.measure cs e own u).1.state.stock = (m.measure cs e hits u).1.state.stock := by
  rw [measure_unturned hturns]
  cases hrule : m.plan.rule with
  | sampled what reading =>
      rcases measure_sampled cs e hits u hrule with ⟨k, o, hm, -⟩ | ⟨key, q, ss, -, -, -, hm⟩
      · rw [hm]
        rfl
      · simp [hm] at h
  | passed what =>
      rcases measure_passed cs e hits u hrule with ⟨k, o, hm, -⟩ | ⟨key, -, hm⟩
      · rw [hm]
        rfl
      · simp [hm] at h
  | timed t =>
      have hany : t.stopAll.any own.get = t.stopAll.any hits.get := by
        cases hs : t.stopAll with
        | none => rfl
        | some i => exact hstopAll i (by simp [hrule, MeasureRule.stopAll, hs])
      -- what is done before the drop is done either way: gates follow the condition, and all may be stopped
      have hprepare : m.prepareIntervals t cs e own u = m.prepareIntervals t cs e hits u := by
        simp only [prepareIntervals, hany]
      rw [measure_timed cs e hits u hrule] at h ⊢
      rcases (m.prepareIntervals t cs e hits u).turnInterval_cases cs e hits t with
        ⟨o, -, ht⟩ | ⟨key, n, -, -, -, -, ht⟩ | ⟨key, ht⟩
      · rw [ht, ← hprepare]
      · simp [ht] at h
      · simp [ht] at h

/-- A metric meets an event that time, windows and conditions see as it is, and of which the metric
itself sees other hits. -/
def visitAs (m : Metric) (cs : Conditions) (ev : Event) (hits own : Hits) : Emitting Metric × Outcome :=
  let n := m.advance cs ev.time false
  let cs' := (cs.onEvent ev hits).1
  let r := (n.state.watch ev.time hits).onEvent cs' ev own (cs.onEvent ev hits).2
  (((n.andThen fun _ => r.1).andThen (·.advance cs' ev.time true)).andThen flushPending, r.2)

theorem visit_eq_visitAs (m : Metric) (cs : Conditions) (ev : Event) (hits : Hits) :
    m.visit cs ev hits = m.visitAs cs ev hits hits := by
  simp [visit, visitAs, absorb, watch, Emitting.andThen]

theorem visit_dropped {ev : Event} (h : (m.visit cs ev hits).2 = .dropped r)
    (hturns : ∀ i ∈ m.plan.rule.turns, own.get i = false)
    (hstopAll : ∀ i ∈ m.plan.rule.stopAll, own.get i = hits.get i) :
    (m.visit cs ev hits).1.state.stock = (m.visitAs cs ev hits own).1.state.stock := by
  have hplan : (((m.advance cs ev.time false).state.watch ev.time hits).meet (cs.onEvent ev hits).1
      ev.time).plan = m.plan := (meet_plan _ _ _).trans (advance_plan m cs ev.time false)
  have hmeasured := measure_dropped (m := ((m.advance cs ev.time false).state.watch ev.time hits).meet
    (cs.onEvent ev hits).1 ev.time) (u := (cs.onEvent ev hits).2) h (hplan ▸ hturns) (hplan ▸ hstopAll)
  have hnote : ∀ (n : Metric) (o : Outcome), (n.note o).stock = n.stock := fun n o => by cases o <;> rfl
  rw [visit_eq_visitAs]
  simp only [visitAs, Emitting.andThen_state, stock_flushPending]
  refine stock_advance ?_ ev.time true
  rw [onEvent_eq, onEvent_eq]
  simpa only [hnote] using hmeasured.symm

/-- What `n` gathered is what `m` gathers when it meets an event that some matchers do not see. -/
structure Missed (m : Metric) (cs : Conditions) (ev : Event) (hits : Hits) (hidden : List Nat) (n : Metric) :
    Prop where
  samples : n.samples = (m.visitAs cs ev hits (hits.without hidden)).1.state.samples
  intervals : n.intervals = (m.visitAs cs ev hits (hits.without hidden)).1.state.intervals

/-- A dropped event counts for no sample, start or stop. A stop of all intervals counts before. -/
theorem missed_of_dropped {ev : Event} (h : (m.visit cs ev hits).2 = .dropped r) {hidden : List Nat}
    (hturns : ∀ i ∈ m.plan.rule.turns, i ∈ hidden)
    (hstopAll : ∀ i ∈ m.plan.rule.stopAll, i ∈ hidden → hits.get i = false) :
    Missed m cs ev hits hidden (m.visit cs ev hits).1.state := by
  have hstock : (m.visit cs ev hits).1.state.stock =
      (m.visitAs cs ev hits (hits.without hidden)).1.state.stock := by
    refine visit_dropped h (fun i hi => ?_) fun i hi => ?_
    · simp [Hits.get_without, hturns i hi]
    · by_cases hmem : i ∈ hidden
      · simp [Hits.get_without, hstopAll i hi hmem]
      · simp [Hits.get_without, hmem]
  exact ⟨(congrArg Metric.samples hstock :), (congrArg Metric.intervals hstock :)⟩

def Unopened (m : Metric) : Prop := m.intervals.opened = .empty

theorem Unopened.onIntervals (h : Unopened m) {f : Timing → Intervals → Intervals}
    (hf : ∀ t is, is.opened = .empty → (f t is).opened = .empty) : Unopened (m.onIntervals f) := by
  rw [Unopened, Metric.onIntervals]
  split
  · exact hf _ _ h
  · exact h

theorem Unopened.accrue (h : Unopened m) (time : Int) : Unopened (m.accrue time) :=
  h.onIntervals fun t is his => by
    simp only [Intervals.accrueTo, Intervals.sweep, his]
    rfl

theorem Unopened.deactivate (h : Unopened m) (time : Int) : Unopened (m.deactivate time) :=
  Unopened.onIntervals (m := { m with active := false }) h fun t is his => by
    simp only [Intervals.regate, Intervals.sweep, his]
    rfl

theorem Unopened.proceed (h : Unopened m) (slot : Slot) : Unopened (m.proceed cs slot) := by
  rcases proceed_cases m cs slot with hp | hp | hp <;> rw [hp]
  · exact h
  · exact Unopened.deactivate (m := { m with grid := m.grid.close }) h slot.stop
  · exact h

theorem Unopened.roll (h : Unopened m) (slot : Slot) : Unopened (m.roll cs slot).state := by
  have hcut : Unopened (m.accrue slot.stop).clearBucket := h.accrue slot.stop
  exact (congrArg (fun n : Metric => n.intervals.opened) (body_roll m cs slot) :).trans (hcut.proceed slot)

theorem Unopened.advance (h : Unopened m) (limit : Int) (inclusive : Bool) :
    Unopened (m.advance cs limit inclusive).state :=
  advance_induction (P := fun n _ => Unopened n) (fun _ _ slot h _ _ _ => h.roll slot)
    (fun _ _ due h _ _ _ => h.deactivate due) m [] h

theorem Unopened.flushPending (h : Unopened m) : Unopened m.flushPending.state :=
  (congrArg (fun n : Metric => n.intervals.opened) (body_flushPending m) :).trans h

theorem unopened_of_dropped {ev : Event} (h : (m.visit cs ev hits).2 = .dropped r)
    (hstopAll : m.plan.rule.stopAll.any hits.get = true) : Unopened (m.visit cs ev hits).1.state := by
  have hplan : (((m.advance cs ev.time false).state.watch ev.time hits).meet (cs.onEvent ev hits).1
      ev.time).plan = m.plan := (meet_plan _ _ _).trans (advance_plan m cs ev.time false)
  have hmeasure : ∀ n : Metric, n.plan = m.plan → ∀ cs' u, (n.measure cs' ev hits u).2 = .dropped r →
      Unopened (n.measure cs' ev hits u).1.state := by
    intro n hn cs' u hdropped
    rw [← hn] at hstopAll
    cases hrule : n.plan.rule with
    | sampled what reading => simp [hrule, MeasureRule.stopAll] at hstopAll
    | passed what => simp [hrule, MeasureRule.stopAll] at hstopAll
    | timed t =>
        rw [hrule] at hstopAll
        rw [measure_timed cs' ev hits u hrule] at hdropped ⊢
        have hstopped : Unopened (n.prepareIntervals t cs' ev hits u) := by
          simp only [prepareIntervals, show t.stopAll.any hits.get = true from hstopAll, if_true]
          rfl
        rcases (n.prepareIntervals t cs' ev hits u).turnInterval_cases cs' ev hits t with
          ⟨o, -, ht⟩ | ⟨key, n', -, -, -, -, ht⟩ | ⟨key, ht⟩
        · rwa [ht]
        · simp [ht] at hdropped
        · simp [ht] at hdropped
  have hmet := hmeasure _ hplan (cs.onEvent ev hits).1 (cs.onEvent ev hits).2 h
  have hnote : ∀ (n : Metric) (o : Outcome), Unopened n → Unopened (n.note o) := fun n o hn => by
    cases o <;> exact hn
  rw [visit_eq_visitAs]
  exact ((hnote _ _ hmet).advance ev.time true).flushPending

end Metric

end EventMetrics
