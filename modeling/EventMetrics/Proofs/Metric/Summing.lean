import EventMetrics.Proofs.Condition
import EventMetrics.Proofs.Metric.Accrual

namespace EventMetrics.Metric

open Instant (last)
open Intervals (Opened Steady)
open Record (buckets buckets_append gaps gaps_append)

/-- Keys are open as deep as `depth` says, and time runs for them while the metric is active and `g`
holds. -/
def Runs (m : Metric) (g : Bool) (depth : DimensionKey → Nat) : Prop := m.intervals.Opened (m.active && g) depth

def Unlinked (m : Metric) : Prop := ∀ g, m.plan.gate = some g → g.links = []

variable {m n : Metric} {t : Timing} {cs : Conditions} {g : Bool} {depth : DimensionKey → Nat} {τ : Int}
  {slot : Slot} {ev : Event} {hits : Hits} {u : Condition.Update}

theorem isGateOn_congr (h : n.plan = m.plan) (cs : Conditions) : n.isGateOn cs = m.isGateOn cs := by
  rw [isGateOn, isGateOn, h]

theorem gateOpen_none (m : Metric) (cs : Conditions) : m.gateOpen cs none = (m.active && m.isGateOn cs) := by
  rw [gateOpen, isGateOn]
  cases m.plan.gate <;> rfl

namespace Runs

theorem deactivate (h : m.Runs g depth) (hrule : m.plan.rule = .timed t) (hsum : t.aggregation = .sum)
    (g' : Bool) (time : Int) : (m.deactivate time).Runs g' depth := by
  rw [Runs, deactivate_active, deactivate_intervals hrule hsum]
  exact Opened.regate time h fun _ => false

theorem activate (cs : Conditions) (h : m.Runs g depth) (hrule : m.plan.rule = .timed t)
    (hsum : t.aggregation = .sum) (time : Int) : (m.activate cs time).Runs (m.isGateOn cs) depth := by
  have hgate := gateOpen_none { m with active := true } cs
  rw [Runs, activate_active, activate_intervals cs hrule hsum]
  exact hgate ▸ Opened.regate time h _

theorem proceed (cs : Conditions) (h : m.Runs g depth) (hrule : m.plan.rule = .timed t)
    (hsum : t.aggregation = .sum) (slot : Slot) : (m.proceed cs slot).Runs g depth := by
  have hclosed : Runs { m with grid := m.grid.close } g depth := h
  rcases proceed_cases m cs slot with hnext | hnext | hnext <;> rw [hnext]
  · exact h
  · exact hclosed.deactivate hrule hsum g slot.stop
  · exact hclosed

theorem roll (cs : Conditions) (h : m.Runs g depth) (hrule : m.plan.rule = .timed t)
    (hsum : t.aggregation = .sum) (slot : Slot) : (m.roll cs slot).state.Runs g depth := by
  have hcut : (m.accrue slot.stop).clearBucket.Runs g depth := by
    rw [accrue, onIntervals_timed hrule, hsum]
    exact (Opened.accrueTo h).congr rfl
  have hbody : (m.roll cs slot).state.body.Runs g depth := by
    rw [body_roll]
    refine hcut.proceed cs (t := t) ?_ hsum slot
    simpa [clearBucket, accrue] using hrule
  exact hbody

theorem meet (cs : Conditions) (h : m.Runs g depth) (hrule : m.plan.rule = .timed t) (hsum : t.aggregation = .sum)
    (hp : Placed τ m) (hlast : τ < last) :
    (m.meet cs τ).Runs g depth ∨ (m.meet cs τ).Runs (m.isGateOn cs) depth := by
  have hrolled : (m.rollTo cs τ).state.Runs g depth ∧ (m.rollTo cs τ).state.plan = m.plan := by
    rcases rollTo_cases cs hp (.inl hlast) with ⟨-, hr⟩ | ⟨slot, -, -, hr⟩
    · rw [hr]
      exact ⟨h, rfl⟩
    · rw [hr]
      exact ⟨h.roll cs hrule hsum slot, roll_plan m cs slot⟩
  obtain ⟨hruns, hplan⟩ := hrolled
  have hrule' := hplan ▸ hrule
  rw [Metric.meet]
  rcases followWindows_cases (m.rollTo cs τ).state cs τ with hfollow | hfollow | hfollow <;> rw [hfollow]
  · right
    rw [← isGateOn_congr hplan]
    exact hruns.activate cs hrule' hsum τ
  · exact .inl (hruns.deactivate hrule' hsum g τ)
  · exact .inl hruns

theorem prepare (ev : Event) (hits : Hits) (h : m.Runs g depth) (hsum : t.aggregation = .sum)
    (hgate : (m.plan.gate.any fun x => u.isChanged x.condition) = false → g = m.isGateOn cs) :
    (m.prepareIntervals t cs ev hits u).Runs (m.isGateOn cs)
      fun k => if t.stopAll.any hits.get then 0 else depth k := by
  have hasked : Runs (if (m.plan.gate.any fun x => u.isChanged x.condition) then m.regate t cs ev.time else m)
      (m.isGateOn cs) depth := by
    split
    next =>
      have hasked := Opened.regate ev.time h (m.gateOpen cs)
      rw [gateOpen_none] at hasked
      rw [regate, hsum]
      exact hasked
    next hstill => exact hgate (by simpa using hstill) ▸ h
  unfold prepareIntervals
  dsimp only
  split
  · rw [hsum]
    exact Opened.stopAll
  · exact hasked

theorem turn (ev : Event) (hits : Hits) (h : m.Runs (m.isGateOn cs) depth) (hsum : t.aggregation = .sum)
    (hlinks : m.Unlinked) :
    (m.turnInterval t cs ev hits).1.Runs (m.isGateOn cs) fun k =>
      t.turn hits (m.plan.isAt ev k) (m.turnInterval t cs ev hits).2.isAccepted (depth k) := by
  have hlink : m.intervalLink ev = .ok none := by
    rw [intervalLink]
    cases hg : m.plan.gate with
    | none => rfl
    | some g => simp [Gate.isLinked, hlinks g hg]
  unfold turnInterval Timing.turn MetricPlan.isAt
  cases hstart : hits.get t.start <;> cases hstop : hits.get t.stop
  · exact h
  · cases hkey : DimensionKey.extract? ev m.plan.dimensions with
    | none => simpa using h
    | some key =>
        have hturned := Opened.stop ev.time h t.nested key
        simpa [Runs, hsum, Keyed.text] using hturned
  · cases hkey : DimensionKey.extract? ev m.plan.dimensions with
    | none => simpa using h
    | some key =>
        cases hs : m.startInterval t cs ev key with
        | error r => simpa [hs, Outcome.isAccepted] using h
        | ok n =>
            obtain ⟨link, is, hl, his, rfl⟩ := (startInterval_eq_ok cs ev).1 hs
            rw [hlink] at hl
            cases hl
            rw [gateOpen_none] at his
            have hturned := Opened.start h his
            simpa [Runs, hs, Outcome.isAccepted, Keyed.text] using hturned
  · exact h

theorem measure (h : m.Runs g depth) (hrule : m.plan.rule = .timed t) (hsum : t.aggregation = .sum)
    (hlinks : m.Unlinked)
    (hgate : (m.plan.gate.any fun x => u.isChanged x.condition) = false → g = m.isGateOn cs) :
    (m.measure cs ev hits u).1.state.Runs (m.isGateOn cs) fun k =>
      t.follow hits (m.plan.isAt ev k) (m.measure cs ev hits u).2.isAccepted (depth k) := by
  have hstill := prepareIntervals_still m cs ev hits u t
  have hplan : (m.prepareIntervals t cs ev hits u).plan = m.plan := (congrArg Metric.plan hstill :)
  have hprepared := h.prepare ev hits hsum hgate
  rw [← isGateOn_congr hplan] at hprepared
  have hturned := hprepared.turn ev hits hsum fun g hg => hlinks g (hplan ▸ hg)
  rw [isGateOn_congr hplan, hplan] at hturned
  rw [measure_timed cs ev hits u hrule]
  exact hturned

end Runs

/-- A metric that has summed time since `s`, in which some events came. -/
structure Summing (m₀ : Metric) (t : Timing) (ms : Matchers) (cs₀ : Conditions) (s : Int) (H : History)
    (cs : Conditions) (τ : Int) (m : Metric) (rs : List Record) : Prop where
  plan : m.plan = m₀.plan
  windows : m.windows = m₀.windows.after ms H
  conditions : cs = cs₀.after ms H
  wellFormed : cs.WellFormed
  past : ∀ x ∈ H, x.1.time ≤ τ
  reckoned : Reckoned t (m₀.isUp t ms cs₀ H) s τ m rs
  runs : m.Runs (m₀.isGateOn cs) (m₀.plan.depth t ms H)

theorem OnTime.isActive_eq (h : OnTime τ m) {τ' i : Int} (h' : OnTime τ' m) (hi : τ ≤ i) (hi' : i < τ') :
    m.windows.isActive i = m.active := by
  cases ha : m.active with
  | true =>
      rcases h'.active ha with hnil | ⟨x, hx, hle⟩
      · simp [hnil, Activations.isActive]
      · by_cases hne : m.windows = []
        · simp [hne, Activations.isActive]
        · have hfirst := h.inRange.1
          exact (Activations.isActive_iff_lt hne hx (by omega)).2 (by omega)
  | false =>
      rw [← Bool.not_eq_true]
      intro hactive
      have hidle := h.idle ha
      rw [Activations.isActive_anti hi hactive] at hidle
      cases hidle

namespace Summing

variable {m₀ : Metric} {ms : Matchers} {cs₀ : Conditions} {s : Int} {H : History} {rs : List Record}

theorem wait (h : Summing m₀ t ms cs₀ s H cs τ m rs) (ht : OnTime τ m) {τ' : Int} (hle : τ ≤ τ')
    (ht' : OnTime τ' m) : Summing m₀ t ms cs₀ s H cs τ' m rs := by
  refine { h with past := fun x hx => Int.le_trans (h.past x hx) hle, reckoned := ?_ }
  refine h.reckoned.wait hle ht' h.runs (fun k i hi hi' => ?_) (fun hs => ?_)
  · rw [isUp_of_le h.past hi, ← h.windows, ← h.conditions, ht.isActive_eq ht' hi hi', Bool.and_assoc]
  · have hb : m.plan.isBucketed = true := by simp [MetricPlan.isBucketed, h.reckoned.rule]
    rw [Bool.and_eq_false_iff]
    left
    rw [← Bool.not_eq_true]
    intro ha
    exact ht.covered ha hb hs

theorem roll (h : Summing m₀ t ms cs₀ s H cs slot.stop m rs) (hsum : t.aggregation = .sum)
    (hs : m.grid.current = some slot) :
    Summing m₀ t ms cs₀ s H cs slot.stop (m.roll cs slot).state (rs ++ (m.roll cs slot).records) where
  plan := (roll_plan m cs slot).trans h.plan
  windows := (roll_windows m cs slot).trans h.windows
  conditions := h.conditions
  wellFormed := h.wellFormed
  past := h.past
  reckoned := h.reckoned.roll cs hsum hs
  runs := h.runs.roll cs h.reckoned.rule hsum slot

theorem deactivate (h : Summing m₀ t ms cs₀ s H cs τ m rs) (hsum : t.aggregation = .sum) :
    Summing m₀ t ms cs₀ s H cs τ (m.deactivate τ) rs where
  plan := (deactivate_plan m τ).trans h.plan
  windows := (deactivate_windows m τ).trans h.windows
  conditions := h.conditions
  wellFormed := h.wellFormed
  past := h.past
  reckoned := h.reckoned.deactivate hsum
  runs := h.runs.deactivate h.reckoned.rule hsum _ τ

theorem flushPending (h : Summing m₀ t ms cs₀ s H cs τ m rs) :
    Summing m₀ t ms cs₀ s H cs τ m.flushPending.state (rs ++ m.flushPending.records) := by
  have hbody := body_flushPending m
  have hplan : m.flushPending.state.plan = m.plan := (congrArg Metric.plan hbody :)
  have hfloor : m.flushPending.state.floor τ = m.floor τ := (congrArg (fun m => Metric.floor m τ) hbody :)
  refine { h with
    plan := hplan.trans h.plan, windows := (congrArg Metric.windows hbody :).trans h.windows
    reckoned := ⟨hplan ▸ h.reckoned.rule, hfloor ▸ h.reckoned.since, ?_, ?_, ?_⟩, runs := ?_ }
  · rw [hfloor]
    exact (congrArg Metric.intervals hbody :) ▸ h.reckoned.intervals
  · rw [hfloor, buckets_append, buckets_flushPending, List.append_nil]
    exact h.reckoned.booked
  · rw [hfloor, List.append_assoc, flushPending_owed]
    exact h.reckoned.silent
  · exact (congrArg (fun m => Runs m _ _) hbody :) ▸ h.runs

theorem isGateOn_of_not_changed (hcs : cs.WellFormed) (m : Metric)
    (h : (m.plan.gate.any fun x => (cs.onEvent ev hits).2.isChanged x.condition) = false) :
    m.isGateOn cs = m.isGateOn (cs.onEvent ev hits).1 := by
  rw [isGateOn, isGateOn]
  cases hg : m.plan.gate with
  | none => rfl
  | some x =>
      rw [hg, Option.any_some] at h
      rw [Option.all_some, Option.all_some, Conditions.query_of_not_changed hcs h]

theorem of_note (h : Summing m₀ t ms cs₀ s H cs τ m rs) (o : Outcome) :
    Summing m₀ t ms cs₀ s H cs τ (m.note o) rs := by
  have hreckoned : Reckoned t (m₀.isUp t ms cs₀ H) s τ (m.note o) rs := by
    refine h.reckoned.steady ?_ ?_ ?_ ?_ <;> cases o <;> first | rfl | exact .refl _ _
  cases o with
  | ignored => exact { h with reckoned := hreckoned }
  | accepted => exact { h with reckoned := hreckoned }
  | dropped r => exact { h with reckoned := hreckoned }

theorem runs_measure (h : Summing m₀ t ms cs₀ s H cs ev.time m rs) (ht : OnTime ev.time m)
    (hsum : t.aggregation = .sum) (hlinks : m₀.Unlinked) (hlast : ev.time < last) :
    let cs' := (cs.onEvent ev (ms.judge ev)).1
    let q := ((m.watch ev.time (ms.judge ev)).meet cs' ev.time).measure cs' ev (ms.judge ev)
      (cs.onEvent ev (ms.judge ev)).2
    q.1.state.Runs (m₀.isGateOn cs') fun k =>
      t.follow (ms.judge ev) (m₀.plan.isAt ev k) q.2.isAccepted (m₀.plan.depth t ms H k) := by
  intro cs' q
  have hplaced := ht.toPlaced.watch ev.time (ms.judge ev)
  have hplan := (meet_plan cs' (m.watch ev.time (ms.judge ev)) ev.time).trans h.plan
  have hrule := (congrArg MetricPlan.rule (hplan.trans h.plan.symm)).trans h.reckoned.rule
  have hwatch : (m.watch ev.time (ms.judge ev)).Runs (m₀.isGateOn cs) (m₀.plan.depth t ms H) := h.runs
  have hunlinked : ((m.watch ev.time (ms.judge ev)).meet cs' ev.time).Unlinked := fun g hg =>
    hlinks g (hplan ▸ hg)
  have hruns : q.1.state.Runs (((m.watch ev.time (ms.judge ev)).meet cs' ev.time).isGateOn cs') fun k =>
      t.follow (ms.judge ev) (((m.watch ev.time (ms.judge ev)).meet cs' ev.time).plan.isAt ev k) q.2.isAccepted
        (m₀.plan.depth t ms H k) := by
    rcases hwatch.meet cs' h.reckoned.rule hsum hplaced hlast with hmet | hmet
    · refine hmet.measure hrule hsum hunlinked fun hchanged => ?_
      rw [isGateOn_congr hplan]
      rw [hplan] at hchanged
      exact isGateOn_of_not_changed h.wellFormed m₀ hchanged
    · refine hmet.measure hrule hsum hunlinked fun _ => ?_
      exact isGateOn_congr (hplan.trans h.plan.symm).symm cs'
  rwa [isGateOn_congr hplan, hplan] at hruns

theorem measure (h : Summing m₀ t ms cs₀ s H cs ev.time m rs) (ht : OnTime ev.time m)
    (hsum : t.aggregation = .sum) (hlinks : m₀.Unlinked) (hlast : ev.time < last) :
    let cs' := (cs.onEvent ev (ms.judge ev)).1
    let rolled := (m.watch ev.time (ms.judge ev)).rollTo cs' ev.time
    let q := ((m.watch ev.time (ms.judge ev)).meet cs' ev.time).measure cs' ev (ms.judge ev)
      (cs.onEvent ev (ms.judge ev)).2
    Summing m₀ t ms cs₀ s (H ++ [(ev, q.2.isAccepted)]) cs' ev.time q.1.state
      (rs ++ (rolled.records ++ q.1.records)) := by
  intro cs' rolled q
  have hplaced := ht.toPlaced.watch ev.time (ms.judge ev)
  have hplan := (meet_plan cs' (m.watch ev.time (ms.judge ev)) ev.time).trans h.plan
  have hwindows := meet_windows cs' (m.watch ev.time (ms.judge ev)) ev.time
  have hstill := measure_still ((m.watch ev.time (ms.judge ev)).meet cs' ev.time) cs' ev (ms.judge ev)
    (cs.onEvent ev (ms.judge ev)).2
  have hrule := (congrArg MetricPlan.rule (hplan.trans h.plan.symm)).trans h.reckoned.rule
  have hrecords : q.1.records = [] := by
    have hq : q = _ := measure_timed cs' ev (ms.judge ev) (cs.onEvent ev (ms.judge ev)).2 hrule
    rw [hq]
  have hwatch : Reckoned t (m₀.isUp t ms cs₀ H) s ev.time (m.watch ev.time (ms.judge ev)) rs :=
    h.reckoned.steady rfl rfl rfl (.refl _ _)
  have hreckoned := (hwatch.meet cs' hsum hplaced hlast).measure cs' ev (ms.judge ev)
    (cs.onEvent ev (ms.judge ev)).2 hsum
  refine ⟨(congrArg Metric.plan hstill :).trans hplan, ?_, ?_, h.wellFormed.onEvent ev (ms.judge ev), ?_, ?_, ?_⟩
  · rw [Activations.after_append, ← h.windows]
    exact (congrArg Metric.windows hstill :).trans hwindows
  · rw [Conditions.after_append, ← h.conditions]
  · intro x hx
    rcases List.mem_append.1 hx with hx | hx
    · exact h.past x hx
    · exact List.mem_singleton.1 hx ▸ Int.le_refl _
  · rw [hrecords, List.append_nil]
    exact hreckoned.congr fun k i hi => isUp_append hi
  · have hdepth : m₀.plan.depth t ms (H ++ [(ev, q.2.isAccepted)]) = fun k =>
        t.follow (ms.judge ev) (m₀.plan.isAt ev k) q.2.isAccepted (m₀.plan.depth t ms H k) := by
      funext k
      exact MetricPlan.depth_append ..
    rw [hdepth]
    exact h.runs_measure ht hsum hlinks hlast

theorem see (h : Summing m₀ t ms cs₀ s H cs ev.time m rs) (ht : OnTime ev.time m) (hsum : t.aggregation = .sum)
    (hlinks : m₀.Unlinked) (hlast : ev.time < last) :
    Summing m₀ t ms cs₀ s (H ++ [(ev, (m.see cs ev (ms.judge ev)).2.isAccepted)])
      (cs.onEvent ev (ms.judge ev)).1 ev.time (m.see cs ev (ms.judge ev)).1.state
      (rs ++ (m.see cs ev (ms.judge ev)).1.records) :=
  (h.measure ht hsum hlinks hlast).of_note _

theorem activate (h : Summing m₀ t ms cs₀ s H cs τ m rs) (hsum : t.aggregation = .sum) :
    Summing m₀ t ms cs₀ s H cs τ (m.activate cs τ) rs where
  plan := (activate_plan m cs τ).trans h.plan
  windows := (activate_windows m cs τ).trans h.windows
  conditions := h.conditions
  wellFormed := h.wellFormed
  past := h.past
  reckoned := h.reckoned.activate cs hsum
  runs := isGateOn_congr h.plan cs ▸ h.runs.activate cs h.reckoned.rule hsum τ

theorem start (hm : Fresh m₀) (hrule : m₀.plan.rule = .timed t) (hsum : t.aggregation = .sum)
    (hcs : cs₀.WellFormed) : Summing m₀ t ms cs₀ s [] cs₀ s (m₀.start cs₀ s) [] := by
  have hfloor := floor_of_none hm.current s
  have hfresh : Summing m₀ t ms cs₀ s [] cs₀ s m₀ [] := by
    refine ⟨rfl, rfl, rfl, hcs, by simp, ⟨hrule, ?_, ?_, ?_, ?_⟩, ?_⟩
    · exact Int.le_of_eq hfloor.symm
    · rw [hfloor, Instant.counts_self, hm.intervals]
      exact Intervals.reckons_empty s
    · rw [hfloor]
      exact .nil _ s
    · rw [List.nil_append, owed, hm.pending]
      exact fun _ hg => by cases hg
    · rw [Runs, hm.intervals]
      exact Intervals.opened_empty _
  rcases start_cases m₀ cs₀ s with hstart | hstart <;> rw [hstart]
  · exact hfresh.activate hsum
  · exact hfresh

theorem shutdown (h : Summing m₀ t ms cs₀ s H cs τ m rs) (ht : OnTime τ m) (hsum : t.aggregation = .sum)
    {stop : Int} (hle : τ ≤ stop) (hlast : stop ≤ last) :
    Booked (m₀.isUp t ms cs₀ H) s stop (buckets (rs ++ (m.shutdown cs stop).records)) ∧
      Silent (m₀.isUp t ms cs₀ H) stop (gaps (rs ++ (m.shutdown cs stop).records)) := by
  obtain ⟨hon, hsumming⟩ := advance_course cs (P := Summing m₀ t ms cs₀ s H cs)
    (fun _ _ _ _ ht h hle ht' => h.wait ht hle ht') (fun _ _ _ _ h hs _ => h.roll hsum hs)
    (fun _ _ _ _ h _ => h.deactivate hsum) ht h hle hlast
  simp only [Metric.shutdown, Emitting.andThen_records, Emitting.andThen_state, flushPending_records,
    ← List.append_assoc]
  generalize (m.advance cs stop false).state = n at hon hsumming ⊢
  generalize rs ++ (m.advance cs stop false).records = xs at hsumming ⊢
  cases hs : n.grid.current with
  | none =>
      have hfloor := floor_of_none hs stop
      have hclose : n.closeAt stop = ⟨n, []⟩ := by simp only [closeAt, hs]
      have hbooked := hsumming.reckoned.booked
      have hsilent := hsumming.reckoned.silent
      rw [hfloor] at hbooked hsilent
      rw [hclose, List.append_nil, buckets_append, buckets_owed, List.append_nil]
      exact ⟨hbooked, hsilent⟩
  | some slot =>
      have hstart := (hon.slot slot hs).2.1
      have hsettle : n.settle stop = n.accrue stop := by
        rw [Metric.settle, accrue, onIntervals_timed hsumming.reckoned.rule,
          onIntervals_timed hsumming.reckoned.rule, hsum]
        rfl
      obtain ⟨hbooked, hsilent⟩ := hsumming.reckoned.flush hsum hs (decide (slot.start < stop))
      rw [closeAt_of_slot hs, Int.max_eq_left hstart, hsettle, Emitting.andThen_records, List.append_nil,
        Emitting.andThen_state]
      refine ⟨?_, ?_⟩
      · rw [buckets_append, buckets_owed, List.append_nil]
        exact hbooked
      · rw [List.append_assoc]
        exact hsilent

end Summing

/-- At every instant of its life a metric that sums time has it where it belongs. -/
theorem Life.summing {m₀ : Metric} {ms : Matchers} {cs₀ : Conditions} {s : Int} {H : History} {rs : List Record}
    (hm : Fresh m₀) (hrule : m₀.plan.rule = .timed t) (hsum : t.aggregation = .sum) (hlinks : m₀.Unlinked)
    (hcs : cs₀.WellFormed) (hs : Instant.InRange s) (h : Life ms cs₀ m₀ s H cs τ m rs) :
    OnTime τ m ∧ Summing m₀ t ms cs₀ s H cs τ m rs := by
  apply induction (P := Summing m₀ t ms cs₀ s) _ _ _ _ _ _ hm hs h
  · exact fun _ => .start hm hrule hsum hcs
  · exact fun _ _ _ _ _ _ ht h hle ht' => h.wait ht hle ht'
  · exact fun _ _ _ _ _ _ h hs _ => h.roll hsum hs
  · exact fun _ _ _ _ _ _ h _ => h.deactivate hsum
  · exact fun _ _ _ _ _ ht h hlast => h.see ht hsum hlinks hlast
  · exact fun _ _ _ _ _ h => h.flushPending

end EventMetrics.Metric
