import EventMetrics.Proofs.Metric.Timed

namespace EventMetrics

open Definition (DurationAggregation)

namespace Intervals

def AtRest (is : Intervals) : Prop := ∀ k iv, is.opened.get? k = some iv → iv.since = none

variable {is is' : Intervals} {time : Int}

theorem AtRest.since_of_mem (h : is.AtRest) {e : DimensionKey × Interval} (he : e ∈ is.opened.entries) :
    e.2.since = none := h e.1 e.2 (Table.get?_of_mem he)

theorem cut_of_rest {iv : Interval} (h : iv.since = none) (agg : DurationAggregation) (next : Option Int) :
    (cut agg time next iv).2 = 0 := by
  cases agg <;> simp [cut, h]

theorem atRest_regate (is : Intervals) (agg : DurationAggregation) (time : Int)
    {gate : Option DimensionKey → Bool} (hgate : ∀ l, gate l = false) : (is.regate agg time gate).AtRest := by
  intro k iv' hk
  obtain ⟨iv, -, rfl⟩ := Option.map_eq_some_iff.1 ((opened_sweep is _ k).symm.trans hk)
  have hopen := regateOne_since agg time iv (gate iv.link)
  rw [hgate] at hopen ⊢
  rwa [Option.isSome_eq_false_iff, Option.isNone_iff_eq_none] at hopen

theorem atRest_stopAll (is : Intervals) (agg : DurationAggregation) (time : Int) : (is.stopAll agg time).AtRest :=
  fun _ _ hk => by cases hk

namespace AtRest

theorem regate_totals (h : is.AtRest) (agg : DurationAggregation) (time : Int)
    {gate : Option DimensionKey → Bool} (hgate : ∀ l, gate l = false) :
    (is.regate agg time gate).totals = is.totals := by
  refine totals_sweep fun e he => ?_
  simp [regateOne, hgate, h.since_of_mem he]

theorem accrueTo (h : is.AtRest) (agg : DurationAggregation) (time : Int) : (is.accrueTo agg time).AtRest := by
  intro k iv' hk
  obtain ⟨iv, hiv, rfl⟩ := Option.map_eq_some_iff.1 ((opened_sweep is _ k).symm.trans hk)
  simp [h k iv hiv]

theorem endOne_totals (ts : Totals) (k : DimensionKey) {iv : Interval} (hs : iv.since = none) (time : Int) :
    endOne .sum time ts k iv = ts :=
  addSegment_of_nonpos ts k (Int.le_of_eq (cut_of_rest hs .sum none))

theorem stopAll_totals (h : is.AtRest) (time : Int) : (is.stopAll .sum time).totals = is.totals :=
  foldl_eq_self fun e he => endOne_totals is.totals e.1 (h.since_of_mem he) time

theorem stop (h : is.AtRest) (agg : DurationAggregation) (nested : Bool) (time : Int) (j : DimensionKey) :
    (is.stop agg nested time j).AtRest ∧ (agg = .sum → (is.stop agg nested time j).totals = is.totals) := by
  rcases stop_cases is agg nested time j with ⟨-, hstop⟩ | ⟨iv, hj, ⟨-, hstop⟩ | ⟨-, hstop⟩⟩ <;> rw [hstop]
  · exact ⟨h, fun _ => rfl⟩
  · refine ⟨fun k iv' hk => ?_, fun _ => rfl⟩
    dsimp only at hk
    rw [Table.get?_insert] at hk
    split at hk
    · cases hk
      exact h j iv hj
    · exact h k iv' hk
  · refine ⟨fun k iv' hk => ?_, ?_⟩
    · dsimp only at hk
      rw [Table.get?_erase] at hk
      split at hk
      · cases hk
      · exact h k iv' hk
    · rintro rfl
      exact endOne_totals is.totals j (h j iv hj) time

theorem start {nested : Bool} {limit : Nat} {time : Int} {j : DimensionKey} {link : Option DimensionKey}
    (h : is.AtRest) (hstart : is.start nested limit time false j link = .ok is') :
    is'.AtRest ∧ is'.totals = is.totals := by
  have hinsert : ∀ iv : Interval, iv.since = none →
      ({ is with opened := is.opened.insert j iv } : Intervals).AtRest := by
    intro iv hiv k iv' hk
    dsimp only at hk
    rw [Table.get?_insert] at hk
    split at hk
    · cases hk
      exact hiv
    · exact h k iv' hk
  rcases start_cases hstart with ⟨iv, hj, rfl⟩ | ⟨-, rfl⟩
  · exact ⟨hinsert _ (by simpa using h j iv hj), rfl⟩
  · exact ⟨hinsert _ rfl, rfl⟩

end AtRest

theorem since_accrueTo {agg : DurationAggregation} {e : DimensionKey × Interval}
    (he : e ∈ (is.accrueTo agg time).opened.entries) : e.2.since = none ∨ e.2.since = some time := by
  have hk := Table.get?_of_mem he
  rw [Intervals.accrueTo, opened_sweep, Option.map_eq_some_iff] at hk
  obtain ⟨iv, -, hiv⟩ := hk
  rw [← hiv]
  split
  next => exact .inr (cut_since _ _ _ _)
  next hs => exact .inl hs

/-- What was cut for a closed bucket leaves nothing to the next one. -/
theorem totals_regate_accrueTo (is : Intervals) (time : Int) (gate : Option DimensionKey → Bool) :
    ({ is.accrueTo .sum time with totals := .empty }.regate .sum time gate).totals = .empty := by
  refine totals_sweep fun e he => ?_
  unfold regateOne
  rcases since_accrueTo he with hs | hs <;> cases gate e.2.link <;> simp [cut, hs]

end Intervals

namespace Metric

open Instant (last)

/-- No interval runs while the metric is not active, and nothing is gathered for a bucket that is not
open. -/
structure Tidy (m : Metric) : Prop where
  rest : ∀ t, m.plan.rule = .timed t → m.active = false → m.intervals.AtRest
  samples : m.grid.current = none → m.samples = .empty
  totals : ∀ t, m.plan.rule = .timed t → t.aggregation = .sum → m.grid.current = none →
    m.intervals.totals = .empty

variable {m n : Metric} {cs : Conditions} {τ : Int} {slot : Slot}

theorem Placed.inactive (h : Placed τ m) (hb : m.plan.isBucketed = true) (hs : m.grid.current = none) :
    m.active = false := by
  rw [← Bool.not_eq_true]
  exact fun ha => h.covered ha hb hs

namespace Tidy

theorem congr (h : Tidy m) (hplan : n.plan = m.plan) (hgrid : n.grid = m.grid) (hactive : n.active = m.active)
    (hsamples : n.samples = m.samples) (hintervals : n.intervals = m.intervals) : Tidy n :=
  ⟨hplan ▸ hactive ▸ hintervals ▸ h.rest, hgrid ▸ hsamples ▸ h.samples,
    hplan ▸ hgrid ▸ hintervals ▸ h.totals⟩

theorem of_body (h : Tidy m) (hbody : n.body = m.body) : Tidy n :=
  h.congr (congrArg Metric.plan hbody :) (congrArg Metric.grid hbody :) (congrArg Metric.active hbody :)
    (congrArg Metric.samples hbody :) (congrArg Metric.intervals hbody :)

theorem of_fresh (h : Fresh m) : Tidy m := by
  refine ⟨fun _ _ _ k iv hk => ?_, fun _ => h.samples, fun _ _ _ _ => by rw [h.intervals]⟩
  rw [h.intervals] at hk
  cases hk

theorem deactivate (h : Tidy m) (hidle : m.plan.isBucketed = true → m.grid.current = none → m.active = false)
    (time : Int) : Tidy (m.deactivate time) := by
  refine ⟨fun t hrule _ => ?_, fun hs => ?_, fun t hrule hsum hs => ?_⟩
  · rw [deactivate_plan] at hrule
    rw [deactivate_timed hrule]
    exact Intervals.atRest_regate _ _ _ fun _ => rfl
  · rw [deactivate_grid] at hs
    rw [deactivate_samples, h.samples hs]
  · rw [deactivate_plan] at hrule
    rw [deactivate_grid] at hs
    have hrest := h.rest t hrule (hidle (isBucketed_of_timed hrule) hs)
    rw [deactivate_timed hrule, hrest.regate_totals _ _ fun _ => rfl, h.totals t hrule hsum hs]

theorem activate (h : Tidy m) (cs : Conditions) (time : Int) : Tidy (m.activate cs time) := by
  have hopen : m.plan.isBucketed = true → (m.activate cs time).grid.current ≠ none := by
    intro hb hs
    rw [activate_grid, hb, Bool.true_and] at hs
    split at hs
    · cases hs
    next hsome => simp [hs] at hsome
  refine ⟨fun t _ ha => by simp at ha, fun hs => ?_, fun t hrule _ hs => ?_⟩
  · rw [activate_samples]
    apply h.samples
    rw [activate_grid] at hs
    split at hs
    · cases hs
    · exact hs
  · rw [activate_plan] at hrule
    exact absurd hs (hopen (isBucketed_of_timed hrule))

theorem start (h : Tidy m) (cs : Conditions) (time : Int) : Tidy (m.start cs time) := by
  rcases start_cases m cs time with hstart | hstart <;> rw [hstart]
  · exact h.activate cs time
  · exact h

theorem followWindows (h : Tidy m) (hp : Placed τ m) (cs : Conditions) (time : Int) :
    Tidy (m.followWindows cs time) := by
  rcases followWindows_cases m cs time with hfollow | hfollow | hfollow <;> rw [hfollow]
  · exact h.activate cs time
  · exact h.deactivate hp.inactive time
  · exact h

theorem flushPending (h : Tidy m) : Tidy m.flushPending.state := h.of_body (body_flushPending m)

theorem roll (h : Tidy m) (cs : Conditions) (slot : Slot) : Tidy (m.roll cs slot).state := by
  refine ⟨fun t hrule ha => ?_, fun _ => roll_samples m cs slot, fun t hrule hsum _ => ?_⟩ <;>
    rw [roll_plan] at hrule <;> rw [roll_timed hrule]
  · rw [roll_active] at ha
    cases hm : m.active with
    | false => exact (h.rest t hrule hm).accrueTo _ _
    | true =>
        rw [hm, Bool.true_and] at ha
        rw [ha]
        exact Intervals.atRest_regate _ _ _ fun _ => rfl
  · rw [hsum]
    split
    · exact Intervals.totals_regate_accrueTo _ _ _
    · rfl

theorem rollTo (h : Tidy m) (cs : Conditions) (time : Int) : Tidy (m.rollTo cs time).state :=
  rollTo_induction (P := fun n _ => Tidy n) (fun _ _ slot h _ _ => h.roll cs slot) m [] h

theorem note (h : Tidy m) (o : Outcome) : Tidy (m.note o) := by
  cases o <;> exact h.congr rfl rfl rfl rfl rfl

section Rest

variable {t : Timing} (ha : m.active = false) (hrest : m.intervals.AtRest) (cs : Conditions) (ev : Event) (hits : Hits)
  (u : Condition.Update)
include ha hrest

theorem rest_prepare : (m.prepareIntervals t cs ev hits u).intervals.AtRest ∧
    (t.aggregation = .sum → (m.prepareIntervals t cs ev hits u).intervals.totals = m.intervals.totals) := by
  have hgate : ∀ l, m.gateOpen cs l = false := fun l => by rw [gateOpen, ha, Bool.false_and]
  have hasked : ∀ n : Metric, n = m.regate t cs ev.time ∨ n = m →
      n.intervals.AtRest ∧ n.intervals.totals = m.intervals.totals := by
    rintro n (rfl | rfl)
    · exact ⟨Intervals.atRest_regate _ _ _ hgate, hrest.regate_totals _ _ hgate⟩
    · exact ⟨hrest, rfl⟩
  obtain ⟨hr, ht⟩ := hasked
    (if (m.plan.gate.any fun x => u.isChanged x.condition) then m.regate t cs ev.time else m) (by grind)
  unfold prepareIntervals
  dsimp only
  split
  · refine ⟨Intervals.atRest_stopAll _ _ _, fun hsum => ?_⟩
    rw [hsum]
    exact (hr.stopAll_totals ev.time).trans ht
  · exact ⟨hr, fun _ => ht⟩

theorem rest_turn : (m.turnInterval t cs ev hits).1.intervals.AtRest ∧
    (t.aggregation = .sum → (m.turnInterval t cs ev hits).1.intervals.totals = m.intervals.totals) := by
  rcases turnInterval_cases m cs ev hits t with ⟨o, -, h⟩ | ⟨key, n, -, -, -, hn, h⟩ | ⟨key, h⟩ <;> rw [h]
  · exact ⟨hrest, fun _ => rfl⟩
  · obtain ⟨link, is, -, his, rfl⟩ := (startInterval_eq_ok cs ev).1 hn
    rw [gateOpen, ha, Bool.false_and] at his
    obtain ⟨hr, ht⟩ := hrest.start his
    exact ⟨hr, fun _ => ht⟩
  · exact hrest.stop t.aggregation t.nested ev.time key

theorem rest_measure (hrule : m.plan.rule = .timed t) :
    (m.measure cs ev hits u).1.state.intervals.AtRest ∧
      (t.aggregation = .sum → (m.measure cs ev hits u).1.state.intervals.totals = m.intervals.totals) := by
  obtain ⟨hr, ht⟩ := rest_prepare (t := t) ha hrest cs ev hits u
  have hactive : (m.prepareIntervals t cs ev hits u).active = false :=
    (congrArg Metric.active (prepareIntervals_still m cs ev hits u t) :).trans ha
  obtain ⟨hr', ht'⟩ := rest_turn (t := t) hactive hr cs ev hits
  rw [measure_timed cs ev hits u hrule]
  exact ⟨hr', fun hsum => (ht' hsum).trans (ht hsum)⟩

end Rest

theorem measure (h : Tidy m) (hp : Placed τ m) (cs : Conditions) (ev : Event) (hits : Hits)
    (u : Condition.Update) : Tidy (m.measure cs ev hits u).1.state := by
  have hstill := measure_still m cs ev hits u
  have hplan : (m.measure cs ev hits u).1.state.plan = m.plan := (congrArg Metric.plan hstill :)
  have hgrid : (m.measure cs ev hits u).1.state.grid = m.grid := (congrArg Metric.grid hstill :)
  have hactive : (m.measure cs ev hits u).1.state.active = m.active := (congrArg Metric.active hstill :)
  refine ⟨fun t hrule ha => ?_, fun hs => ?_, fun t hrule hsum hs => ?_⟩
  · rw [hplan] at hrule
    rw [hactive] at ha
    exact (rest_measure ha (h.rest t hrule ha) cs ev hits u hrule).1
  · rw [hgrid] at hs
    cases hrule : m.plan.rule with
    | sampled what reading =>
        rcases measure_sampled cs ev hits u hrule with ⟨n, outcome, hm, -⟩ | ⟨key, q, ss, hj, -, -, hm⟩
        · rw [hm]
          exact h.samples hs
        · have ha := hp.inactive (by rw [MetricPlan.isBucketed, hrule]) hs
          simp [judge, ha] at hj
    | passed what =>
        rcases measure_passed cs ev hits u hrule with ⟨n, outcome, hm, -⟩ | ⟨key, -, hm⟩
        · rw [hm]
          exact h.samples hs
        · rw [hm]
          exact h.samples hs
    | timed t =>
        rw [measure_timed cs ev hits u hrule, turnInterval_samples, prepareIntervals_samples, h.samples hs]
  · rw [hplan] at hrule
    rw [hgrid] at hs
    have ha := hp.inactive (isBucketed_of_timed hrule) hs
    rw [(rest_measure ha (h.rest t hrule ha) cs ev hits u hrule).2 hsum, h.totals t hrule hsum hs]

end Tidy

/-- Between two calls: on time, in order and without a report that is still owed. -/
structure Settled (τ : Int) (m : Metric) : Prop extends OnTime τ m, Tidy m where
  pending : m.pending = none

theorem Placed.rollTo (h : Placed τ m) (cs : Conditions) : Placed τ (m.rollTo cs τ).state := by
  refine rollTo_induction (P := fun n _ => Placed τ n) (fun n _ slot h hs hle => ?_) m [] h
  obtain rfl : slot.stop = τ := Int.le_antisymm hle (h.slot slot hs).2.2.1
  exact h.roll cs hs

theorem Placed.followWindows (h : Placed τ m) (cs : Conditions) : OnTime τ (m.followWindows cs τ) := by
  refine .of_isActive ?_ (by rw [followWindows_active, followWindows_windows])
  rcases followWindows_cases m cs τ with hfollow | hfollow | hfollow <;> rw [hfollow]
  · exact h.activate cs
  · exact h.deactivate τ
  · exact h

theorem OnTime.advance_here (h : OnTime τ m) (cs : Conditions) (rs : List Record) {P : Metric → List Record → Prop}
    (hroll : ∀ n rs slot, OnTime τ n → P n rs → n.grid.current = some slot → slot.stop = τ →
      P (n.roll cs slot).state (rs ++ (n.roll cs slot).records))
    (hexpire : ∀ n rs, OnTime τ n → P n rs → P (n.deactivate τ) rs) (hP : P m rs) :
    OnTime τ (m.advance cs τ true).state ∧ P (m.advance cs τ true).state (rs ++ (m.advance cs τ true).records) := by
  refine advance_induction (P := fun n rs => OnTime τ n ∧ P n rs) ?_ ?_ m rs ⟨h, hP⟩
  · intro n _ slot ⟨hn, hP⟩ _ hs hdue
    obtain rfl : slot.stop = τ := Int.le_antisymm (due_true.1 hdue) (hn.slot slot hs).2.2.1
    exact ⟨.roll cs hn.toPlaced hs hn.idle, hroll n _ slot hn hP hs rfl⟩
  · intro n _ due ⟨hn, hP⟩ _ hx hdue
    obtain rfl : due = τ := Int.le_antisymm (due_true.1 hdue) (hn.le_expiry hx)
    exact ⟨hn.expire hx, hexpire n _ hn hP⟩

theorem OnTime.advance_self (h : OnTime τ m) (ht : Tidy m) (cs : Conditions) :
    OnTime τ (m.advance cs τ true).state ∧ Tidy (m.advance cs τ true).state :=
  h.advance_here cs [] (P := fun n _ => Tidy n) (fun _ _ slot _ h _ _ => h.roll cs slot)
    (fun _ _ hn h => h.deactivate hn.inactive τ) ht

theorem Placed.onEvent {ev : Event} (h : Placed ev.time m) (cs : Conditions) (hits : Hits) (u : Condition.Update) :
    OnTime ev.time ((m.watch ev.time hits).onEvent cs ev hits u).1.state := by
  rw [onEvent_eq]
  exact ((((h.watch ev.time hits).rollTo cs).followWindows cs).measure cs ev hits u).note _

namespace Settled

theorem start (hm : Fresh m) (hτ : Instant.InRange τ) (cs : Conditions) : Settled τ (m.start cs τ) :=
  ⟨Life.onTime_start hm hτ, (Tidy.of_fresh hm).start cs τ, (start_pending m cs τ).trans hm.pending⟩

theorem advance (h : Settled τ m) (cs : Conditions) {limit : Int} (hle : τ ≤ limit) (hlast : limit ≤ last) :
    OnTime limit (m.advance cs limit false).state ∧ Tidy (m.advance cs limit false).state :=
  @advance_course m cs τ (fun _ n _ => Tidy n) [] limit (fun _ _ _ _ _ h _ _ => h)
    (fun _ _ slot _ h _ _ => h.roll cs slot) (fun _ _ due ht h _ => h.deactivate ht.inactive due) h.toOnTime
    h.toTidy hle hlast

theorem advanceTo (h : Settled τ m) (cs : Conditions) {now : Int} (hle : τ ≤ now) (hlast : now ≤ last) :
    Settled now (m.advanceTo cs now).state := by
  obtain ⟨ht, htidy⟩ := h.advance cs hle hlast
  exact ⟨Life.onTime_flushPending ht, htidy.flushPending, flushPending_pending _⟩

theorem visit (h : Settled τ m) (cs : Conditions) (ev : Event) (hits : Hits) (hle : τ ≤ ev.time)
    (hlast : ev.time ≤ last) : Settled ev.time (m.visit cs ev hits).1.state := by
  obtain ⟨ht, htidy⟩ := h.advance cs hle hlast
  have hwatched : Tidy ((m.advance cs ev.time false).state.watch ev.time hits) := htidy.congr rfl rfl rfl rfl rfl
  have hplaced := (ht.toPlaced.watch ev.time hits).rollTo (cs.onEvent ev hits).1
  have hrolled := hwatched.rollTo (cs.onEvent ev hits).1 ev.time
  have hmet := hplaced.followWindows (cs.onEvent ev hits).1
  have hmeasured := hmet.measure (cs.onEvent ev hits).1 ev hits (cs.onEvent ev hits).2
  have htidied := (hrolled.followWindows hplaced (cs.onEvent ev hits).1 ev.time).measure hmet.toPlaced
    (cs.onEvent ev hits).1 ev hits (cs.onEvent ev hits).2
  obtain ⟨hdone, hlate⟩ := (hmeasured.note _).advance_self (htidied.note _) (cs.onEvent ev hits).1
  exact ⟨Life.onTime_flushPending hdone, hlate.flushPending, flushPending_pending _⟩

end Settled

/-- Before the last instant an event leaves nothing due. -/
theorem quiet_visit (h : OnTime τ (m.advance cs τ false).state) {ev : Event} (hev : ev.time = τ) (hits : Hits)
    (hlast : ev.time < last) : Quiet τ (m.visit cs ev hits).1.state := by
  subst hev
  rw [visit_eq h.toPlaced (.inl hlast)]
  have hquiet := (onTime_onEvent (cs.onEvent ev hits).1 ev hits (cs.onEvent ev hits).2
    (h.toPlaced.watch ev.time hits) (.inl hlast)).2
  have hbody := body_flushPending ((m.advance cs ev.time false).state.see cs ev hits).1.state
  intro d hd
  apply hquiet d
  rw [← hd]
  exact (congrArg Metric.nextDeadline hbody :).symm

/-- A metric for which nothing is due is active exactly when its windows say so. -/
theorem OnTime.active_eq (h : OnTime τ m) (hq : Quiet τ m) : m.active = m.windows.isActive τ := by
  cases ha : m.active with
  | false => exact (h.idle ha).symm
  | true =>
      rcases h.active ha with hnil | ⟨x, hx, -⟩
      · simp [hnil, Activations.isActive]
      · by_cases hnil : m.windows = []
        · simp [hnil, Activations.isActive]
        · refine ((Activations.isActive_iff_lt hnil hx h.inRange.1).2 ?_).symm
          have hexpiry : m.expiry = some x := by simp [expiry, ha, hnil, hx]
          cases hs : m.grid.current with
          | none => exact hq x (by rw [nextDeadline_eq, hs, hexpiry])
          | some slot =>
              have hlt := hq (min slot.stop x) (by rw [nextDeadline_eq, hs, hexpiry])
              omega

theorem Quiet.lt_stop (hq : Quiet τ m) {slot : Slot} (hs : m.grid.current = some slot) : τ < slot.stop := by
  cases hx : m.expiry with
  | none => exact hq _ (by rw [nextDeadline_eq, hs, hx])
  | some x =>
      have hlt := hq (min slot.stop x) (by rw [nextDeadline_eq, hs, hx])
      omega

end Metric

end EventMetrics
