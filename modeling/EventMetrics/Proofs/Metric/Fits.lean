import EventMetrics.Proofs.Metric.Checked
import EventMetrics.Proofs.Metric.Words

namespace EventMetrics

open Definition (DurationAggregation)
open Instant (InRange)

/-- Words hold what a cut reckons with; where no time has passed, nothing is added. -/
def Cut.Held (c : Cut) : Prop := InRange c.span ∧ (0 < c.span → InRange c.sum)

theorem Cut.Fits.not_held_iff {c : Cut} {s : Int} (h : c.Fits s) :
    ¬ c.Held ↔ c.agg = .maxSparse ∧ 0 < c.span ∧ ¬ InRange c.sum := by
  cases hagg : c.agg with
  | sum => simp [Held, h.span, h.sum (.inl hagg)]
  | maxSparse => simp [Held, h.span]

theorem Grid.openFits_iff {g : Grid} {anchor : Int} (hpos : 0 < g.size)
    (hnum : g.numberAt anchor < 18446744073709551616) (hafter : ∀ l ∈ g.last, l.stop ≤ anchor) :
    g.openFits anchor = true ↔ ∀ l ∈ g.last, InRange (anchor - l.stop) := by
  rw [openFits]
  cases hl : g.last with
  | none => simp
  | some l =>
      have hle := hafter l hl
      simp [hnum, Int.not_lt.2 hle, Int.ne_of_gt hpos]

namespace Intervals

variable {is is' : Intervals} {agg : DurationAggregation} {time : Int} {nested isOpen : Bool} {limit n : Nat}
  {j k : DimensionKey} {link : Option DimensionKey}

theorem cutFits_iff (e : DimensionKey × Interval) :
    cutFits is.totals agg time e.1 e.2 = true ↔ ∀ c ∈ is.cutOf agg time e, c.Held := by
  rw [cutFits, cutOf]
  cases e.2.since with
  | none => simp
  | some s =>
      have hsum : gathered is.totals e.1 = ((is.totals.get? e.1).getD {}).nanos := by
        rw [gathered]
        cases is.totals.get? e.1 <;> rfl
      cases agg <;> simp [Cut.Held, Cut.span, Cut.sum, gatheredBy, hsum, or_iff_not_imp_left]

theorem cutsFit_iff {gate : Option DimensionKey → Bool} :
    is.cutsFit agg time gate = true ↔ ∀ c ∈ is.cuts agg time gate, c.Held := by
  simp only [cutsFit, cuts, List.all_eq_true, Bool.or_eq_true, cutFits_iff, List.mem_filterMap, List.mem_filter]
  constructor
  · rintro h c ⟨e, ⟨he, hgate⟩, hc⟩
    exact (h e he).resolve_left (by simpa using hgate) c hc
  · intro h e he
    by_cases hgate : gate e.2.link = true
    · exact .inl hgate
    · exact .inr fun c hc => h c ⟨e, ⟨he, by simpa using hgate⟩, hc⟩

theorem stopFits_iff : is.stopFits agg nested time k = true ↔ ∀ c ∈ is.stopCuts agg nested time k, c.Held := by
  rw [stopFits, stopCuts]
  cases is.opened.get? k with
  | none => simp
  | some iv =>
      have hdeep : (nested && decide (1 < iv.nesting)) = true ↔ 0 < (if nested then iv.nesting - 1 else 0) := by
        cases nested with
        | false => simp
        | true =>
            simp only [Bool.true_and, decide_eq_true_eq, if_true]
            omega
      rw [Bool.or_eq_true, cutFits_iff (k, iv), hdeep]
      by_cases hnested : 0 < (if nested then iv.nesting - 1 else 0) <;> simp [hnested]

def nestingAt (is : Intervals) (nested : Bool) (k : DimensionKey) : Nat :=
  match is.opened.get? k with
  | some iv => if nested then iv.nesting + 1 else 1
  | none => 1

theorem startFits_iff : is.startFits nested k = true ↔ is.nestingAt nested k < 4294967296 := by
  rw [startFits, nestingAt]
  cases is.opened.get? k with
  | none => simp
  | some iv => cases nested <;> simp

def Shallow (n : Nat) (is : Intervals) : Prop := ∀ k iv, is.opened.get? k = some iv → iv.nesting ≤ n

namespace Shallow

variable (h : is.Shallow n)
include h

theorem mono {n' : Nat} (hn : n ≤ n') : is.Shallow n' := fun k iv hk => Nat.le_trans (h k iv hk) hn

theorem nestingAt_le (nested : Bool) (k : DimensionKey) : is.nestingAt nested k ≤ n + 1 := by
  rw [nestingAt]
  cases hk : is.opened.get? k with
  | none => exact Nat.le_add_left 1 n
  | some iv =>
      have hle := h k iv hk
      cases nested <;> simp
      omega

theorem sweep {f : Interval → Interval × Int} (hf : ∀ iv, (f iv).1.nesting = iv.nesting) :
    (is.sweep fun _ iv => f iv).Shallow n := by
  intro k iv' hk
  rw [opened_sweep, Option.map_eq_some_iff] at hk
  obtain ⟨iv, hiv, rfl⟩ := hk
  exact hf iv ▸ h k iv hiv

theorem regate (gate : Option DimensionKey → Bool) : (is.regate agg time gate).Shallow n := by
  refine h.sweep (f := fun iv => regateOne agg time (gate iv.link) iv) fun iv => ?_
  unfold regateOne
  split
  · rfl
  · cases agg <;> rfl
  · rfl

theorem accrueTo : (is.accrueTo agg time).Shallow n := by
  refine h.sweep fun iv => ?_
  split
  · cases agg <;> rfl
  · rfl

theorem insert {iv : Interval} (hiv : iv.nesting ≤ n) : { is with opened := is.opened.insert j iv }.Shallow n := by
  intro k iv' hk
  rw [Table.get?_insert] at hk
  split at hk
  · cases hk
    exact hiv
  · exact h k iv' hk

theorem start (hstart : is.start nested limit time isOpen j link = .ok is') : is'.Shallow (n + 1) := by
  have hn := h.mono (Nat.le_succ n)
  have hnesting := h.nestingAt_le nested j
  rw [nestingAt] at hnesting
  rcases start_cases hstart with ⟨iv, hj, rfl⟩ | ⟨-, rfl⟩
  · rw [hj] at hnesting
    exact hn.insert hnesting
  · exact hn.insert (Nat.le_add_left 1 n)

theorem stop (j : DimensionKey) : (is.stop agg nested time j).Shallow n := by
  rcases stop_cases is agg nested time j with ⟨-, hstop⟩ | ⟨iv, hj, ⟨-, hstop⟩ | ⟨-, hstop⟩⟩ <;> rw [hstop]
  · exact h
  · have hiv := h j iv hj
    refine h.insert ?_
    dsimp only
    split <;> omega
  · intro k iv' hk
    rw [Table.get?_erase] at hk
    split at hk
    · cases hk
    · exact h k iv' hk

end Shallow

end Intervals

namespace Metric

variable {m m₀ : Metric} {t : Timing} {cs : Conditions} {e : Event} {hits : Hits} {u : Condition.Update} {τ : Int}
  {slot : Slot} {n : Nat}

theorem prepareFits_iff : m.prepareFits t cs e hits u = true ↔ ∀ c ∈ m.prepareCuts t cs e hits u, c.Held := by
  rw [prepareFits, prepareCuts]
  generalize (m.plan.gate.any fun g => u.isChanged g.condition) = changed
  generalize (if changed then m.regate t cs e.time else m) = asked
  rw [Bool.and_eq_true, List.forall_mem_append]
  refine and_congr ?_ ?_
  · cases changed <;> simp [Intervals.cutsFit_iff]
  · cases t.stopAll.any hits.get <;> simp [Intervals.cutsFit_iff]

/-- How deep the start of an interval nests it, if the event is one. -/
def turnNesting (m : Metric) (t : Timing) (e : Event) (hits : Hits) : Nat :=
  match hits.get t.start, hits.get t.stop, DimensionKey.extract? e m.plan.dimensions with
  | true, false, some key =>
    match m.intervalLink e with
    | .ok _ => m.intervals.nestingAt t.nested key
    | .error _ => 0
  | _, _, _ => 0

theorem turnFits_iff : m.turnFits t e hits = true ↔
    (∀ c ∈ m.turnCuts t e hits, c.Held) ∧ m.turnNesting t e hits < 4294967296 := by
  rw [turnFits, turnCuts, turnNesting]
  cases hits.get t.start <;> cases hits.get t.stop <;> cases DimensionKey.extract? e m.plan.dimensions <;>
    simp [Intervals.stopFits_iff]
  cases m.intervalLink e <;> simp [Intervals.startFits_iff]

def measureNesting (m : Metric) (cs : Conditions) (e : Event) (hits : Hits) (u : Condition.Update) : Nat :=
  match m.plan.rule with
  | .timed t => (m.prepareIntervals t cs e hits u).turnNesting t e hits
  | _ => 0

theorem intervalsFit_iff {fits : Timing → Intervals → Bool} :
    m.intervalsFit fits = true ↔ ∀ t, m.plan.rule = .timed t → fits t m.intervals = true := by
  rw [intervalsFit]
  cases m.plan.rule <;> simp

theorem deactivateFits_iff : m.deactivateFits τ = true ↔
    ∀ t, m.plan.rule = .timed t → ∀ c ∈ m.intervals.cuts t.aggregation τ fun _ => false, c.Held := by
  simp only [deactivateFits, intervalsFit_iff, Intervals.cutsFit_iff]

theorem rollFits_iff : m.rollFits slot = true ↔
    (∀ t, m.plan.rule = .timed t → ∀ c ∈ m.rollCuts t slot, c.Held) ∧
      (m.active = true → m.windows.isActive slot.stop = true → Grid.nextFits slot = true) := by
  have hbody := body_flushBucket (m.accrue slot.stop) slot slot.stop true
  generalize hflushed : ((m.accrue slot.stop).flushBucket slot slot.stop true).state = flushed at hbody
  have hplan : flushed.plan = m.plan := (congrArg Metric.plan hbody :).trans (by simp [body, clearBucket, accrue])
  have hactive : flushed.active = m.active :=
    (congrArg Metric.active hbody :).trans (by simp [body, clearBucket, accrue])
  have hwindows : flushed.windows = m.windows :=
    (congrArg Metric.windows hbody :).trans (by simp [body, clearBucket, accrue])
  have hcut : ∀ t, m.plan.rule = .timed t →
      flushed.intervals = { m.intervals.accrueTo t.aggregation slot.stop with totals := .empty } := fun t hrule => by
    rw [← accrue_timed hrule]
    exact (congrArg Metric.intervals hbody :)
  have hfits : m.rollFits slot = ((m.intervalsFit fun t is => is.cutsFit t.aggregation slot.stop fun _ => false) &&
      if m.active && m.windows.isActive slot.stop then Grid.nextFits slot
      else !m.active || flushed.deactivateFits slot.stop) := by
    rw [← hactive, ← hwindows, ← hflushed]
    rfl
  rw [hfits, Bool.and_eq_true, intervalsFit_iff]
  simp only [rollCuts, List.forall_mem_append, Intervals.cutsFit_iff]
  have hidle : flushed.deactivateFits slot.stop = true ↔ ∀ t, m.plan.rule = .timed t →
      ∀ c ∈ ({ m.intervals.accrueTo t.aggregation slot.stop with totals := .empty } : Intervals).cuts t.aggregation
        slot.stop fun _ => false, c.Held := by
    rw [deactivateFits_iff, hplan]
    exact forall₂_congr fun t hrule => by rw [hcut t hrule]
  cases m.active <;> cases m.windows.isActive slot.stop <;> simp [hidle, forall_and]

end Metric

namespace Work

variable {w : Work} {t : Timing}

def nesting (w : Work) : Nat :=
  match w.deed with
  | .measure ev hits u => w.metric.measureNesting w.conditions ev hits u
  | _ => 0

/-- Words hold the time between the bucket that opens and the one before it. -/
def Near (w : Work) : Prop := ∀ p q, w.opens = some (some p, q) → InRange (q.start - p.stop)

def Numbers (w : Work) : Prop := ∀ l q, w.opens = some (l, q) →
  0 < w.metric.grid.size ∧ q.num < 18446744073709551616 ∧ ∀ p ∈ l, p.stop ≤ q.start

theorem forall_cuts {P : Cut → Prop} :
    (∀ c ∈ w.cuts, P c) ↔ ∀ t, w.metric.plan.rule = .timed t → ∀ c ∈ w.timedCuts t, P c := by
  rw [cuts]
  cases w.metric.plan.rule <;> simp

theorem near_activate_iff {m : Metric} {cs : Conditions} {time : Int} (h : Numbers ⟨m, cs, time, .activate⟩) :
    Near ⟨m, cs, time, .activate⟩ ↔
      (!(m.plan.isBucketed && m.grid.current.isNone) || m.grid.openFits time) = true := by
  cases hopen : m.plan.isBucketed && m.grid.current.isNone with
  | false => simp [Near, opens, hopen]
  | true =>
      have hopens : opens ⟨m, cs, time, .activate⟩ =
          some (m.grid.last, ⟨time, Instant.after time m.grid.size, m.grid.numberAt time⟩) := by
        simp only [opens, hopen, if_true, Grid.openAt, Option.map_some]
      obtain ⟨hpos, hnum, hafter⟩ := h _ _ hopens
      rw [Bool.not_true, Bool.false_or, Grid.openFits_iff hpos hnum hafter, Near, hopens]
      constructor
      · intro hnear l hl
        exact hnear l _ (by rw [← Option.mem_def.1 hl])
      · rintro hgaps p q hpq
        obtain ⟨hp, rfl⟩ := Prod.mk.inj (Option.some.inj hpq)
        exact hgaps p hp

/-- The parts of the work with which words can fall short. -/
theorem fits_iff (h : w.Numbers) :
    w.fits = true ↔ w.Near ∧ (∀ c ∈ w.cuts, c.Held) ∧ w.nesting < 4294967296 := by
  obtain ⟨m, cs, time, deed⟩ := w
  rw [forall_cuts]
  cases deed with
  | roll slot =>
      have hnext : m.active = true → m.windows.isActive slot.stop = true → Grid.nextFits slot = true := by
        intro ha hw
        exact decide_eq_true (h (some slot) (m.grid.next slot) (by simp [opens, ha, hw])).2.1
      have hnear : Near ⟨m, cs, time, .roll slot⟩ := by
        intro p q hopens
        simp only [opens, Option.ite_none_right_eq_some, Option.some.injEq, Prod.mk.injEq] at hopens
        obtain ⟨-, rfl, rfl⟩ := hopens
        rw [Grid.next, Int.sub_self]
        decide
      rw [fits, Metric.rollFits_iff, and_iff_left hnext]
      simp [nesting, timedCuts, hnear]
  | activate =>
      have hgate : (m.activate cs time).gateOpen cs = ({ m with active := true } : Metric).gateOpen cs := by
        funext link
        simp [Metric.gateOpen]
      rw [near_activate_iff h]
      simp [fits, nesting, timedCuts, Metric.activateFits, Metric.intervalsFit_iff, Intervals.cutsFit_iff, hgate]
  | deactivate =>
      simp [fits, Near, opens, nesting, Metric.deactivateFits, Metric.intervalsFit_iff, timedCuts,
        Intervals.cutsFit_iff]
  | measure ev hits u =>
      simp only [fits, Near, opens, nesting, Metric.measureFits, Metric.intervalsFit_iff, timedCuts, Bool.and_eq_true,
        Metric.prepareFits_iff, Metric.turnFits_iff, List.forall_mem_append, Metric.measureNesting]
      cases hrule : m.plan.rule <;> simp [and_assoc]
  | close slot => simp [fits, Near, opens, nesting, Metric.intervalsFit_iff, timedCuts, Intervals.cutsFit_iff]

end Work

namespace Metric

variable {m m₀ : Metric} {t : Timing} {ws : List Work} {n : Nat}

section Measuring

variable (cs : Conditions) (e : Event) (hits : Hits) (u : Condition.Update)

theorem shallow_prepare (h : m.intervals.Shallow n) : (m.prepareIntervals t cs e hits u).intervals.Shallow n := by
  rw [prepareIntervals]
  generalize (m.plan.gate.any fun g => u.isChanged g.condition) = changed
  have hasked : (if changed then m.regate t cs e.time else m).intervals.Shallow n := by
    split
    · exact h.regate (m.gateOpen cs)
    · exact h
  split
  · exact fun _ _ hk => by cases hk
  · exact hasked

theorem turnNesting_le (h : m.intervals.Shallow n) : m.turnNesting t e hits ≤ n + 1 := by
  rw [turnNesting]
  split
  · split
    · exact h.nestingAt_le t.nested _
    · exact Nat.zero_le _
  · exact Nat.zero_le _

theorem shallow_turn (h : m.intervals.Shallow n) : (m.turnInterval t cs e hits).1.intervals.Shallow (n + 1) := by
  rcases turnInterval_cases m cs e hits t with ⟨o, -, hturn⟩ | ⟨key, m', -, -, -, hn, hturn⟩ | ⟨key, hturn⟩ <;>
    rw [hturn]
  · exact h.mono (Nat.le_succ n)
  · obtain ⟨link, is, -, his, rfl⟩ := (startInterval_eq_ok cs e).1 hn
    exact h.start his
  · exact (h.stop key).mono (Nat.le_succ n)

end Measuring

/-- No interval is nested deeper than there were events. -/
structure Nested (ws : List Work) (m : Metric) : Prop where
  shallow : ∀ t, m.plan.rule = .timed t → m.intervals.Shallow (Work.events ws).length
  works : ∀ w ∈ ws, w.nesting ≤ (Work.events ws).length

namespace Nested

theorem congr {m' : Metric} (h : Nested ws m) (hplan : m'.plan = m.plan) (hintervals : m'.intervals = m.intervals) :
    Nested ws m' :=
  ⟨hplan ▸ hintervals ▸ h.shallow, h.works⟩

theorem concat {m' : Metric} {w : Work} (h : Nested ws m) (hevent : w.event? = none) (hplan : m'.plan = m.plan)
    (hkept : ∀ t, m.plan.rule = .timed t → m.intervals.Shallow (Work.events ws).length →
      m'.intervals.Shallow (Work.events ws).length) : Nested (ws ++ [w]) m' := by
  have hnone : w.nesting = 0 := by
    rw [Work.nesting]
    cases hdeed : w.deed with
    | measure ev hits u => simp [Work.event?, hdeed] at hevent
    | roll slot => rfl
    | activate => rfl
    | deactivate => rfl
    | close slot => rfl
  refine ⟨fun t hrule => ?_, List.forall_mem_append.2 ⟨?_, List.forall_mem_singleton.2 (hnone ▸ Nat.zero_le _)⟩⟩ <;>
    rw [Work.events_concat ws hevent]
  · exact hkept t (hplan ▸ hrule) (h.shallow t (hplan ▸ hrule))
  · exact h.works

theorem measure (h : Nested ws m) (cs : Conditions) (e : Event) (hits : Hits) (u : Condition.Update) :
    Nested (ws ++ [⟨m, cs, e.time, .measure e hits u⟩]) (m.measure cs e hits u).1.state := by
  have hlength : (Work.events (ws ++ [⟨m, cs, e.time, .measure e hits u⟩])).length = (Work.events ws).length + 1 := by
    rw [Work.events_append, List.length_append]
    rfl
  have hplan : (m.measure cs e hits u).1.state.plan = m.plan := (congrArg Metric.plan (measure_still m cs e hits u) :)
  refine ⟨fun t hrule => ?_, List.forall_mem_append.2 ⟨fun w hw => ?_, List.forall_mem_singleton.2 ?_⟩⟩ <;> rw [hlength]
  · rw [hplan] at hrule
    rw [measure_timed cs e hits u hrule]
    exact shallow_turn cs e hits (shallow_prepare cs e hits u (h.shallow t hrule))
  · exact Nat.le_succ_of_le (h.works w hw)
  · change m.measureNesting cs e hits u ≤ _
    rw [measureNesting]
    cases hrule : m.plan.rule with
    | timed t => exact turnNesting_le e hits (shallow_prepare cs e hits u (h.shallow t hrule))
    | sampled | passed => exact Nat.zero_le _

theorem logged (ms : Matchers) : Logged ms fun ws _ m _ => Nested ws m where
  wait h _ := h
  roll {_ m _ slot} cs h _ _ _ := h.concat rfl (roll_plan m cs slot) fun t hrule hshallow => by
    have hcut : ({ m.intervals.accrueTo t.aggregation slot.stop with totals := .empty } : Intervals).Shallow _ :=
      hshallow.accrueTo
    rw [roll_timed hrule]
    split
    · exact hcut.regate _
    · exact hcut
  activate {_ τ m _} cs h _ _ _ _ := h.concat rfl (activate_plan m cs τ) fun t hrule hshallow => by
    rw [activate_timed hrule]
    exact hshallow.regate _
  deactivate {_ τ m _} cs h _ _ := h.concat rfl (deactivate_plan m τ) fun t hrule hshallow => by
    rw [deactivate_timed hrule]
    exact hshallow.regate _
  watch _ h := h.congr rfl rfl
  measure cs ev u h _ _ := h.measure cs ev (ms.judge ev) u
  note o h := by cases o <;> exact h.congr rfl rfl
  flushPending {_ _ m _} h :=
    h.congr (congrArg Metric.plan (body_flushPending m) :) (congrArg Metric.intervals (body_flushPending m) :)

theorem settles :
    Settles (fun ws _ m _ => Nested ws m) fun ws _ _ => ∀ w ∈ ws, w.nesting ≤ (Work.events ws).length where
  rest h _ := h.works
  close {ws τ m _} cs h _ := by
    rw [Work.events_append, events_closeWorks, List.append_nil]
    refine List.forall_mem_append.2 ⟨h.works, fun w hw => ?_⟩
    obtain ⟨slot, -, rfl⟩ := List.mem_map.1 hw
    exact Nat.zero_le _

theorem start (hm : Fresh m₀) (cs : Conditions) (time : Int) : Nested (m₀.startWorks cs time) (m₀.start cs time) := by
  have hfresh : Nested [] m₀ := ⟨fun _ _ k iv hk => (by rw [hm.intervals] at hk; cases hk), by simp⟩
  rw [startWorks, Metric.start]
  split
  · exact hfresh.concat rfl (activate_plan m₀ cs time) fun t hrule hshallow => by
      rw [activate_timed hrule]
      exact hshallow.regate _
  · exact hfresh

end Nested

end Metric

end EventMetrics
