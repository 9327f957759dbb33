import EventMetrics.Proofs.Metric.Crediting
import EventMetrics.Proofs.Metric.Summing
import EventMetrics.Proofs.Metric.Tidy

namespace EventMetrics.Metric

open Instant (last)
open Intervals (Spelled)
open Record (Past Paving Credited bucketsOf)

/-- The books of a metric for a key: what its course comes to is with the intervals or in rows. -/
structure Ledger (t : Timing) (size : Int) (on : Option DimensionKey → Int → Bool) (k : DimensionKey) (c : Course)
    (s τ : Int) (m : Metric) (rs : List Record) : Prop where
  rule : m.plan.rule = .timed t
  lasting : ∀ x ∈ rs ++ m.owed, ∀ a ∈ x.span?, a.1 < a.2
  spelled : m.intervals.Spelled on s τ (Past (rs ++ m.owed) ·) k c
  credited : Credited size k (c.endings on) (fun _ => []) (Past (rs ++ m.owed)) rs

variable {m₀ m n : Metric} {t : Timing} {A : Int → Prop} {on on' : Option DimensionKey → Int → Bool} {k : DimensionKey}
  {c c' : Course} {s τ : Int} {rs : List Record} {slot : Slot} {ev : Event} {hits : Hits} {cs : Conditions}
  {u : Condition.Update}

theorem Paved.past (h : Paved m₀ A s τ m rs) (hp : Placed τ m) : Past (rs ++ m.owed) τ := fun x hx a ha =>
  Int.le_trans (h.paving.inside x hx a ha).2.2 hp.floor_le

namespace Ledger

theorem change (h : Ledger t m₀.grid.size on k c s τ m rs) (hpaved : Paved m₀ A s τ m rs) (hp : Placed τ m)
    (hplan : n.plan = m.plan) (hpending : n.pending = m.pending)
    (hspelled : n.intervals.Spelled on s τ (Past (rs ++ m.owed) ·) k c')
    (hendings : ∃ new, c'.endings on = c.endings on ++ new ∧ ∀ x ∈ new, x.time = τ) :
    Ledger t m₀.grid.size on k c' s τ n rs := by
  have howed := owed_congr hpending
  obtain ⟨new, hnew, htime⟩ := hendings
  refine ⟨hplan ▸ h.rule, howed ▸ h.lasting, howed ▸ hspelled, ?_⟩
  rw [hnew, howed]
  refine h.credited.arrive fun x hx => ?_
  rw [htime x hx]
  refine ⟨hpaved.past hp, fun r hr => ?_⟩
  obtain ⟨hwhole, hle⟩ := hpaved.paving.whole_of_row (List.mem_append_left _ (Record.mem_of_mem_bucketsOf hr))
  exact hwhole ▸ Int.le_trans hle hp.floor_le

theorem same (h : Ledger t m₀.grid.size on k c s τ m rs) (hplan : n.plan = m.plan) (hpending : n.pending = m.pending)
    (hspelled : n.intervals.Spelled on s τ (Past (rs ++ m.owed) ·) k c) :
    Ledger t m₀.grid.size on k c s τ n rs := by
  have howed := owed_congr hpending
  exact ⟨hplan ▸ h.rule, howed ▸ h.lasting, howed ▸ hspelled, howed ▸ h.credited⟩

theorem deactivate (h : Ledger t m₀.grid.size on k c s τ m rs) (hmax : t.aggregation = .maxSparse) :
    Ledger t m₀.grid.size on k c s τ (m.deactivate τ) rs := by
  refine h.same (deactivate_plan m τ) (deactivate_pending m τ) ?_
  rw [deactivate_timed h.rule, hmax]
  exact h.spelled.regate _

theorem activate (h : Ledger t m₀.grid.size on k c s τ m rs) (hmax : t.aggregation = .maxSparse) (cs : Conditions) :
    Ledger t m₀.grid.size on k c s τ (m.activate cs τ) rs := by
  refine h.same (activate_plan m cs τ) (activate_pending m cs τ) ?_
  rw [activate_timed h.rule, hmax]
  exact h.spelled.regate _

theorem flushPending (h : Ledger t m₀.grid.size on k c s τ m rs) (hpaved : Paved m₀ A s τ m rs) :
    Ledger t m₀.grid.size on k c s τ m.flushPending.state (rs ++ m.flushPending.records) := by
  have hbody := body_flushPending m
  have hplan : m.flushPending.state.plan = m.plan := (congrArg Metric.plan hbody :)
  have hintervals : m.flushPending.state.intervals = m.intervals := (congrArg Metric.intervals hbody :)
  have hsame : rs ++ m.flushPending.records ++ m.flushPending.state.owed = rs ++ m.owed := by
    rw [List.append_assoc, flushPending_owed]
  refine ⟨hplan ▸ h.rule, hsame ▸ h.lasting, hsame ▸ hintervals ▸ h.spelled, ?_⟩
  rw [hsame, flushPending_records]
  exact h.credited.append hpaved.paving (bucketsOf_owed m k)

theorem gathers_accrue (h : Ledger t m₀.grid.size on k c s τ m rs) (hmax : t.aggregation = .maxSparse) :
    (m.accrue τ).Gathers k ((c.endings on).filter (Past (rs ++ m.owed) ·.time) ++ []) := by
  rw [List.append_nil]
  refine gathers_of_totals (accrue_plan m τ ▸ h.rule) ?_ fun x hx =>
    Course.pos_of_mem_endings (List.mem_of_mem_filter hx)
  rw [accrue_timed h.rule, hmax]
  exact (h.spelled.accrueTo).totals

theorem roll (h : Ledger t m₀.grid.size on k c s slot.stop m rs) (hpaved : Paved m₀ A s slot.stop m rs)
    (hp : Placed slot.stop m) (hs : m.grid.current = some slot) (hlast : slot.stop < last)
    (hmax : t.aggregation = .maxSparse)
    (hearly : ∀ x ∈ c.endings on, x.time < slot.stop) (cs : Conditions) :
    Ledger t m₀.grid.size on k c s slot.stop (m.roll cs slot).state (rs ++ (m.roll cs slot).records) := by
  have hcloses := roll_closes m cs slot
  have hafter := (hpaved.roll hp hs hlast cs).paving
  have hle := (hp.slot slot hs).2.1
  have hlt := hp.start_lt_stop hs (by omega)
  have hsize := (hp.size hpaved.bucketed).1
  have hend := hp.stop_le hs
  rw [hpaved.size] at hsize hend
  have hpaving := hpaved.paving
  have hlasting := h.lasting
  have hcredited := h.credited
  have hgathers := h.gathers_accrue hmax
  rw [floor_of_slot hs] at hpaving
  rw [← accrue_owed m slot.stop] at hpaving hlasting hcredited hgathers
  rw [List.append_assoc, floor_roll cs hs] at hafter
  have hentered := hcloses.credited hsize hlasting hpaving hafter
    (fun x hx => Int.lt_of_lt_of_le (hearly x hx) hend) hgathers hcredited
  have hcleared := (h.spelled.accrueTo).clear
    (q := (Past (rs ++ ((m.roll cs slot).records ++ (m.roll cs slot).state.owed)) ·)) fun x hx =>
      decide_eq_false (hcloses.not_past (hearly x hx))
  simp only [ite_self] at hentered
  refine ⟨(congrArg MetricPlan.rule (roll_plan m cs slot)).trans h.rule, ?_, ?_, ?_⟩
  · rw [List.append_assoc]
    exact hcloses.lasting hlt hlasting
  · rw [List.append_assoc, roll_timed h.rule, hmax]
    split
    · exact hcleared.regate _
    · exact hcleared
  · exact hentered.weaken fun _ hfalse => hfalse.elim

theorem meet (h : Ledger t m₀.grid.size on k c s τ m rs) (hpaved : Paved m₀ A s τ m rs) (hp : Placed τ m)
    (hlast : τ < last) (hmax : t.aggregation = .maxSparse)
    (hearly : ∀ x ∈ c.endings on, ∀ slot, m.grid.current = some slot → x.time < slot.stop) (cs : Conditions) :
    Ledger t m₀.grid.size on k c s τ (m.meet cs τ) (rs ++ (m.rollTo cs τ).records) := by
  have hrolled : Ledger t m₀.grid.size on k c s τ (m.rollTo cs τ).state (rs ++ (m.rollTo cs τ).records) := by
    rcases rollTo_cases cs hp (.inl hlast) with ⟨-, hr⟩ | ⟨slot, hs, rfl, hr⟩ <;> rw [hr]
    · exact (List.append_nil rs).symm ▸ h
    · exact h.roll hpaved hp hs hlast hmax (fun x hx => hearly x hx slot hs) cs
  rw [Metric.meet]
  rcases followWindows_cases (m.rollTo cs τ).state cs τ with hfollow | hfollow | hfollow <;> rw [hfollow]
  · exact hrolled.activate hmax cs
  · exact hrolled.deactivate hmax
  · exact hrolled

end Ledger

section Spelled

variable {p : Int → Bool} (hmax : t.aggregation = .maxSparse) (hs : s ≤ ev.time)
  (hp : p ev.time = true)
include hmax hp

theorem spelled_prepare (cs : Conditions) (hits : Hits) (u : Condition.Update)
    (h : m.intervals.Spelled on s ev.time p k c) :
    (m.prepareIntervals t cs ev hits u).intervals.Spelled on s ev.time p k
      (if t.stopAll.any hits.get then c.finish ev.time else c) := by
  have hasked : Spelled on s ev.time p k c
      (if (m.plan.gate.any fun x => u.isChanged x.condition) then m.regate t cs ev.time else m).intervals := by
    split
    · rw [regate, hmax]
      exact h.regate _
    · exact h
  simp only [prepareIntervals]
  split
  · rw [hmax]
    exact hasked.stopAll hp
  · exact hasked

include hs

theorem spelled_turn (cs : Conditions) (hits : Hits) (h : m.intervals.Spelled on s ev.time p k c) :
    (m.turnInterval t cs ev hits).1.intervals.Spelled on s ev.time p k
      (c.turn t hits (m.plan.isAt ev k) (m.turnInterval t cs ev hits).2.isAccepted ev.time (m.linkOf ev)) := by
  unfold turnInterval Course.turn MetricPlan.isAt
  cases hstart : hits.get t.start <;> cases hstop : hits.get t.stop
  · exact h
  · cases hkey : DimensionKey.extract? ev m.plan.dimensions with
    | none => simpa using h
    | some j =>
        have hstopped := h.stop t.nested j hp
        simpa [hmax, Keyed.text] using hstopped
  · cases hkey : DimensionKey.extract? ev m.plan.dimensions with
    | none => simpa using h
    | some j =>
        cases hn : m.startInterval t cs ev j with
        | error r => simpa [hn, Outcome.isAccepted] using h
        | ok n =>
            obtain ⟨link, is, hl, his, rfl⟩ := (startInterval_eq_ok cs ev).1 hn
            simpa [hn, Outcome.isAccepted, Keyed.text, linkOf_eq hl] using h.start hs his
  · exact h

end Spelled

namespace Ledger

theorem congr (h : Ledger t m₀.grid.size on k c s τ m rs) (hon : ∀ l i, i < τ → on' l i = on l i) :
    Ledger t m₀.grid.size on' k c s τ m rs := by
  obtain ⟨hendings, hspelled⟩ := h.spelled.congr hon
  exact ⟨h.rule, h.lasting, hspelled, hendings ▸ h.credited⟩

theorem wait (h : Ledger t m₀.grid.size on k c s τ m rs) {τ' : Int} (hle : τ ≤ τ')
    (hon : ∀ iv, m.intervals.opened.get? k = some iv → ∀ i, τ ≤ i → i < τ' → on iv.link i = iv.since.isSome) :
    Ledger t m₀.grid.size on k c s τ' m rs :=
  ⟨h.rule, h.lasting, h.spelled.wait hle hon, h.credited⟩

theorem note (h : Ledger t m₀.grid.size on k c s τ m rs) (o : Outcome) :
    Ledger t m₀.grid.size on k c s τ (m.note o) rs := by
  cases o <;> exact h.same rfl rfl h.spelled

theorem measure (cs : Conditions) (hits : Hits) (u : Condition.Update)
    (h : Ledger t m₀.grid.size on k c s ev.time m rs) (hpaved : Paved m₀ A s ev.time m rs)
    (hp : Placed ev.time m) (hmax : t.aggregation = .maxSparse) (hs : s ≤ ev.time) :
    Ledger t m₀.grid.size on k (c.follow t hits (m.plan.isAt ev k) (m.measure cs ev hits u).2.isAccepted ev.time
      (m.linkOf ev)) s ev.time (m.measure cs ev hits u).1.state rs := by
  have hstill := measure_still m cs ev hits u
  have hpast : decide (Past (rs ++ m.owed) ev.time) = true := decide_eq_true (hpaved.past hp)
  have hplan : (m.prepareIntervals t cs ev hits u).plan = m.plan :=
    (congrArg Metric.plan (prepareIntervals_still m cs ev hits u t) :)
  refine h.change hpaved hp (congrArg Metric.plan hstill :) (congrArg Metric.pending hstill :) ?_
    (c.endings_follow on ev.time t hits _ _ _)
  have hprepared := spelled_prepare hmax hpast cs hits u h.spelled
  have hturned := spelled_turn hmax hs hpast cs hits hprepared
  rw [hplan, linkOf_congr hplan] at hturned
  rw [measure_timed cs ev hits u h.rule]
  exact hturned

end Ledger

theorem turnInterval_accepted {iv : Interval} {link : Option DimensionKey} (cs : Conditions)
    (hstart : hits.get t.start = true) (hstop : hits.get t.stop = false) (hat : m.plan.isAt ev k = true)
    (hl : m.intervalLink ev = .ok link) (hiv : m.intervals.opened.get? k = some iv) :
    (m.turnInterval t cs ev hits).2 = .accepted := by
  rw [MetricPlan.isAt] at hat
  rw [turnInterval, hstart, hstop]
  cases hj : DimensionKey.extract? ev m.plan.dimensions with
  | none =>
      rw [hj] at hat
      cases hat
  | some j =>
      rw [hj, Option.any_some, decide_eq_true_eq] at hat
      have hopen : m.intervals.opened.get? j = some iv :=
        (Table.get?_congr (show Keyed.text j = Keyed.text k from hat.symm) m.intervals.opened).trans hiv
      have his : ∃ is, m.intervals.start t.nested m.plan.maxDimensions ev.time (m.gateOpen cs link) j link =
          .ok is := by
        rw [Intervals.start, hopen]
        exact ⟨_, rfl⟩
      obtain ⟨is, his⟩ := his
      have hn : m.startInterval t cs ev j = .ok { m with intervals := is } :=
        (startInterval_eq_ok cs ev).2 ⟨link, is, hl, his, rfl⟩
      simp only [hn, if_true]

theorem Ledger.accepted {sp : Spell} {link : Option DimensionKey} (h : Ledger t m₀.grid.size on k c s ev.time m rs)
    (hmax : t.aggregation = .maxSparse) (hpast : Past (rs ++ m.owed) ev.time)
    (hsp : c.current = some sp) (hstart : hits.get t.start = true) (hstop : hits.get t.stop = false)
    (hall : t.stopAll.any hits.get = false) (hat : m.plan.isAt ev k = true) (hl : m.intervalLink ev = .ok link) :
    (m.measure cs ev hits u).2 = .accepted := by
  have hprepared := spelled_prepare hmax (decide_eq_true hpast) cs hits u h.spelled
  have hplan : (m.prepareIntervals t cs ev hits u).plan = m.plan :=
    (congrArg Metric.plan (prepareIntervals_still m cs ev hits u t) :)
  rw [hall, if_neg Bool.false_ne_true] at hprepared
  rcases hprepared.current with ⟨hnone, -⟩ | ⟨sp', iv, -, hiv, -⟩
  · cases hnone.symm.trans hsp
  · rw [measure_timed cs ev hits u h.rule]
    exact turnInterval_accepted cs hstart hstop (hplan ▸ hat) ((intervalLink_congr hplan ev).trans hl) hiv

end EventMetrics.Metric
