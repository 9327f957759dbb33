import EventMetrics.Proofs.Metric.Admitting
import EventMetrics.Proofs.Metric.Fed

namespace EventMetrics

/-- How many keys some events may release. -/
def MetricPlan.releases (p : MetricPlan) (ms : Matchers) (es : List Event) : Nat :=
  (es.map fun ev => p.rule.releases p.maxDimensions (ms.judge ev)).sum

theorem MetricPlan.releases_concat (p : MetricPlan) (ms : Matchers) (es : List Event) (ev : Event) :
    p.releases ms (es ++ [ev]) = p.releases ms es + p.rule.releases p.maxDimensions (ms.judge ev) := by
  simp [releases]

theorem MetricPlan.releases_of_not_timed {p : MetricPlan} (h : ∀ t, p.rule ≠ .timed t) (ms : Matchers)
    (es : List Event) : p.releases ms es = 0 := by
  have hzero : ∀ hits, p.rule.releases p.maxDimensions hits = 0 := by
    intro hits
    cases hrule : p.rule with
    | timed t => exact absurd hrule (h t)
    | sampled | passed => rfl
  simp [releases, hzero]

/-- Nothing is gathered between buckets: no window interrupts them, or what is gathered goes to the instants at
which it was. -/
def Metric.Seamless (m : Metric) : Prop := m.windows = [] ∨ ∀ t, m.plan.rule = .timed t → t.aggregation = .sum

/-- A bucket among others, before which all had ended by `a`: its rows are no more than its metric may keep keys and
events have released since. -/
structure Ended.Within (b : Ended) (m₀ : Metric) (ms : Matchers) (es : List Event) (bs : List Ended) (a : Int) :
    Prop where
  start : a ≤ b.slot.start
  after : ∀ c ∈ bs, c.slot.start < b.slot.start → c.slot.stop ≤ a
  seamless : m₀.Seamless → a = b.slot.start
  rows : b.rows.length ≤ m₀.plan.maxDimensions +
    m₀.plan.releases ms (es.filter fun ev => a ≤ ev.time ∧ ev.time < b.slot.stop)

theorem Ended.Within.concat {b : Ended} {m₀ : Metric} {ms : Matchers} {es : List Event} {bs : List Ended} {a : Int}
    (h : b.Within m₀ ms es bs a) (ev : Event) : b.Within m₀ ms (es ++ [ev]) bs a where
  start := h.start
  after := h.after
  seamless := h.seamless
  rows := by
    refine h.rows.trans (Nat.add_le_add_left ?_ _)
    rw [List.filter_append, MetricPlan.releases, MetricPlan.releases, List.map_append, List.sum_append]
    exact Nat.le_add_right _ _

namespace Metric

open Instant (last)

variable {m n m₀ : Metric} {ms : Matchers} {es : List Event} {bs : List Ended} {s τ a : Int} {slot : Slot}
  {rs : List Record}

structure Since (m₀ : Metric) (ms : Matchers) (es : List Event) (bs : List Ended) (τ : Int) (m : Metric) (a : Int) :
    Prop where
  le : a ≤ τ
  ended : ∀ b ∈ bs, b.slot.stop ≤ a
  current : ∀ slot, m.grid.current = some slot → a ≤ slot.start ∧ (m₀.Seamless → a = slot.start)
  released : m.released.card ≤ m₀.plan.releases ms (es.filter (a ≤ ·.time))

/-- A metric that has met the events `es`, with the buckets `bs` that have ended: no bucket has more rows than the
limit of the metric and the events allow. -/
structure Capped (m₀ : Metric) (ms : Matchers) (es : List Event) (bs : List Ended) (τ : Int) (m : Metric) :
    Prop where
  plan : m.plan = m₀.plan
  tracked : m.tracked.card ≤ m₀.plan.maxDimensions
  tidy : Tidy m
  past : ∀ ev ∈ es, ev.time ≤ τ
  inside : ∀ slot, m.grid.current = some slot → ∀ ev ∈ es, ev.time < slot.stop
  since : ∃ a, Since m₀ ms es bs τ m a
  within : ∀ b ∈ bs, ∃ a, b.Within m₀ ms es bs a

namespace Capped

theorem wait (h : Capped m₀ ms es bs τ m) {τ' : Int} (hle : τ ≤ τ') : Capped m₀ ms es bs τ' m where
  plan := h.plan
  tracked := h.tracked
  tidy := h.tidy
  past ev hev := Int.le_trans (h.past ev hev) hle
  inside := h.inside
  since := h.since.imp fun _ hs => ⟨Int.le_trans hs.le hle, hs.ended, hs.current, hs.released⟩
  within := h.within

theorem narrow (h : Capped m₀ ms es bs τ m) (hn : Narrows m n) (hgrid : n.grid = m.grid) (htidy : Tidy n) :
    Capped m₀ ms es bs τ n where
  plan := hn.plan.trans h.plan
  tracked := (Finset.card_le_card hn.tracked).trans h.tracked
  tidy := htidy
  past := h.past
  inside := hgrid ▸ h.inside
  since := h.since.imp fun _ hs =>
    ⟨hs.le, hs.ended, hgrid ▸ hs.current, (Finset.card_le_card hn.released).trans hs.released⟩
  within := h.within

theorem within_concat (h : Capped m₀ ms es bs τ m) (hf : Feeds m₀ s bs τ m rs) (hs : m.grid.current = some slot)
    (hn : Narrows m n) (stop : Int) :
    ∀ b ∈ bs ++ [⟨slot, stop, n.rows⟩], ∃ a, b.Within m₀ ms es (bs ++ [⟨slot, stop, n.rows⟩]) a := by
  obtain ⟨a, hsince⟩ := h.since
  obtain ⟨hstart, hseamless⟩ := hsince.current slot hs
  intro b hb
  rcases List.mem_append.1 hb with hb | hb
  · obtain ⟨a', hwithin⟩ := h.within b hb
    refine ⟨a', hwithin.start, fun c hc hlt => ?_, hwithin.seamless, hwithin.rows⟩
    rcases List.mem_append.1 hc with hc | hc
    · exact hwithin.after c hc hlt
    · -- the new bucket starts after all that have ended
      obtain ⟨hle, hstop⟩ := hf.inside b hb
      have hended := hsince.ended b hb
      obtain rfl := List.mem_singleton.1 hc
      dsimp only at hlt
      omega
  · obtain rfl := List.mem_singleton.1 hb
    refine ⟨a, hstart, fun c hc hlt => ?_, hseamless, ?_⟩
    · rcases List.mem_append.1 hc with hc | hc
      · exact hsince.ended c hc
      · rw [List.mem_singleton.1 hc] at hlt
        exact absurd hlt (Int.lt_irrefl _)
    · have hall : es.filter (fun ev => decide (a ≤ ev.time ∧ ev.time < slot.stop)) = es.filter (a ≤ ·.time) :=
        List.filter_congr fun ev hev => by simp [h.inside slot hs ev hev]
      rw [hall]
      exact n.rows_length_le.trans (Nat.add_le_add ((Finset.card_le_card hn.tracked).trans h.tracked)
        ((Finset.card_le_card hn.released).trans hsince.released))

theorem roll (h : Capped m₀ ms es bs slot.stop m) (hf : Feeds m₀ s bs slot.stop m rs) (hp : Placed slot.stop m)
    (hs : m.grid.current = some slot) (hpass : Passes slot.stop m) (cs : Conditions) :
    Capped m₀ ms es (bs ++ [⟨slot, slot.stop, (m.accrue slot.stop).rows⟩]) slot.stop (m.roll cs slot).state := by
  obtain ⟨hn, hnone⟩ := narrows_roll m cs slot
  obtain ⟨a, hsince⟩ := h.since
  have hstart := (hsince.current slot hs).1
  have hle := (hp.slot slot hs).2.1
  refine ⟨hn.plan.trans h.plan, (Finset.card_le_card hn.tracked).trans h.tracked, h.tidy.roll cs slot, h.past,
    fun next hnext ev hev => ?_, ⟨slot.stop, Int.le_refl _, fun b hb => ?_, fun next hnext => ?_, ?_⟩,
    h.within_concat hf hs (.accrue m slot.stop) slot.stop⟩
  · exact Int.lt_of_le_of_lt (h.past ev hev) (inside_roll cs hp hs hpass next hnext)
  · rcases List.mem_append.1 hb with hb | hb
    · have := hsince.ended b hb
      omega
    · rw [List.mem_singleton.1 hb]
  · rcases (Feeds.roll_current hp hs hpass cs).2 with hcurrent | ⟨hcurrent, -⟩ <;> rw [hcurrent] at hnext
    · cases hnext
    · cases hnext
      exact ⟨Int.le_refl _, fun _ => rfl⟩
  · rw [hnone]
    exact Nat.zero_le _

theorem released_of_none (h : Capped m₀ ms es bs τ m) (hs : m.grid.current = none)
    (hsum : ∀ t, m₀.plan.rule = .timed t → t.aggregation = .sum) : m.released = ∅ := by
  rw [Metric.released]
  split
  next t hrule =>
    rw [Intervals.released, h.tidy.totals t hrule (hsum t (h.plan ▸ hrule)) hs]
    exact Finset.empty_sdiff _
  next => rfl

theorem activate (h : Capped m₀ ms es bs τ m) (hf : Feeds m₀ s bs τ m rs) (hp : Placed τ m) (hpass : Passes τ m)
    (hidle : m.active = false) (hactive : m.windows.isActive τ = true) (cs : Conditions) :
    Capped m₀ ms es bs τ (m.activate cs τ) := by
  have hn : Narrows m (m.activate cs τ) := .activate m cs τ
  have htidy := h.tidy.activate cs τ
  have hgrid := activate_grid m cs τ
  split at hgrid
  next hopen =>
    simp only [Bool.and_eq_true, Option.isNone_iff_eq_none] at hopen
    obtain ⟨hb, hs⟩ := hopen
    have hlast := (hpass.lt_or hb).resolve_right (by simp [hactive])
    have hslot : ∀ next, (m.activate cs τ).grid.current = some next →
        next.start = τ ∧ next.stop = Instant.after τ m.grid.size := by
      intro next hnext
      rw [hgrid] at hnext
      cases hnext
      exact ⟨rfl, rfl⟩
    refine ⟨hn.plan.trans h.plan, (Finset.card_le_card hn.tracked).trans h.tracked, htidy, h.past,
      fun next hnext ev hev => ?_, ?_, h.within⟩
    · rw [(hslot next hnext).2]
      exact Int.lt_of_le_of_lt (h.past ev hev) (Instant.lt_after hlast (hp.size hb).1)
    · obtain ⟨a, hsince⟩ := h.since
      by_cases hseamless : m₀.Seamless
      · have hsum := hseamless.resolve_left fun hw => by simp [(hf.free hw).2] at hidle
        refine ⟨τ, Int.le_refl _, fun b hb => Int.le_trans (hsince.ended b hb) hsince.le, fun next hnext => ?_, ?_⟩
        · rw [(hslot next hnext).1]
          exact ⟨Int.le_refl _, fun _ => rfl⟩
        · have hnone := Finset.subset_empty.1 (h.released_of_none hs hsum ▸ hn.released)
          rw [hnone]
          exact Nat.zero_le _
      · refine ⟨a, hsince.le, hsince.ended, fun next hnext => ?_,
          (Finset.card_le_card hn.released).trans hsince.released⟩
        rw [(hslot next hnext).1]
        exact ⟨hsince.le, fun h => absurd h hseamless⟩
  next => exact h.narrow hn hgrid htidy

theorem deactivate (h : Capped m₀ ms es bs τ m) (hp : Placed τ m) : Capped m₀ ms es bs τ (m.deactivate τ) :=
  h.narrow (.deactivate m τ) (deactivate_grid m τ) (h.tidy.deactivate hp.inactive τ)

theorem measure {ev : Event} (h : Capped m₀ ms es bs ev.time m) (hon : OnTime ev.time m) (hquiet : Quiet ev.time m)
    (cs : Conditions) (u : Condition.Update) :
    Capped m₀ ms (es ++ [ev]) bs ev.time (m.measure cs ev (ms.judge ev) u).1.state := by
  have hgrid : (m.measure cs ev (ms.judge ev) u).1.state.grid = m.grid :=
    (congrArg Metric.grid (measure_still m cs ev (ms.judge ev) u) :)
  obtain ⟨htracked, hreleased⟩ := measure_room m cs ev (ms.judge ev) u (h.plan.symm ▸ h.tracked)
  rw [h.plan] at htracked hreleased
  obtain ⟨a, hsince⟩ := h.since
  refine ⟨(measure_plan m cs ev (ms.judge ev) u).trans h.plan, htracked, h.tidy.measure hon.toPlaced cs ev _ u,
    fun x hx => ?_, fun slot hs x hx => ?_, ⟨a, hsince.le, hsince.ended, hgrid ▸ hsince.current, ?_⟩,
    fun b hb => (h.within b hb).imp fun _ hwithin => hwithin.concat ev⟩
  · rcases List.mem_append.1 hx with hx | hx
    · exact h.past x hx
    · rw [List.mem_singleton.1 hx]
  · rw [hgrid] at hs
    rcases List.mem_append.1 hx with hx | hx
    · exact h.inside slot hs x hx
    · rw [List.mem_singleton.1 hx]
      exact hquiet.lt_stop hs
  · have hnew : (es ++ [ev]).filter (fun x => decide (a ≤ x.time)) =
        es.filter (fun x => decide (a ≤ x.time)) ++ [ev] := by
      rw [List.filter_append, List.filter_cons_of_pos (by simpa using hsince.le), List.filter_nil]
    rw [hnew, MetricPlan.releases_concat]
    exact hreleased.trans (Nat.add_le_add_right hsince.released _)

theorem start (hm : Fresh m₀) (ms : Matchers) (s : Int) (cs : Conditions) :
    Capped m₀ ms [] [] s (m₀.start cs s) := by
  have hn : Narrows m₀ (m₀.start cs s) := .start m₀ cs s
  have hnone : m₀.tracked = ∅ ∧ m₀.released = ∅ := by
    rw [Metric.tracked, Metric.released, hm.samples, hm.intervals]
    cases m₀.plan.rule <;> exact ⟨rfl, rfl⟩
  have htracked := Finset.subset_empty.1 (hnone.1 ▸ hn.tracked)
  have hreleased := Finset.subset_empty.1 (hnone.2 ▸ hn.released)
  refine ⟨hn.plan, by rw [htracked]; exact Nat.zero_le _, (Tidy.of_fresh hm).start cs s, by simp, by simp,
    ⟨s, Int.le_refl _, by simp, fun slot hslot => ?_, by rw [hreleased]; exact Nat.zero_le _⟩, by simp⟩
  rw [Metric.start] at hslot
  split at hslot
  · rw [activate_grid] at hslot
    split at hslot
    · cases hslot
      exact ⟨Int.le_refl _, fun _ => rfl⟩
    · rw [hm.current] at hslot
      cases hslot
  · rw [hm.current] at hslot
    cases hslot

/-- What bounds the rows of a metric's buckets, as long as it works. -/
theorem steady (ms : Matchers) (m₀ : Metric) (s : Int) :
    Steady ms fun es τ m rs => ∃ bs, Feeds m₀ s bs τ m rs ∧ Capped m₀ ms es bs τ m where
  wait h hle := h.imp fun _ h => ⟨h.1.wait hle, h.2.wait hle⟩
  roll cs h hp hs hpass := h.elim fun _ h => ⟨_, h.1.roll hp hs hpass cs, h.2.roll h.1 hp hs hpass cs⟩
  activate cs h hp hpass hidle hactive := h.imp fun _ h =>
    ⟨h.1.activate hp hpass hidle hactive cs, h.2.activate h.1 hp hpass hidle hactive cs⟩
  deactivate h hp hidle := h.imp fun _ h => ⟨h.1.deactivate hidle, h.2.deactivate hp⟩
  watch hits h := h.imp fun _ h =>
    ⟨h.1.watch _ hits, h.2.narrow (.of_eq rfl rfl rfl) rfl (h.2.tidy.congr rfl rfl rfl rfl rfl)⟩
  measure cs _ u h hon hquiet := h.imp fun _ h => ⟨h.1.measure cs _ u, h.2.measure hon hquiet cs u⟩
  note o h := h.imp fun _ h => ⟨h.1.note o, h.2.narrow (.note _ o) (by cases o <;> rfl) (h.2.tidy.note o)⟩
  flushPending h := h.imp fun _ h => ⟨h.1.flushPending, h.2.narrow (.flushPending _)
    (congrArg Metric.grid (body_flushPending _) :) h.2.tidy.flushPending⟩

theorem leaves (ms : Matchers) (m₀ : Metric) (s : Int) :
    Leaves (fun es τ m rs => ∃ bs, Feeds m₀ s bs τ m rs ∧ Capped m₀ ms es bs τ m) fun es m rs =>
      ∃ bs : List Ended, Fed m₀ s (bs.map (·.slot)) bs m rs ∧ ∀ b ∈ bs, ∃ a, b.Within m₀ ms es bs a where
  rest h hpending := h.imp fun _ h => ⟨h.1.rest hpending, h.2.within⟩
  close := by
    rintro es τ m rs ⟨bs, hf, h⟩ hp
    obtain ⟨more, hmore, hfed⟩ := hf.closeAt hp
    refine ⟨bs ++ more, hfed, ?_⟩
    cases more with
    | nil => simpa using h.within
    | cons b more =>
        obtain ⟨hs, hone⟩ := hmore b List.mem_cons_self
        rw [hone]
        exact h.within_concat hf hs (.settle m τ) τ

end Capped

end Metric

end EventMetrics
