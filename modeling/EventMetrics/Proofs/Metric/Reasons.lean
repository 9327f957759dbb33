import EventMetrics.Proofs.Metric.Fed
import EventMetrics.Proofs.Metric.Verdicts

namespace EventMetrics

open Instant (last)
open Record (HasSlot hasSlot_prolong hasSlot_skipped)

namespace Work

def isSample (w : Work) : Bool :=
  match w.deed with
  | .measure _ hits _ => w.metric.active && w.metric.plan.rule.what?.any hits.get
  | _ => false

/-- A sample is dropped because the condition is unknown. -/
def Unknown (w : Work) : Prop := w.isSample = true ∧ w.outcome? = some (.dropped .conditionUnknown)

def In (size i : Int) (w : Work) : Prop := i ≤ w.time ∧ w.time < Instant.after i size

instance (size i : Int) (w : Work) : Decidable (w.In size i) := inferInstanceAs (Decidable (_ ∧ _))

def UnknownIn (size i : Int) (ws : List Work) : Prop := ∃ w ∈ ws, w.Unknown ∧ w.In size i

variable {size i : Int} {ws : List Work} {w : Work}

theorem unknownIn_concat : UnknownIn size i (ws ++ [w]) ↔ UnknownIn size i ws ∨ w.Unknown ∧ w.In size i := by
  simp [UnknownIn, or_and_right, exists_or]

theorem unknown_measure {m : Metric} {cs : Conditions} {time : Int} {ev : Event} {hits : Hits} {u : Condition.Update} :
    Unknown ⟨m, cs, time, .measure ev hits u⟩ ↔ (m.measure cs ev hits u).2 = .dropped .conditionUnknown := by
  refine ⟨fun h => Option.some.inj h.2, fun h => ⟨?_, congrArg some h⟩⟩
  obtain ⟨ha, hsample⟩ := (m.measure_unknown cs ev hits u).1 h
  simp only [isSample, ha, hsample, Bool.and_self]

theorem not_unknown_of_event? (h : w.event? = none) : ¬ w.Unknown := by
  rintro ⟨hsample, -⟩
  rw [isSample] at hsample
  rw [event?] at h
  split at hsample
  next hdeed => simp [hdeed] at h
  next => cases hsample

theorem unknownIn_append {more : List Work} (h : events more = []) :
    UnknownIn size i (ws ++ more) ↔ UnknownIn size i ws := by
  have hnone : ∀ w ∈ more, ¬ w.Unknown := fun w hw => not_unknown_of_event? (List.filterMap_eq_nil_iff.1 h w hw)
  simp only [UnknownIn, List.mem_append]
  constructor
  · rintro ⟨w, hw | hw, hunknown, hin⟩
    · exact ⟨w, hw, hunknown, hin⟩
    · exact absurd hunknown (hnone w hw)
  · rintro ⟨w, hw, h⟩
    exact ⟨w, .inl hw, h⟩

end Work

namespace Metric

open Work (UnknownIn unknownIn_concat unknownIn_append not_unknown_of_event?)

variable {m n m₀ : Metric} {slot : Slot} {stop size s τ i : Int} {rs out : List Record}
  {pending : Option Record.Skipped} {ws : List Work}

/-- What is true of each slot of the empty stretches and of their reasons. -/
def Skips (size : Int) (rs : List Record) (E : Int → SkipReason → Prop) : Prop :=
  ∀ g, .skipped g ∈ rs → ∀ i, HasSlot size i (.skipped g) → E i g.reason

theorem Skips.mono {E E' : Int → SkipReason → Prop} (h : Skips size rs E) (hE : ∀ i r, E i r → E' i r) :
    Skips size rs E' := fun g hg i hi => hE i _ (h g hg i hi)

theorem Closes.skips {E : Int → SkipReason → Prop} (h : Closes m slot stop out pending)
    (hwhole : ∀ g, m.pending = some g → g.stop = slot.start → g.stop = g.start + g.buckets * size)
    (hold : Skips size (rs ++ m.owed) E) (hnew : E slot.start m.skipReason) :
    Skips size (rs ++ (out ++ pending.toList.map .skipped)) E := by
  intro g hg i hi
  cases h with
  | rows alerts hrows hfired =>
      refine hold g ?_ i hi
      simpa [ofRows, or_assoc] using hg
  | @join g₀ hrows hs hjoin =>
      simp only [Option.toList_some, List.map_cons, List.map_nil, List.nil_append, List.mem_append,
        List.mem_singleton, Record.skipped.injEq] at hg
      rcases hg with hg | rfl
      · exact hold g (List.mem_append_left _ hg) i hi
      · have howed : .skipped g₀ ∈ rs ++ m.owed := List.mem_append_right _ (by simp [owed, hs])
        rcases hasSlot_prolong.1 hi with hi | rfl
        · exact hold g₀ howed i hi
        · have hend := hwhole g₀ hs hjoin.1
          have hstart : g₀.stop = slot.start := hjoin.1
          have hreason : g₀.reason = m.skipReason := hjoin.2
          dsimp only
          rwa [← hend, hstart, hreason]
  | fresh hrows hnot =>
      simp only [Option.toList_some, List.map_cons, List.map_nil, ← List.append_assoc, List.mem_append,
        List.mem_singleton, Record.skipped.injEq] at hg
      rcases hg with hg | rfl
      · exact hold g (List.mem_append.2 hg) i hi
      · obtain ⟨j, hj, rfl⟩ := hasSlot_skipped.1 hi
        obtain rfl : j = 0 := Nat.lt_one_iff.1 hj
        simpa [void] using hnew

theorem skipReason_eq : m.skipReason = .conditionUnknown ↔ 0 < m.unknownDrops := by
  rw [skipReason]
  split <;> simp [*]

theorem onIntervals_skipReason (f : Timing → Intervals → Intervals) : (m.onIntervals f).skipReason = m.skipReason := by
  rw [skipReason, skipReason, onIntervals_unknownDrops]

theorem activate_unknownDrops (m : Metric) (cs : Conditions) (time : Int) :
    (m.activate cs time).unknownDrops = m.unknownDrops := onIntervals_unknownDrops _ _

theorem deactivate_unknownDrops (m : Metric) (time : Int) : (m.deactivate time).unknownDrops = m.unknownDrops :=
  onIntervals_unknownDrops _ _

theorem roll_unknownDrops (m : Metric) (cs : Conditions) (slot : Slot) : (m.roll cs slot).state.unknownDrops = 0 := by
  have hproceed : ∀ n : Metric, (n.proceed cs slot).unknownDrops = n.unknownDrops := fun n => by
    rcases proceed_cases n cs slot with h | h | h <;> simp [h, openWindow, deactivate_unknownDrops]
  exact (congrArg Metric.unknownDrops (body_roll m cs slot) :).trans (hproceed _)

/-- What is known of each slot: those of the empty stretches are over and have their reasons, and the count of
the open one tells of it. -/
structure Reasons (size : Int) (ws : List Work) (τ : Int) (m : Metric) (rs : List Record) : Prop where
  skips : Skips size (rs ++ m.owed) fun i r => Instant.after i size ≤ τ ∧ (r = .conditionUnknown ↔ UnknownIn size i ws)
  current : ∀ slot, m.grid.current = some slot →
    (0 < m.unknownDrops ↔ UnknownIn size slot.start ws) ∧ ∀ w ∈ ws, w.Unknown → w.time < slot.stop
  idle : m.plan.isBucketed = true → m.grid.current = none →
    m.unknownDrops = 0 ∧ ∀ w ∈ ws, w.Unknown → w.time < τ

namespace Reasons

theorem wait (h : Reasons size ws τ m rs) {τ' : Int} (hle : τ ≤ τ') : Reasons size ws τ' m rs where
  skips := h.skips.mono fun _ _ hi => hi.imp_left (Int.le_trans · hle)
  current := h.current
  idle hb hs := (h.idle hb hs).imp_right fun hpast w hw hunknown => Int.lt_of_lt_of_le (hpast w hw hunknown) hle

theorem congr (h : Reasons size ws τ m rs) (hplan : n.plan = m.plan) (hgrid : n.grid = m.grid)
    (hdrops : n.unknownDrops = m.unknownDrops) (hpending : n.pending = m.pending) : Reasons size ws τ n rs := by
  have howed := owed_congr hpending
  exact ⟨howed ▸ h.skips, hgrid ▸ hdrops ▸ h.current, hplan ▸ hgrid ▸ hdrops ▸ h.idle⟩

theorem concat (h : Reasons size ws τ m rs) {w : Work} (hw : w.event? = none) : Reasons size (ws ++ [w]) τ m rs := by
  have hunknown := not_unknown_of_event? hw
  have hiff : ∀ i, UnknownIn size i (ws ++ [w]) ↔ UnknownIn size i ws := fun i => by
    simp [unknownIn_concat, hunknown]
  have hall : ∀ t, (∀ v ∈ ws, v.Unknown → v.time < t) → ∀ v ∈ ws ++ [w], v.Unknown → v.time < t := by
    intro t hpast v hv hknown
    rcases List.mem_append.1 hv with hv | hv
    · exact hpast v hv hknown
    · exact absurd (List.mem_singleton.1 hv ▸ hknown) hunknown
  exact ⟨h.skips.mono fun i _ hi => hi.imp_right fun hi => by rw [hi, hiff],
    fun slot hs => ⟨by rw [hiff, (h.current slot hs).1], hall _ (h.current slot hs).2⟩,
    fun hb hs => (h.idle hb hs).imp_right (hall _)⟩

theorem flushPending (h : Reasons size ws τ m rs) :
    Reasons size ws τ m.flushPending.state (rs ++ m.flushPending.records) := by
  have hbody := body_flushPending m
  have hgrid : m.flushPending.state.grid = m.grid := (congrArg Metric.grid hbody :)
  have hplan : m.flushPending.state.plan = m.plan := (congrArg Metric.plan hbody :)
  have hdrops : m.flushPending.state.unknownDrops = m.unknownDrops := (congrArg Metric.unknownDrops hbody :)
  refine ⟨?_, hgrid ▸ hdrops ▸ h.current, hplan ▸ hgrid ▸ hdrops ▸ h.idle⟩
  rw [List.append_assoc, flushPending_owed]
  exact h.skips

theorem activate (h : Reasons size ws τ m rs) (hp : Placed τ m) (cs : Conditions) :
    Reasons size ws τ (m.activate cs τ) rs := by
  have hgrid := activate_grid m cs τ
  split at hgrid
  next hopen =>
    simp only [Bool.and_eq_true, Option.isNone_iff_eq_none] at hopen
    obtain ⟨hdrops, hpast⟩ := h.idle hopen.1 hopen.2
    refine ⟨owed_congr (activate_pending m cs τ) ▸ h.skips, fun slot hs => ?_, by simp [hgrid, Grid.openAt]⟩
    have hlong := ((hp.activate cs).slot slot hs).2.2.1
    rw [hgrid] at hs
    cases hs
    rw [activate_unknownDrops, hdrops]
    refine ⟨iff_of_false (Nat.lt_irrefl 0) ?_, fun w hw hunknown => Int.lt_of_lt_of_le (hpast w hw hunknown) hlong⟩
    rintro ⟨w, hw, hunknown, hin⟩
    exact Int.not_lt.2 hin.1 (hpast w hw hunknown)
  next => exact h.congr (activate_plan m cs τ) hgrid (activate_unknownDrops m cs τ) (activate_pending m cs τ)

theorem roll (h : Reasons size ws slot.stop m rs) (hp : Placed slot.stop m) (hs : m.grid.current = some slot)
    (hpass : Passes slot.stop m) (hsize : m.grid.size = size)
    (hwhole : ∀ g, m.pending = some g → g.stop = slot.start → g.stop = g.start + g.buckets * size) (cs : Conditions) :
    Reasons size ws slot.stop (m.roll cs slot).state (rs ++ (m.roll cs slot).records) := by
  obtain ⟨hcount, hpast⟩ := h.current slot hs
  have hstop := (hp.slot slot hs).2.2.2
  have hdrops := roll_unknownDrops m cs slot
  refine ⟨?_, fun next hnext => ?_, fun _ _ => ⟨hdrops, hpast⟩⟩
  · rw [List.append_assoc]
    refine (roll_closes m cs slot).skips (fun g hg => hwhole g ((m.onIntervals_pending _) ▸ hg)) ?_ ⟨?_, ?_⟩
    · rw [accrue_owed]
      exact h.skips
    · rw [← hsize, ← hstop]
    · rw [accrue, onIntervals_skipReason, skipReason_eq, hcount]
  · rcases (Feeds.roll_current hp hs hpass cs).2 with hnone | ⟨hopen, hlast⟩
    · rw [hnone] at hnext
      cases hnext
    · cases hopen.symm.trans hnext
      have hlong : slot.stop < (m.grid.next slot).stop := Instant.lt_after hlast (hp.size (hp.bucketed slot hs)).1
      rw [hdrops]
      refine ⟨iff_of_false (Nat.lt_irrefl 0) ?_, fun w hw hunknown => Int.lt_trans (hpast w hw hunknown) hlong⟩
      rintro ⟨w, hw, hunknown, hin⟩
      exact Int.not_lt.2 hin.1 (hpast w hw hunknown)

theorem measure {ev : Event} (h : Reasons size ws ev.time m rs) (hp : Placed ev.time m) (hquiet : Quiet ev.time m)
    (hsize : m.grid.size = size) (cs : Conditions) (hits : Hits) (u : Condition.Update) :
    Reasons size (ws ++ [⟨m, cs, ev.time, .measure ev hits u⟩]) ev.time (m.measure cs ev hits u).1.state
      (rs ++ (m.measure cs ev hits u).1.records) := by
  have hstill := measure_still m cs ev hits u
  have hgrid : (m.measure cs ev hits u).1.state.grid = m.grid := (congrArg Metric.grid hstill :)
  have howed : (m.measure cs ev hits u).1.state.owed = m.owed := owed_congr (congrArg Metric.pending hstill :)
  obtain ⟨hsample, hdrops⟩ := m.measure_unknown cs ev hits u
  have hunknown : (Work.mk m cs ev.time (.measure ev hits u)).Unknown ↔ _ := Work.unknown_measure
  refine ⟨fun g hg i hi => ?_, fun slot hs => ?_, fun hb hs => ?_⟩
  · have hold : .skipped g ∈ rs ++ m.owed := by
      rw [howed, List.append_assoc] at hg
      simp only [List.mem_append] at hg ⊢
      refine hg.imp_right fun hg => hg.resolve_left fun hg => ?_
      obtain ⟨key, hevent⟩ := measure_records hg
      cases hevent
    obtain ⟨hover, hreason⟩ := h.skips g hold i hi
    refine ⟨hover, ?_⟩
    rw [hreason, unknownIn_concat, or_iff_left]
    exact fun hnew => Int.not_lt.2 hover hnew.2.2
  · rw [hgrid] at hs
    obtain ⟨hcount, hpast⟩ := h.current slot hs
    obtain ⟨-, hstart, -, hstop⟩ := hp.slot slot hs
    have hlt := hquiet.lt_stop hs
    rw [hdrops, unknownIn_concat, ← hcount, hunknown]
    refine ⟨?_, fun w hw hknown => ?_⟩
    · split
      next hdropped => exact iff_of_true (Nat.succ_pos _) (.inr ⟨hdropped, hstart, hsize ▸ hstop ▸ hlt⟩)
      next hdropped => simp [hdropped]
    · rcases List.mem_append.1 hw with hw | hw
      · exact hpast w hw hknown
      · exact List.mem_singleton.1 hw ▸ hlt
  · have hplan : (m.measure cs ev hits u).1.state.plan = m.plan := (congrArg Metric.plan hstill :)
    rw [hplan] at hb
    rw [hgrid] at hs
    obtain ⟨hnone, hpast⟩ := h.idle hb hs
    -- without an open slot the metric is not active, and meets no samples
    have hnot : (m.measure cs ev hits u).2 ≠ .dropped .conditionUnknown := fun hdropped =>
      hp.covered (hsample hdropped).1 hb hs
    refine ⟨by rw [hdrops, hnone, if_neg hnot], fun w hw hknown => ?_⟩
    rcases List.mem_append.1 hw with hw | hw
    · exact hpast w hw hknown
    · exact absurd (hunknown.1 (List.mem_singleton.1 hw ▸ hknown)) hnot

/-- All that a metric does keeps up what is known of its slots. -/
theorem logged (ms : Matchers) (m₀ : Metric) (s : Int) : Logged ms fun ws τ m rs =>
    (∃ bs, Feeds m₀ s bs τ m rs) ∧ Reasons m₀.grid.size ws τ m rs where
  wait h hle := ⟨h.1.imp fun _ h => h.wait hle, h.2.wait hle⟩
  roll {ws _ _ _} cs h hp hs hpass := by
    obtain ⟨bs, hfeeds⟩ := h.1
    exact ⟨⟨_, hfeeds.roll hp hs hpass cs⟩, (h.2.roll hp hs hpass hfeeds.size (hfeeds.whole_at hs) cs).concat rfl⟩
  activate cs h hp hpass hidle hactive :=
    ⟨h.1.imp fun _ h => h.activate hp hpass hidle hactive cs, (h.2.activate hp cs).concat rfl⟩
  deactivate {_ τ m _} cs h hp hidle := ⟨h.1.imp fun _ h => h.deactivate hidle,
    (h.2.congr (deactivate_plan m τ) (deactivate_grid m τ) (deactivate_unknownDrops m τ)
      (deactivate_pending m τ)).concat rfl⟩
  watch hits h := ⟨h.1.imp fun _ h => h.watch _ hits, h.2.congr rfl rfl rfl rfl⟩
  measure cs ev u h hon hquiet := by
    obtain ⟨bs, hfeeds⟩ := h.1
    exact ⟨⟨bs, hfeeds.measure cs _ u⟩, h.2.measure hon.toPlaced hquiet hfeeds.size cs _ u⟩
  note o h := ⟨h.1.imp fun _ h => h.note o, by cases o <;> exact h.2.congr rfl rfl rfl rfl⟩
  flushPending h := ⟨h.1.imp fun _ h => h.flushPending, h.2.flushPending⟩

/-- In the end each slot of an empty stretch has its reason. -/
theorem settles (m₀ : Metric) (s : Int) : Settles
    (fun ws τ m rs => (∃ bs, Feeds m₀ s bs τ m rs) ∧ Reasons m₀.grid.size ws τ m rs)
    fun ws _ rs => Skips m₀.grid.size rs fun i r => r = .conditionUnknown ↔ UnknownIn m₀.grid.size i ws where
  rest {_ _ _ rs} h hpending := by
    have hskips := h.2.skips.mono fun _ _ hi => hi.2
    rwa [owed, hpending, Option.toList_none, List.map_nil, List.append_nil] at hskips
  close {ws τ m rs} cs h hp := by
    obtain ⟨⟨bs, hfeeds⟩, h⟩ := h
    have hold := h.skips.mono fun _ _ hi => hi.2
    simp only [unknownIn_append (events_closeWorks m cs τ), Emitting.andThen_records, flushPending_records]
    cases hs : m.grid.current with
    | none => rwa [closeAt_of_none hs, List.nil_append]
    | some slot =>
        rcases closeAt_closes hs (hp.slot slot hs).2.1 with ⟨hcloses, -⟩ | ⟨-, -, hnone, hsame⟩
        · refine hcloses.skips (fun g hg => hfeeds.whole_at hs g ((m.onIntervals_pending _) ▸ hg)) ?_ ?_
          · rwa [settle_owed]
          · rw [settle, onIntervals_skipReason, skipReason_eq, (h.current slot hs).1]
        · rwa [hnone, List.nil_append, owed_congr hsame]

theorem start (hp : Placed τ m) (hs : m.grid.current = none) (hpending : m.pending = none) (hdrops : m.unknownDrops = 0)
    (cs : Conditions) : Reasons m.grid.size (m.startWorks cs τ) τ (m.start cs τ) [] := by
  have hbefore : Reasons m.grid.size [] τ m [] :=
    ⟨by simp [Skips, owed, hpending], by simp [hs], by simp [hdrops]⟩
  rw [startWorks, Metric.start]
  split
  · exact (hbefore.activate hp cs).concat rfl
  · exact hbefore

end Reasons

end Metric

end EventMetrics
