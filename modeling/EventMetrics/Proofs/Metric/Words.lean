import EventMetrics.Proofs.Metric.Cuts
import EventMetrics.Proofs.Metric.Fed

namespace EventMetrics

open Instant (InRange last)

namespace Metric

/-- The cuts at the end of a bucket, and at that of activity if it ends there, too. -/
def rollCuts (m : Metric) (t : Timing) (slot : Slot) : List Cut :=
  m.intervals.cuts t.aggregation slot.stop (fun _ => false) ++
    if m.active && !m.windows.isActive slot.stop then
      { m.intervals.accrueTo t.aggregation slot.stop with totals := .empty }.cuts t.aggregation slot.stop
        fun _ => false
    else []

def prepareCuts (m : Metric) (t : Timing) (cs : Conditions) (e : Event) (hits : Hits) (u : Condition.Update) :
    List Cut :=
  let changed := m.plan.gate.any fun g => u.isChanged g.condition
  let asked := if changed then m.regate t cs e.time else m
  (if changed then m.intervals.cuts t.aggregation e.time (m.gateOpen cs) else []) ++
    if t.stopAll.any hits.get then asked.intervals.cuts t.aggregation e.time fun _ => false else []

def turnCuts (m : Metric) (t : Timing) (e : Event) (hits : Hits) : List Cut :=
  match hits.get t.start, hits.get t.stop, DimensionKey.extract? e m.plan.dimensions with
  | false, true, some key => m.intervals.stopCuts t.aggregation t.nested e.time key
  | _, _, _ => []

end Metric

namespace Work

def timedCuts (w : Work) (t : Timing) : List Cut :=
  let m := w.metric
  match w.deed with
  | .roll slot => m.rollCuts t slot
  | .activate => m.intervals.cuts t.aggregation w.time ((m.activate w.conditions w.time).gateOpen w.conditions)
  | .deactivate => m.intervals.cuts t.aggregation w.time fun _ => false
  | .measure ev hits u => m.prepareCuts t w.conditions ev hits u ++
      (m.prepareIntervals t w.conditions ev hits u).turnCuts t ev hits
  | .close slot => m.intervals.cuts t.aggregation (max w.time slot.start) fun _ => false

def cuts (w : Work) : List Cut :=
  match w.metric.plan.rule with
  | .timed t => w.timedCuts t
  | _ => []

def opens (w : Work) : Option (Option Slot × Slot) :=
  let m := w.metric
  match w.deed with
  | .activate =>
    if m.plan.isBucketed && m.grid.current.isNone then
      (m.grid.openAt w.time).current.map (m.grid.last, ·)
    else none
  | .roll slot => if m.active && m.windows.isActive slot.stop then some (some slot, m.grid.next slot) else none
  | _ => none

/-- The bucket that opens, if one does, comes after the last one and counts it. -/
def OpensSince (w : Work) (m₀ : Metric) (s : Int) : Prop := ∀ l q, w.opens = some (l, q) →
  Slot.Opens w.metric.grid.size (m₀.windows = [] ∨ q.start - s ≤ last) l q

/-- Words hold what this part reckons with; time is counted from `s`, where the metric `m₀` started. -/
structure InWords (m₀ : Metric) (s : Int) (w : Work) : Prop where
  opens : w.OpensSince m₀ s
  cuts : ∀ c ∈ w.cuts, c.Fits s

theorem fits_cuts {w : Work} {s : Int} (h : ∀ t, w.metric.plan.rule = .timed t → ∀ c ∈ w.timedCuts t, c.Fits s) :
    ∀ c ∈ w.cuts, c.Fits s := by
  intro c hc
  rw [cuts] at hc
  split at hc
  next t hrule => exact h t hrule c hc
  next => cases hc

end Work

namespace Metric

variable {m n m₀ : Metric} {t : Timing} {slot : Slot} {s τ : Int} {floor : Int} {ws : List Work}

section Measuring

variable (cs : Conditions) (ev : Event) (hits : Hits) (u : Condition.Update)
  (h : m.intervals.Contained t.aggregation s floor ev.time)
include h

theorem contained_prepare : (∀ c ∈ m.prepareCuts t cs ev hits u, c.Fits s) ∧
    (m.prepareIntervals t cs ev hits u).intervals.Contained t.aggregation s floor ev.time := by
  rw [prepareCuts, prepareIntervals]
  generalize (m.plan.gate.any fun g => u.isChanged g.condition) = changed
  have hasked : (if changed then m.regate t cs ev.time else m).intervals.Contained t.aggregation s floor ev.time := by
    split
    · exact h.regate (m.gateOpen cs)
    · exact h
  generalize (if changed then m.regate t cs ev.time else m) = asked at hasked ⊢
  refine ⟨List.forall_mem_append.2 ⟨?_, ?_⟩, ?_⟩ <;> split
  · exact h.fits_cuts _
  · simp
  · exact hasked.fits_cuts _
  · simp
  · exact hasked.stopAll
  · exact hasked

theorem contained_turn : (∀ c ∈ m.turnCuts t ev hits, c.Fits s) ∧
    (m.turnInterval t cs ev hits).1.intervals.Contained t.aggregation s floor ev.time := by
  constructor
  · rw [turnCuts]
    split
    · exact h.fits_stopCuts t.nested _
    · simp
  · rcases turnInterval_cases m cs ev hits t with ⟨o, -, hturn⟩ | ⟨key, n, -, -, -, hn, hturn⟩ | ⟨key, hturn⟩ <;>
      rw [hturn]
    · exact h
    · obtain ⟨link, is, -, his, rfl⟩ := (startInterval_eq_ok cs ev).1 hn
      exact h.start his
    · exact h.stop t.nested key

end Measuring

/-- What a metric has gathered, at the last instant at which it did something: all of it in the open bucket, or in
the lives of intervals since `s`. -/
structure Confined (s τ : Int) (m : Metric) : Prop extends Tidy m where
  contained : ∀ t, m.plan.rule = .timed t → ∃ τ₀ ≤ τ, m.intervals.Contained t.aggregation s (m.floor τ₀) τ₀

namespace Confined

theorem congr (h : Confined s τ m) (htidy : Tidy n) (hplan : n.plan = m.plan) (hgrid : n.grid = m.grid)
    (hintervals : n.intervals = m.intervals) : Confined s τ n := by
  refine ⟨htidy, fun t hrule => ?_⟩
  have hfloor : ∀ τ, n.floor τ = m.floor τ := fun τ => by rw [floor, floor, hgrid]
  simp only [hfloor, hintervals]
  exact h.contained t (hplan ▸ hrule)

theorem wait (h : Confined s τ m) {τ' : Int} (hle : τ ≤ τ') : Confined s τ' m :=
  ⟨h.toTidy, fun t hrule => (h.contained t hrule).imp fun _ h => h.imp_left (Int.le_trans · hle)⟩

theorem now (h : Confined s τ m) (hp : Placed τ m) (hrule : m.plan.rule = .timed t) :
    m.intervals.Contained t.aggregation s (m.floor τ) τ := by
  obtain ⟨τ₀, hle, hcontained⟩ := h.contained t hrule
  cases hs : m.grid.current with
  | none =>
      rw [floor_of_none hs] at hcontained ⊢
      exact hcontained.rest (h.rest t hrule (hp.inactive (isBucketed_of_timed hrule) hs)) hle
  | some slot =>
      rw [floor_of_slot hs] at hcontained ⊢
      have hstop := (hp.slot slot hs).2.2.1
      have hlong := hp.stop_le hs
      have hsize := (hp.size (hp.bucketed slot hs)).2
      exact hcontained.wait hle (by omega)

theorem of_now (htidy : Tidy m)
    (h : ∀ t, m.plan.rule = .timed t → m.intervals.Contained t.aggregation s (m.floor τ) τ) : Confined s τ m :=
  ⟨htidy, fun t hrule => ⟨τ, Int.le_refl τ, h t hrule⟩⟩

variable (h : Confined s τ m) (hp : Placed τ m)
include h hp

theorem activate (cs : Conditions) : (∀ c ∈ (Work.mk m cs τ .activate).cuts, c.Fits s) ∧
    Confined s τ (m.activate cs τ) := by
  refine ⟨Work.fits_cuts fun t hrule => (h.now hp hrule).fits_cuts _,
    .of_now (h.toTidy.activate cs τ) fun t hrule => ?_⟩
  rw [activate_plan] at hrule
  rw [activate_timed hrule, floor_activate]
  exact (h.now hp hrule).regate _

theorem deactivate (cs : Conditions) : (∀ c ∈ (Work.mk m cs τ .deactivate).cuts, c.Fits s) ∧
    Confined s τ (m.deactivate τ) := by
  refine ⟨Work.fits_cuts fun t hrule => (h.now hp hrule).fits_cuts fun _ => false,
    .of_now (h.toTidy.deactivate hp.inactive τ) fun t hrule => ?_⟩
  rw [deactivate_plan] at hrule
  rw [deactivate_timed hrule, floor, deactivate_grid]
  exact (h.now hp hrule).regate _

theorem close (cs : Conditions) : ∀ w ∈ m.closeWorks cs τ, ∀ c ∈ w.cuts, c.Fits s := by
  intro w hw
  obtain ⟨slot, hs, rfl⟩ := List.mem_map.1 hw
  refine Work.fits_cuts fun t hrule => ?_
  have hstart := (hp.slot slot (Option.mem_toList.1 hs)).2.1
  have hfits := (h.now hp hrule).fits_cuts fun _ => false
  rw [← Int.max_eq_left hstart] at hfits
  exact hfits

omit h hp in
theorem roll (h : Confined s slot.stop m) (hp : Placed slot.stop m) (hs : m.grid.current = some slot)
    (cs : Conditions) : (∀ c ∈ (Work.mk m cs slot.stop (.roll slot)).cuts, c.Fits s) ∧
    Confined s slot.stop (m.roll cs slot).state := by
  refine ⟨Work.fits_cuts fun t hrule => List.forall_mem_append.2 ⟨(h.now hp hrule).fits_cuts _, ?_⟩,
    .of_now (h.toTidy.roll cs slot) fun t hrule => ?_⟩
  · split
    · exact (h.now hp hrule).clear.fits_cuts _
    · simp
  · rw [roll_plan] at hrule
    rw [roll_timed hrule, floor_roll cs hs]
    split
    · exact (h.now hp hrule).clear.regate _
    · exact (h.now hp hrule).clear

omit h hp in
theorem measure {ev : Event} (h : Confined s ev.time m) (hp : Placed ev.time m) (cs : Conditions) (hits : Hits)
    (u : Condition.Update) : (∀ c ∈ (Work.mk m cs ev.time (.measure ev hits u)).cuts, c.Fits s) ∧
    Confined s ev.time (m.measure cs ev hits u).1.state := by
  have hstill := measure_still m cs ev hits u
  have hplan : (m.measure cs ev hits u).1.state.plan = m.plan := (congrArg Metric.plan hstill :)
  have hgrid : (m.measure cs ev hits u).1.state.grid = m.grid := (congrArg Metric.grid hstill :)
  have hprepared := fun t hrule => contained_prepare (t := t) cs ev hits u (h.now hp hrule)
  have hturned := fun t hrule => contained_turn (t := t) cs ev hits (hprepared t hrule).2
  refine ⟨Work.fits_cuts fun t hrule => List.forall_mem_append.2 ⟨(hprepared t hrule).1, (hturned t hrule).1⟩,
    .of_now (h.toTidy.measure hp cs ev hits u) fun t hrule => ?_⟩
  rw [hplan] at hrule
  rw [measure_timed cs ev hits u hrule] at hgrid ⊢
  rw [floor, hgrid]
  exact (hturned t hrule).2

end Confined

/-- What the trackers are fed with, of buckets that all start after `s`. -/
structure Counted (m₀ : Metric) (s τ : Int) (m : Metric) (rs : List Record) : Prop where
  le : s ≤ τ
  feeds : ∃ bs, Feeds m₀ s bs τ m rs ∧ ∀ q ∈ bs.map (·.slot) ++ m.grid.current.toList, s ≤ q.start

namespace Counted

variable {rs rs' : List Record} {bs : List Ended} {q : Slot}

theorem keep (h : Counted m₀ s τ m rs) (hgrid : n.grid = m.grid)
    (hfeeds : ∀ bs, Feeds m₀ s bs τ m rs → Feeds m₀ s bs τ n rs') : Counted m₀ s τ n rs' :=
  ⟨h.le, h.feeds.imp fun bs h => ⟨hfeeds bs h.1, hgrid ▸ h.2⟩⟩

theorem wait (h : Counted m₀ s τ m rs) {τ' : Int} (hle : τ ≤ τ') : Counted m₀ s τ' m rs :=
  ⟨Int.le_trans h.le hle, h.feeds.imp fun _ h => h.imp_left (·.wait hle)⟩

theorem opens (h : Feeds m₀ s bs τ n rs) (hq : n.grid.current = some q) (hsince : ∀ p ∈ bs.map (·.slot), s ≤ p.start)
    (hstart : s ≤ q.start) : Slot.Opens m₀.grid.size (m₀.windows = [] ∨ q.start - s ≤ last)
      (bs.map (·.slot)).getLast? q ∧ ∀ p ∈ bs.map (·.slot) ++ n.grid.current.toList, s ≤ p.start := by
  have hnumbered := h.numbered
  have hunbroken := h.unbroken
  rw [hq, Option.toList_some] at hnumbered hunbroken ⊢
  have hstarts := List.forall_mem_append.2 ⟨hsince, List.forall_mem_singleton.2 hstart⟩
  exact ⟨hnumbered.opens hstarts fun hw => (hunbroken hw).near, hstarts⟩

theorem activated {cs : Conditions} (h : Feeds m₀ s bs τ (m.activate cs τ) rs) (hsize : m.grid.size = m₀.grid.size)
    (hlast : m.grid.current = none → m.grid.last = (bs.map (·.slot)).getLast?) (hle : s ≤ τ)
    (hsince : ∀ q ∈ bs.map (·.slot) ++ m.grid.current.toList, s ≤ q.start) :
    (Work.mk m cs τ .activate).OpensSince m₀ s ∧ Counted m₀ s τ (m.activate cs τ) rs := by
  have hgrid := activate_grid m cs τ
  split at hgrid
  next hopen =>
    have hs : m.grid.current = none := by simpa using (Bool.and_eq_true_iff.1 hopen).2
    rw [hs, Option.toList_none, List.append_nil] at hsince
    obtain ⟨hopens, hsince⟩ := opens h (by rw [hgrid, Grid.openAt]) hsince hle
    refine ⟨fun l q hopened => ?_, hle, bs, h, hsince⟩
    simp only [Work.opens, hopen, if_true, Grid.openAt, Option.map_some, Option.some.injEq, Prod.mk.injEq] at hopened
    obtain ⟨rfl, rfl⟩ := hopened
    rw [hlast hs]
    exact hsize ▸ hopens
  next hopen =>
    refine ⟨fun l q hopened => ?_, hle, bs, h, hgrid ▸ hsince⟩
    simp [Work.opens, hopen] at hopened

theorem activate (h : Counted m₀ s τ m rs) (hp : Placed τ m) (hpass : Passes τ m) (hidle : m.active = false)
    (hactive : m.windows.isActive τ = true) (cs : Conditions) :
    (Work.mk m cs τ .activate).OpensSince m₀ s ∧ Counted m₀ s τ (m.activate cs τ) rs := by
  obtain ⟨hle, bs, hfeeds, hsince⟩ := h
  exact activated (hfeeds.activate hp hpass hidle hactive cs) hfeeds.size (fun hs => (hfeeds.grid hs).1) hle hsince

theorem roll (h : Counted m₀ s slot.stop m rs) (hp : Placed slot.stop m) (hs : m.grid.current = some slot)
    (hpass : Passes slot.stop m) (cs : Conditions) : (Work.mk m cs slot.stop (.roll slot)).OpensSince m₀ s ∧
      Counted m₀ s slot.stop (m.roll cs slot).state (rs ++ (m.roll cs slot).records) := by
  obtain ⟨hle, bs, hfeeds, hsince⟩ := h
  have hnext := hfeeds.roll hp hs hpass cs
  have hgrid := roll_grid m cs slot
  have hslots : ∀ p ∈ (bs ++ [(⟨slot, slot.stop, (m.accrue slot.stop).rows⟩ : Ended)]).map (·.slot), s ≤ p.start := by
    rwa [List.map_append, List.map_singleton, ← Option.toList_some, ← hs]
  split at hgrid
  next hgo =>
    rw [Grid.roll, hs] at hgrid
    obtain ⟨hopens, hsince⟩ := opens hnext (by rw [hgrid]) hslots hle
    refine ⟨fun l q hopened => ?_, hle, _, hnext, hsince⟩
    simp only [Work.opens, hgo, if_true, Option.some.injEq, Prod.mk.injEq] at hopened
    obtain ⟨rfl, rfl⟩ := hopened
    rw [List.map_append, List.map_singleton, List.getLast?_concat] at hopens
    exact hfeeds.size ▸ hopens
  next hgo =>
    rw [Grid.close, hs] at hgrid
    refine ⟨fun l q hopened => ?_, hle, _, hnext, by rwa [hgrid, Option.toList_none, List.append_nil]⟩
    simp [Work.opens, hgo] at hopened

end Counted

/-- What a metric has gathered and counted, and that words held it along the way. -/
structure Worded (m₀ : Metric) (s : Int) (ws : List Work) (τ : Int) (m : Metric) (rs : List Record) : Prop extends
    Confined s τ m, Counted m₀ s τ m rs where
  works : ∀ w ∈ ws, w.InWords m₀ s

namespace Worded

variable {rs : List Record}

theorem concat (h : ∀ w ∈ ws, w.InWords m₀ s) {w : Work} (hopens : w.OpensSince m₀ s) (hcuts : ∀ c ∈ w.cuts, c.Fits s) :
    ∀ v ∈ ws ++ [w], v.InWords m₀ s :=
  List.forall_mem_append.2 ⟨h, List.forall_mem_singleton.2 ⟨hopens, hcuts⟩⟩

theorem logged (ms : Matchers) (m₀ : Metric) (s : Int) : Logged ms (Worded m₀ s) where
  wait h hle := ⟨h.toConfined.wait hle, h.toCounted.wait hle, h.works⟩
  roll cs h hp hs hpass := by
    obtain ⟨hcuts, hconfined⟩ := h.toConfined.roll hp hs cs
    obtain ⟨hopens, hcounted⟩ := h.toCounted.roll hp hs hpass cs
    exact ⟨hconfined, hcounted, concat h.works hopens hcuts⟩
  activate cs h hp hpass hidle hactive := by
    obtain ⟨hcuts, hconfined⟩ := h.toConfined.activate hp cs
    obtain ⟨hopens, hcounted⟩ := h.toCounted.activate hp hpass hidle hactive cs
    exact ⟨hconfined, hcounted, concat h.works hopens hcuts⟩
  deactivate {_ τ m _} cs h hp hidle := by
    obtain ⟨hcuts, hconfined⟩ := h.toConfined.deactivate hp cs
    exact ⟨hconfined, h.toCounted.keep (deactivate_grid m τ) fun _ h => h.deactivate hidle,
      concat h.works (fun _ _ hopens => by cases hopens) hcuts⟩
  watch hits h := ⟨h.toConfined.congr (h.toTidy.congr rfl rfl rfl rfl rfl) rfl rfl rfl,
    h.toCounted.keep rfl fun _ h => h.watch _ hits, h.works⟩
  measure {_ m _} cs ev u h hon _ := by
    obtain ⟨hcuts, hconfined⟩ := h.toConfined.measure hon.toPlaced cs (ms.judge ev) u
    have hgrid := (congrArg Metric.grid (measure_still m cs ev (ms.judge ev) u) :)
    exact ⟨hconfined, h.toCounted.keep hgrid fun _ h => h.measure cs _ u,
      concat h.works (fun _ _ hopens => by cases hopens) hcuts⟩
  note o h := by
    cases o <;> exact ⟨h.toConfined.congr (h.toTidy.note _) rfl rfl rfl,
      h.toCounted.keep rfl fun _ h => h.note _, h.works⟩
  flushPending {_ _ m _} h := by
    have hbody := body_flushPending m
    exact ⟨h.toConfined.congr h.toTidy.flushPending (congrArg Metric.plan hbody :) (congrArg Metric.grid hbody :)
      (congrArg Metric.intervals hbody :), h.toCounted.keep (congrArg Metric.grid hbody :) fun _ h => h.flushPending,
      h.works⟩

theorem settles (m₀ : Metric) (s : Int) : Settles (Worded m₀ s) fun ws _ _ => ∀ w ∈ ws, w.InWords m₀ s where
  rest h _ := h.works
  close {_ _ m _} cs h hp := by
    refine List.forall_mem_append.2 ⟨h.works, fun w hw => ⟨fun l q hopens => ?_, h.toConfined.close hp cs w hw⟩⟩
    obtain ⟨slot, -, rfl⟩ := List.mem_map.1 hw
    cases hopens

theorem start (hm : Fresh m₀) (hlast : m₀.grid.last = none) (hs : InRange s) (cs : Conditions) :
    Worded m₀ s (m₀.startWorks cs s) s (m₀.start cs s) [] := by
  have hconfined : Confined s s m₀ := .of_now (.of_fresh hm) fun t _ => by
    rw [hm.intervals, floor_of_none hm.current]
    exact .empty (Int.le_refl s)
  have hfeeds := Feeds.start hm hlast hs cs
  have hnone : ∀ q ∈ ([] : List Ended).map (·.slot) ++ m₀.grid.current.toList, s ≤ q.start := by simp [hm.current]
  rw [startWorks]
  rw [Metric.start] at hfeeds ⊢
  split at hfeeds
  next hactive =>
    rw [if_pos hactive, if_pos hactive]
    obtain ⟨hcuts, hactivated⟩ := hconfined.activate (hm.placed hs) cs
    obtain ⟨hopens, hcounted⟩ := Counted.activated hfeeds rfl (fun _ => hlast) (Int.le_refl s) hnone
    exact ⟨hactivated, hcounted, List.forall_mem_singleton.2 ⟨hopens, hcuts⟩⟩
  next hidle =>
    rw [if_neg hidle, if_neg hidle]
    exact ⟨hconfined, ⟨Int.le_refl s, [], hfeeds, hnone⟩, by simp⟩

end Worded

end Metric

end EventMetrics
