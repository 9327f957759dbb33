import EventMetrics.Proofs.Metric.Flushing

namespace EventMetrics.Metric

open Ended (feedings feedAll reports reportAll)
open Instant (last)
open Record (Lays flushed flushed_append lays_append)
open Slot (Numbered Unbroken)

variable {m n m₀ : Metric} {slot : Slot} {stop s τ i : Int} {rs out : List Record} {bs : List Ended} {b : Ended}
  {slots : List Slot} {pending : Option Record.Skipped}

/-- The metric `m₀` started at `s` and has become `m`; the buckets `bs` have ended and are all that was
reported and fed to trackers. The slots so far are numbered. -/
structure Fed (m₀ : Metric) (s : Int) (slots : List Slot) (bs : List Ended) (m : Metric) (rs : List Record) :
    Prop where
  trackers : m.trackers = feedAll m₀.trackers bs
  records : flushed rs = reportAll m₀ m₀.trackers bs
  lays : ∀ i, Lays m₀.grid.size i rs ↔ ∃ b ∈ bs, b.slot.start = i
  inside : ∀ b ∈ bs, b.slot.start ≤ b.stop ∧ b.stop ≤ b.slot.stop
  apart : ∀ b ∈ bs, b.rows.Pairwise fun x y => x.key.canonical ≠ y.key.canonical
  numbered : Numbered m₀.grid.size slots
  unbroken : m₀.windows = [] → Unbroken s slots

/-- While the metric works, a bucket may be open, and empty ones may be yet to report. -/
structure Feeds (m₀ : Metric) (s : Int) (bs : List Ended) (τ : Int) (m : Metric) (rs : List Record) : Prop extends
    Fed m₀ s (bs.map (·.slot) ++ m.grid.current.toList) bs m (rs ++ m.owed) where
  plan : m.plan = m₀.plan
  size : m.grid.size = m₀.grid.size
  free : m₀.windows = [] → m.windows = [] ∧ m.active = true
  grid : m.grid.current = none → m.grid.last = (bs.map (·.slot)).getLast? ∧ ∀ l ∈ m.grid.last, l.stop ≤ τ
  whole : ∀ g, m.pending = some g → bs ≠ [] ∧ (g.stop < last → g.stop = g.start + g.buckets * m₀.grid.size)

theorem Fed.of_append {more : List Slot} (h : Fed m₀ s (slots ++ more) bs m rs) : Fed m₀ s slots bs m rs :=
  ⟨h.trackers, h.records, h.lays, h.inside, h.apart, h.numbered.of_append, fun hw => (h.unbroken hw).of_append⟩

theorem Fed.fresh (m₀ : Metric) (s : Int) : Fed m₀ s [] [] m₀ [] :=
  ⟨(Ended.feedAll_nil _).symm, rfl, by simp [Lays], by simp, by simp, .nil _, fun _ => ⟨by simp, .nil⟩⟩

theorem Fed.rows_at (h : Fed m₀ s (bs.map (·.slot)) bs m rs) (hb : b ∈ bs) :
    (Record.buckets rs).filter (·.start = b.slot.start) = b.rows.map (m₀.toBucket b.slot b.stop) := by
  have hstarts := List.pairwise_map.1 h.numbered.starts
  have hrow : ∀ (c : Ended), ∀ r ∈ c.rows.map (m₀.toBucket c.slot c.stop), r.start = c.slot.start := by
    intro c r hr
    obtain ⟨row, -, rfl⟩ := List.mem_map.1 hr
    rfl
  have hother : ∀ c : Ended, c.slot.start ≠ b.slot.start →
      (c.rows.map (m₀.toBucket c.slot c.stop)).filter (·.start = b.slot.start) = [] := fun c hne =>
    List.filter_eq_nil_iff.2 fun r hr heq => hne ((hrow c r hr).symm.trans (of_decide_eq_true heq))
  rw [← Record.buckets_flushed, h.records, Ended.buckets_reportAll, List.filter_flatMap]
  clear h
  induction bs with
  | nil => cases hb
  | cons c bs ih =>
      obtain ⟨hfirst, hrest⟩ := List.pairwise_cons.1 hstarts
      rw [List.flatMap_cons]
      rcases List.mem_cons.1 hb with rfl | hmem
      · have hnone : bs.flatMap (fun c =>
            (c.rows.map (m₀.toBucket c.slot c.stop)).filter (·.start = b.slot.start)) = [] :=
          List.flatMap_eq_nil_iff.2 fun c hc => hother c (Int.ne_of_gt (hfirst c hc))
        rw [hnone, List.append_nil]
        exact List.filter_eq_self.2 fun r hr => decide_eq_true (hrow b r hr)
      · rw [hother c (Int.ne_of_lt (hfirst b hmem)), List.nil_append]
        exact ih hmem hrest

theorem Fed.mem_rows (h : Fed m₀ s (bs.map (·.slot)) bs m rs) {r : Record.Bucket} (hr : r ∈ Record.buckets rs) :
    ∃ b ∈ bs, r.start = b.slot.start := by
  rw [← Record.buckets_flushed, h.records, Ended.buckets_reportAll] at hr
  obtain ⟨b, hb, hr⟩ := List.mem_flatMap.1 hr
  obtain ⟨row, -, rfl⟩ := List.mem_map.1 hr
  exact ⟨b, hb, rfl⟩

theorem Fed.rows_cases (h : Fed m₀ s (bs.map (·.slot)) bs m rs) (i : Int) :
    (Record.buckets rs).filter (·.start = i) = [] ∨
      ∃ b ∈ bs, (Record.buckets rs).filter (·.start = i) = b.rows.map (m₀.toBucket b.slot b.stop) := by
  by_cases hnone : (Record.buckets rs).filter (·.start = i) = []
  · exact .inl hnone
  · obtain ⟨r, hr⟩ := List.exists_mem_of_ne_nil _ hnone
    obtain ⟨hr, hi⟩ := List.mem_filter.1 hr
    obtain ⟨b, hb, hstart⟩ := h.mem_rows hr
    obtain rfl : i = b.slot.start := (of_decide_eq_true hi).symm.trans hstart
    exact .inr ⟨b, hb, h.rows_at hb⟩

namespace Feeds

theorem congr (h : Feeds m₀ s bs τ m rs) (hplan : n.plan = m.plan) (hgrid : n.grid = m.grid)
    (hpending : n.pending = m.pending) (htrackers : n.trackers = m.trackers)
    (hfree : m₀.windows = [] → n.windows = [] ∧ n.active = true) : Feeds m₀ s bs τ n rs := by
  have howed := owed_congr hpending
  refine ⟨⟨htrackers ▸ h.trackers, howed ▸ h.records, howed ▸ h.lays, h.inside, h.apart, hgrid ▸ h.numbered,
    hgrid ▸ h.unbroken⟩, hplan ▸ h.plan, hgrid ▸ h.size, hfree, hgrid ▸ h.grid, hpending ▸ h.whole⟩

theorem wait (h : Feeds m₀ s bs τ m rs) {τ' : Int} (hle : τ ≤ τ') : Feeds m₀ s bs τ' m rs where
  toFed := h.toFed
  plan := h.plan
  size := h.size
  free := h.free
  grid hs := (h.grid hs).imp_right fun hlast l hl => Int.le_trans (hlast l hl) hle
  whole := h.whole

theorem deactivate (h : Feeds m₀ s bs τ m rs) (hidle : m.windows.isActive τ = false) :
    Feeds m₀ s bs τ (m.deactivate τ) rs :=
  h.congr (deactivate_plan m τ) (deactivate_grid m τ) (deactivate_pending m τ) (deactivate_trackers m τ) fun hw => by
    simp [(h.free hw).1, Activations.isActive] at hidle

theorem activate (h : Feeds m₀ s bs τ m rs) (hp : Placed τ m) (hpass : Passes τ m) (hidle : m.active = false)
    (hactive : m.windows.isActive τ = true) (cs : Conditions) : Feeds m₀ s bs τ (m.activate cs τ) rs := by
  have hfree : m₀.windows ≠ [] := fun hw => by simp [(h.free hw).2] at hidle
  have hgrid := activate_grid m cs τ
  have howed : (m.activate cs τ).owed = m.owed := owed_congr (activate_pending m cs τ)
  split at hgrid
  next hopen =>
    simp only [Bool.and_eq_true, Option.isNone_iff_eq_none] at hopen
    obtain ⟨hb, hs⟩ := hopen
    obtain ⟨hlast, hpast⟩ := h.grid hs
    have hnumbered := h.numbered
    rw [hs, Option.toList_none, List.append_nil] at hnumbered
    refine ⟨⟨(activate_trackers m cs τ).trans h.trackers, howed ▸ h.records, howed ▸ h.lays, h.inside, h.apart, ?_,
      fun hw => absurd hw hfree⟩, (activate_plan m cs τ).trans h.plan, (congrArg Grid.size hgrid :).trans h.size,
      fun hw => absurd hw hfree, by simp [hgrid, Grid.openAt], activate_pending m cs τ ▸ h.whole⟩
    rw [hgrid]
    refine hnumbered.concat ⟨h.size ▸ (hp.size hb).1, hp.inRange.1, by rw [h.size]⟩ (fun hnil => ?_) fun p hlast' => ?_
    · rw [hnil, List.getLast?_nil] at hlast
      simp only [Grid.numberAt, hlast]
    · rw [← hlast] at hlast'
      have hτ := (hpass.lt_or hb).resolve_right (by simp [hactive])
      exact h.size ▸ Grid.follows_openAt hlast' (hpast p hlast') hτ
  next =>
    exact h.congr (activate_plan m cs τ) hgrid (activate_pending m cs τ) (activate_trackers m cs τ)
      fun hw => absurd hw hfree

theorem flushPending (h : Feeds m₀ s bs τ m rs) :
    Feeds m₀ s bs τ m.flushPending.state (rs ++ m.flushPending.records) := by
  have hbody := body_flushPending m
  have hgrid : m.flushPending.state.grid = m.grid := (congrArg Metric.grid hbody :)
  have hplan : m.flushPending.state.plan = m.plan := (congrArg Metric.plan hbody :)
  have hactive : m.flushPending.state.active = m.active := (congrArg Metric.active hbody :)
  have howed : rs ++ m.flushPending.records ++ m.flushPending.state.owed = rs ++ m.owed := by
    rw [List.append_assoc, flushPending_owed]
  refine ⟨⟨(flushPending_trackers m).trans h.trackers, howed ▸ h.records, howed ▸ h.lays, h.inside, h.apart,
    hgrid ▸ h.numbered, hgrid ▸ h.unbroken⟩, hplan ▸ h.plan, hgrid ▸ h.size, fun hw => ?_, hgrid ▸ h.grid, ?_⟩
  · rw [flushPending_windows, hactive]
    exact h.free hw
  · rw [flushPending_pending]
    exact fun _ hg => by cases hg

theorem before (h : Feeds m₀ s bs τ m rs) (hs : m.grid.current = some slot) (hbs : bs ≠ []) : slot.start < last := by
  have hfollows := h.numbered.follows
  rw [hs, Option.toList_some, List.isChain_append] at hfollows
  have hne : bs.map (·.slot) ≠ [] := by simpa using hbs
  exact (hfollows.2.2 _ (List.getLast?_eq_some_getLast hne) slot rfl).before

theorem whole_at (h : Feeds m₀ s bs τ m rs) (hs : m.grid.current = some slot) (g : Record.Skipped)
    (hg : m.pending = some g) (hstart : g.stop = slot.start) : g.stop = g.start + g.buckets * m₀.grid.size := by
  obtain ⟨hbs, hwhole⟩ := h.whole g hg
  exact hwhole (hstart ▸ h.before hs hbs)

theorem ends (h : Feeds m₀ s bs τ m rs) (hs : m.grid.current = some slot) {k : Metric}
    (hcloses : Closes k slot stop out pending) (hk : k.pending = m.pending)
    (hinside : slot.start ≤ stop ∧ stop ≤ slot.stop)
    (htrackers : n.trackers = feedAll m.trackers [⟨slot, stop, k.rows⟩])
    (hflushed : flushed out = reports m m.trackers ⟨slot, stop, k.rows⟩) :
    Fed m₀ s (bs.map (·.slot) ++ [slot]) (bs ++ [⟨slot, stop, k.rows⟩]) n
      (rs ++ (out ++ pending.toList.map .skipped)) where
  trackers := by rw [htrackers, h.trackers, Ended.feedAll_append]
  records := by
    have hrecords := h.records
    rw [flushed_append, flushed_owed, List.append_nil] at hrecords
    rw [flushed_append, flushed_append, Record.flushed_skipped, List.append_nil, hflushed, hrecords,
      Ended.reportAll_concat, Ended.reports_congr h.plan, h.trackers]
  lays i := by
    rw [hcloses.lays_iff (hk ▸ h.whole_at hs), owed_congr hk, h.lays i]
    simp only [List.mem_append, List.mem_singleton, or_and_right, exists_or, exists_eq_left, eq_comm]
  inside b hb := by
    rcases List.mem_append.1 hb with hb | hb
    · exact h.inside b hb
    · exact List.mem_singleton.1 hb ▸ hinside
  apart b hb := by
    rcases List.mem_append.1 hb with hb | hb
    · exact h.apart b hb
    · exact List.mem_singleton.1 hb ▸ rows_pairwise k
  numbered := by
    have hnumbered := h.numbered
    rwa [hs] at hnumbered
  unbroken hw := by
    have hunbroken := h.unbroken hw
    rwa [hs] at hunbroken

theorem roll_current (hp : Placed slot.stop m) (hs : m.grid.current = some slot) (hpass : Passes slot.stop m)
    (cs : Conditions) : (m.roll cs slot).state.grid.last = some slot ∧ ((m.roll cs slot).state.grid.current = none ∨
      (m.roll cs slot).state.grid.current = some (m.grid.next slot) ∧ slot.stop < last) := by
  rw [roll_grid]
  split
  next hgo =>
    rw [Bool.and_eq_true] at hgo
    have hlast := (hpass.lt_or (hp.bucketed slot hs)).resolve_right (by simp [hgo.2])
    rw [Grid.roll, hs]
    exact ⟨rfl, .inr ⟨rfl, hlast⟩⟩
  next =>
    rw [Grid.close, hs]
    exact ⟨rfl, .inl rfl⟩

theorem roll (h : Feeds m₀ s bs slot.stop m rs) (hp : Placed slot.stop m) (hs : m.grid.current = some slot)
    (hpass : Passes slot.stop m) (cs : Conditions) :
    Feeds m₀ s (bs ++ [⟨slot, slot.stop, (m.accrue slot.stop).rows⟩]) slot.stop (m.roll cs slot).state
      (rs ++ (m.roll cs slot).records) := by
  have hcloses := roll_closes m cs slot
  have hpending : (m.accrue slot.stop).pending = m.pending := m.onIntervals_pending _
  obtain ⟨htrackers, hflushed⟩ := roll_flushes m cs slot
  have hle := (hp.slot slot hs).2.1
  have hfed := h.ends hs hcloses hpending ⟨hle, Int.le_refl _⟩ htrackers hflushed
  rw [← List.append_assoc] at hfed
  obtain ⟨hlast, hcurrent⟩ := roll_current hp hs hpass cs
  have hsize : (m.roll cs slot).state.grid.size = m₀.grid.size := by
    rw [roll_grid, Grid.roll, Grid.close, hs, ← h.size]
    split <;> rfl
  have hslots : ∀ b : Ended, (bs ++ [b]).map (·.slot) = bs.map (·.slot) ++ [b.slot] := fun _ => List.map_append
  refine ⟨⟨hfed.trackers, hfed.records, hfed.lays, hfed.inside, hfed.apart, ?numbered, fun hw => ?unbroken⟩,
    (roll_plan m cs slot).trans h.plan, hsize, fun hw => ?free, fun _ => ?grid, fun g hg => ⟨by simp, ?whole⟩⟩
  case numbered =>
    rw [hslots]
    rcases hcurrent with hcurrent | ⟨hcurrent, hτ⟩ <;> rw [hcurrent]
    · simpa using hfed.numbered
    · have hpos := h.size ▸ (hp.size (hp.bucketed slot hs)).1
      refine hfed.numbered.concat ⟨hpos, hp.inRange.1, by rw [Grid.next, h.size]⟩ (by simp) fun p hp => ?_
      obtain rfl : slot = p := by simpa using hp
      exact h.size ▸ m.grid.follows_next hτ
  case unbroken =>
    rw [hslots]
    rcases hcurrent with hcurrent | ⟨hcurrent, -⟩ <;> rw [hcurrent]
    · simpa using hfed.unbroken hw
    · refine (hfed.unbroken hw).concat (by simp) fun p hp => ?_
      obtain rfl : slot = p := by simpa using hp
      rfl
  case free =>
    obtain ⟨hfree, hactive⟩ := h.free hw
    rw [roll_windows, roll_active, hactive, hfree]
    exact ⟨rfl, rfl⟩
  case grid =>
    rw [hslots, hlast]
    exact ⟨by simp, fun l hl => Option.some.inj hl ▸ Int.le_refl _⟩
  case whole =>
    obtain ⟨hstop, hwhole⟩ := hcloses.whole (hpending ▸ h.whole_at hs) g hg
    exact fun hlt => hwhole (h.size ▸ hp.stop_eq hs (hstop ▸ hlt))

theorem measure {ev : Event} (h : Feeds m₀ s bs ev.time m rs) (cs : Conditions) (hits : Hits)
    (u : Condition.Update) : Feeds m₀ s bs ev.time (m.measure cs ev hits u).1.state
      (rs ++ (m.measure cs ev hits u).1.records) := by
  have hstill := measure_still m cs ev hits u
  have hpassed : flushed (m.measure cs ev hits u).1.records = [] ∧
      ∀ i, ¬ Lays m₀.grid.size i (m.measure cs ev hits u).1.records := by
    refine ⟨List.filter_eq_nil_iff.2 fun x hx => ?_, fun i ⟨x, hx, a, ha, _⟩ => ?_⟩ <;>
      obtain ⟨key, rfl⟩ := measure_records hx
    · exact Bool.false_ne_true
    · cases ha
  have hmeasured : Feeds m₀ s bs ev.time (m.measure cs ev hits u).1.state rs :=
    h.congr (congrArg Metric.plan hstill :) (congrArg Metric.grid hstill :) (congrArg Metric.pending hstill :)
      (congrArg Metric.trackers hstill :) fun hw => ⟨(congrArg Metric.windows hstill :).trans (h.free hw).1,
        (congrArg Metric.active hstill :).trans (h.free hw).2⟩
  have hrecords := hmeasured.records
  have hlays := hmeasured.lays
  simp only [flushed_append, lays_append] at hrecords hlays
  refine ⟨⟨hmeasured.trackers, ?_, fun i => ?_, h.inside, h.apart, hmeasured.numbered, hmeasured.unbroken⟩,
    hmeasured.plan, hmeasured.size, hmeasured.free, hmeasured.grid, hmeasured.whole⟩
  · rwa [flushed_append, flushed_append, hpassed.1, List.append_nil]
  · rw [lays_append, lays_append, or_iff_left (hpassed.2 i)]
    exact hlays i

theorem watch (h : Feeds m₀ s bs τ m rs) (time : Int) (hits : Hits) : Feeds m₀ s bs τ (m.watch time hits) rs :=
  h.congr rfl rfl rfl rfl fun hw => ⟨List.map_eq_nil_iff.2 (h.free hw).1, (h.free hw).2⟩

theorem note (h : Feeds m₀ s bs τ m rs) (o : Outcome) : Feeds m₀ s bs τ (m.note o) rs := by
  cases o <;> exact h.congr rfl rfl rfl rfl h.free

theorem rest (h : Feeds m₀ s bs τ m rs) (hpending : m.pending = none) : Fed m₀ s (bs.map (·.slot)) bs m rs := by
  have hfed := h.toFed.of_append
  rwa [owed, hpending, Option.toList_none, List.map_nil, List.append_nil] at hfed

theorem start (hm : Fresh m₀) (hlast : m₀.grid.last = none) (hs : Instant.InRange s) (cs : Conditions) :
    Feeds m₀ s [] s (m₀.start cs s) [] := by
  have howed : m₀.owed = [] := by rw [owed, hm.pending]; rfl
  have hnone : ∀ i, Lays m₀.grid.size i [] ↔ ∃ b ∈ ([] : List Ended), b.slot.start = i := by simp [Lays]
  have htrackers := (Ended.feedAll_nil m₀.trackers).symm
  have hbegin : ∀ n : Metric, n.plan = m₀.plan → n.pending = m₀.pending → n.trackers = m₀.trackers →
      n.grid.size = m₀.grid.size → n.grid.last = none → (m₀.windows = [] → n.windows = [] ∧ n.active = true) →
      n.grid.current = none ∨ m₀.plan.isBucketed = true ∧
        n.grid.current = some ⟨s, Instant.after s m₀.grid.size, 0⟩ → Feeds m₀ s [] s n [] := by
    intro n hplan hpending hfed hsize hgrid hfree hcurrent
    refine ⟨⟨hfed.trans htrackers, ?_, ?_, by simp, by simp, ?_, fun _ => ?_⟩, hplan, hsize, hfree,
      fun _ => by simp [hgrid], by simp [hpending, hm.pending]⟩
    · rw [owed_congr hpending, howed]
      rfl
    · rw [owed_congr hpending, howed]
      exact hnone
    · rcases hcurrent with hcurrent | ⟨hb, hcurrent⟩ <;> rw [hcurrent]
      · exact .nil _
      · exact (Numbered.nil _).concat ⟨(hm.size hb).1, hs.1, rfl⟩ (fun _ => rfl) (by simp)
    · rcases hcurrent with hcurrent | ⟨-, hcurrent⟩ <;> rw [hcurrent]
      · exact ⟨by simp, .nil⟩
      · exact ⟨by simp, .singleton _⟩
  rw [Metric.start]
  split
  next =>
    have hgrid := activate_grid m₀ cs s
    rw [hm.current, Option.isNone_none, Bool.and_true] at hgrid
    refine hbegin _ (activate_plan m₀ cs s) (activate_pending m₀ cs s) (activate_trackers m₀ cs s) ?_ ?_
      (fun hw => ⟨(activate_windows m₀ cs s).trans hw, activate_active m₀ cs s⟩) ?_ <;> rw [hgrid] <;> split
    · rfl
    · rfl
    · exact hlast
    · exact hlast
    · next hb => exact .inr ⟨hb, by simp only [Grid.openAt, Grid.numberAt, hlast]⟩
    · exact .inl hm.current
  next hidle =>
    have hwindows : m₀.windows ≠ [] := fun hw => hidle (by simp [hw, Activations.isActive])
    exact hbegin m₀ rfl rfl rfl rfl hlast (fun hw => absurd hw hwindows) (.inl hm.current)

theorem closeAt (h : Feeds m₀ s bs τ m rs) (hp : Placed τ m) :
    ∃ more : List Ended, (∀ b ∈ more, m.grid.current = some b.slot ∧ more = [⟨b.slot, τ, (m.settle τ).rows⟩]) ∧
      Fed m₀ s ((bs ++ more).map (·.slot)) (bs ++ more) ((m.closeAt τ).andThen Metric.flushPending).state
        (rs ++ ((m.closeAt τ).andThen Metric.flushPending).records) := by
  have hfed := h.toFed
  have htrackers := flushPending_trackers (m.closeAt τ).state
  rw [Emitting.andThen_state, Emitting.andThen_records, flushPending_records]
  cases hs : m.grid.current with
  | none =>
      rw [closeAt_of_none hs, List.nil_append]
      rw [hs, Option.toList_none, List.append_nil] at hfed
      refine ⟨[], by simp, ?_⟩
      rw [List.append_nil]
      exact ⟨(flushPending_trackers m).trans hfed.trackers, hfed.records, hfed.lays, hfed.inside, hfed.apart,
        hfed.numbered, hfed.unbroken⟩
  | some slot =>
      obtain ⟨-, hle, hstop, -⟩ := hp.slot slot hs
      obtain ⟨hfeed, hflushed⟩ := closeAt_flushes hs hle
      have hpending : (m.settle τ).pending = m.pending := m.onIntervals_pending _
      rcases closeAt_closes hs hle with ⟨hcloses, -⟩ | ⟨hrows, -, hnone, hsame⟩
      · refine ⟨[⟨slot, τ, (m.settle τ).rows⟩], fun b hb => ?_, ?_⟩
        · obtain rfl := List.mem_singleton.1 hb
          exact ⟨rfl, rfl⟩
        · rw [List.map_append]
          exact h.ends hs hcloses hpending ⟨hle, hstop⟩ (htrackers.trans hfeed) hflushed
      · rw [(Ended.idle hrows m m.trackers).1] at hfeed
        rw [hnone, List.nil_append, owed_congr hsame]
        have hfed := hfed.of_append
        refine ⟨[], by simp, ?_⟩
        rw [List.append_nil]
        exact ⟨(htrackers.trans hfeed).trans hfed.trackers, hfed.records, hfed.lays, hfed.inside, hfed.apart,
          hfed.numbered, hfed.unbroken⟩

/-- All that a metric does keeps up what it is said to have reported and fed. -/
theorem steady (ms : Matchers) (m₀ : Metric) (s : Int) : Steady ms fun _ τ m rs => ∃ bs, Feeds m₀ s bs τ m rs where
  wait h hle := h.imp fun _ h => h.wait hle
  roll cs h hp hs hpass := h.elim fun _ h => ⟨_, h.roll hp hs hpass cs⟩
  activate cs h hp hpass hidle hactive := h.imp fun _ h => h.activate hp hpass hidle hactive cs
  deactivate h _ hidle := h.imp fun _ h => h.deactivate hidle
  watch hits h := h.imp fun _ h => h.watch _ hits
  measure cs _ u h _ _ := h.imp fun _ h => h.measure cs _ u
  note o h := h.imp fun _ h => h.note o
  flushPending h := h.imp fun _ h => h.flushPending

theorem leaves (m₀ : Metric) (s : Int) : Leaves (fun _ τ m rs => ∃ bs, Feeds m₀ s bs τ m rs)
    fun _ m rs => ∃ bs : List Ended, Fed m₀ s (bs.map (·.slot)) bs m rs where
  rest h hpending := h.imp fun _ h => h.rest hpending
  close h hp := h.elim fun _ h => let ⟨_, _, hfed⟩ := h.closeAt hp; ⟨_, hfed⟩

end Feeds

end EventMetrics.Metric
