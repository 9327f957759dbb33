import EventMetrics.Proofs.Metric.Reports

namespace EventMetrics.Metric

open Instant (last)
open Record (Precedes Covers Paving)

variable {m n : Metric} {A : Int → Prop} {s τ : Int} {rs : List Record} {slot : Slot}

/-- The records of `m₀`, which has become `m`, pave the time up to the open bucket, with the stretch that is
owed; without windows they leave nothing out. -/
structure Paved (m₀ : Metric) (A : Int → Prop) (s τ : Int) (m : Metric) (rs : List Record) : Prop where
  bucketed : m.plan.isBucketed = true
  size : m.grid.size = m₀.grid.size
  free : m.windows = [] ↔ m₀.windows = []
  le : s ≤ m.floor τ
  paving : Paving A m₀.grid.size True s (m.floor τ) (rs ++ m.owed)
  anchored : ∀ slot, m.grid.current = some slot → ∃ c, A c ∧ ∃ j : Nat, slot.start = c + j * m₀.grid.size
  covers : m₀.windows = [] → Covers s (m.floor τ) (rs ++ m.owed)

variable {m₀ : Metric}

namespace Paved

theorem congr (h : Paved m₀ A s τ m rs) (hplan : n.plan = m.plan) (hgrid : n.grid = m.grid)
    (hfree : n.windows = [] ↔ m.windows = []) (hpending : n.pending = m.pending) : Paved m₀ A s τ n rs := by
  have hfloor : n.floor τ = m.floor τ := by rw [floor, floor, hgrid]
  have howed := owed_congr hpending
  exact ⟨hplan ▸ h.bucketed, hgrid ▸ h.size, hfree.trans h.free, hfloor ▸ h.le, hfloor ▸ howed ▸ h.paving,
    hgrid ▸ h.anchored, fun hw => hfloor ▸ howed ▸ h.covers hw⟩

theorem mono {A' : Int → Prop} (h : Paved m₀ A s τ m rs) (hA : ∀ c, A c → A' c) : Paved m₀ A' s τ m rs :=
  ⟨h.bucketed, h.size, h.free, h.le, h.paving.anchor hA,
    fun slot hs => (h.anchored slot hs).imp fun c hc => hc.imp_left (hA c), h.covers⟩

theorem wait (h : Paved m₀ A s τ m rs) (hon : OnTime τ m) {τ' : Int} (hle : τ ≤ τ') : Paved m₀ A s τ' m rs := by
  cases hs : m.grid.current with
  | some slot =>
      have hfloor : m.floor τ' = m.floor τ := (floor_of_slot hs τ').trans (floor_of_slot hs τ).symm
      exact ⟨h.bucketed, h.size, h.free, hfloor ▸ h.le, hfloor ▸ h.paving, h.anchored,
        fun hw => hfloor ▸ h.covers hw⟩
  | none =>
      have hfloor := floor_mono m hle
      exact ⟨h.bucketed, h.size, h.free, Int.le_trans h.le hfloor, h.paving.mono hfloor, h.anchored,
        fun hw => absurd hs (hon.covered (hon.active_of_free (h.free.2 hw)) h.bucketed)⟩

theorem deactivate (h : Paved m₀ A s τ m rs) (time : Int) : Paved m₀ A s τ (m.deactivate time) rs :=
  h.congr (deactivate_plan m time) (deactivate_grid m time) (by simp) (deactivate_pending m time)

theorem activate (h : Paved m₀ A s τ m rs) (hA : m.grid.current = none → A τ) (cs : Conditions) :
    Paved m₀ A s τ (m.activate cs τ) rs := by
  have hgrid := activate_grid m cs τ
  have howed : (m.activate cs τ).owed = m.owed := by rw [owed, owed, activate_pending]
  cases hs : m.grid.current with
  | some slot =>
      rw [hs, Option.isNone_some, Bool.and_false, if_neg Bool.false_ne_true] at hgrid
      exact h.congr (activate_plan m cs τ) hgrid (by simp) (activate_pending m cs τ)
  | none =>
      rw [h.bucketed, hs, Option.isNone_none, Bool.and_true, if_pos rfl] at hgrid
      have hfloor := floor_activate m cs τ
      refine ⟨(congrArg MetricPlan.isBucketed (activate_plan m cs τ)).trans h.bucketed,
        (congrArg Grid.size hgrid :).trans h.size, by simpa using h.free, hfloor ▸ h.le,
        hfloor ▸ howed ▸ h.paving, fun slot hslot => ⟨τ, hA hs, 0, ?_⟩, fun hw => hfloor ▸ howed ▸ h.covers hw⟩
      rw [hgrid] at hslot
      cases hslot
      simp

theorem start (hm : Fresh m₀) (hb : m₀.plan.isBucketed = true) (cs : Conditions) (hA : A s) :
    Paved m₀ A s s (m₀.start cs s) [] := by
  have hfloor := floor_of_none hm.current s
  have howed : m₀.owed = [] := by rw [owed, hm.pending]; rfl
  have hfresh : Paved m₀ A s s m₀ [] := by
    refine ⟨hb, rfl, Iff.rfl, Int.le_of_eq hfloor.symm, ?_, by simp [hm.current], fun _ i hi hi' => ?_⟩
    · rw [hfloor, howed]
      exact .nil A m₀.grid.size s
    · rw [hfloor] at hi'
      omega
  rcases start_cases m₀ cs s with hstart | hstart <;> rw [hstart]
  · exact hfresh.activate (fun _ => hA) cs
  · exact hfresh

theorem flushPending (h : Paved m₀ A s τ m rs) :
    Paved m₀ A s τ m.flushPending.state (rs ++ m.flushPending.records) := by
  have hbody := body_flushPending m
  have hgrid : m.flushPending.state.grid = m.grid := (congrArg Metric.grid hbody :)
  have hfloor : m.flushPending.state.floor τ = m.floor τ := by rw [floor, floor, hgrid]
  have hplan : m.flushPending.state.plan = m.plan := (congrArg Metric.plan hbody :)
  have hwindows : m.flushPending.state.windows = m.windows := (congrArg Metric.windows hbody :)
  refine ⟨hplan ▸ h.bucketed, hgrid ▸ h.size, hwindows ▸ h.free, hfloor ▸ h.le, ?_, hgrid ▸ h.anchored,
    fun hw => ?_⟩ <;> rw [List.append_assoc, flushPending_owed, hfloor]
  · exact h.paving
  · exact h.covers hw

theorem roll (h : Paved m₀ A s slot.stop m rs) (hp : Placed slot.stop m) (hs : m.grid.current = some slot)
    (hlast : slot.stop < last) (cs : Conditions) :
    Paved m₀ A s slot.stop (m.roll cs slot).state (rs ++ (m.roll cs slot).records) := by
  obtain ⟨hfirst, hle, -, hstop⟩ := hp.slot slot hs
  have hlt := hp.start_lt_stop hs (by omega)
  have hsize := (hp.size h.bucketed).1
  rw [h.size] at hstop hsize
  have hnext : slot.stop = slot.start + m₀.grid.size := by
    simp only [Instant.after, Instant.clamp, Instant.first, last] at hfirst hstop hlast
    omega
  obtain ⟨c, hc, j, hj⟩ := h.anchored slot hs
  have hstart := h.le
  have hpaving := h.paving
  have hcovers := h.covers
  rw [floor_of_slot hs] at hstart
  rw [floor_of_slot hs, ← accrue_owed m slot.stop] at hpaving hcovers
  have hcloses := roll_closes m cs slot
  have hpaved := hcloses.paving hpaving hsize hstart hle (fun _ => hlt) (by omega) ⟨c, hc, j, hj⟩
  have hafter := floor_roll cs hs
  refine ⟨(congrArg MetricPlan.isBucketed (roll_plan m cs slot)).trans h.bucketed, (roll_size m cs slot).trans h.size,
    by simpa only [roll_windows] using h.free, ?_, ?_, fun slot' hs' => ⟨c, hc, j + 1, ?_⟩, fun hw => ?_⟩
  · rw [hafter]
    omega
  · rw [hafter, List.append_assoc]
    exact eq_true hnext ▸ hpaved
  · have hstart' : slot'.start = slot.stop := by rw [← hafter, floor_of_slot hs']
    rw [hstart', hnext, hj, Int.natCast_succ, Int.add_mul, Int.one_mul, Int.add_assoc]
  · rw [hafter, List.append_assoc]
    exact hcloses.covers hpaving (hcovers hw)

theorem followWindows (h : Paved m₀ A s τ m rs) (hp : Placed τ m) (hfree : m.windows = [] → m.active = true)
    (hA : m.windows ≠ [] → A τ) (cs : Conditions) : Paved m₀ A s τ (m.followWindows cs τ) rs := by
  rcases followWindows_cases m cs τ with hfollow | hfollow | hfollow <;> rw [hfollow]
  · exact h.activate (fun hs => hA fun hw => hp.covered (hfree hw) h.bucketed hs) cs
  · exact h.deactivate τ
  · exact h

theorem meet (h : Paved m₀ A s τ m rs) (hp : Placed τ m) (hfree : m.windows = [] → m.active = true)
    (hlast : τ < last) (hA : m.windows ≠ [] → A τ) (cs : Conditions) :
    Paved m₀ A s τ (m.meet cs τ) (rs ++ (m.rollTo cs τ).records) := by
  rw [Metric.meet]
  rcases rollTo_cases cs hp (.inl hlast) with ⟨-, hr⟩ | ⟨slot, hs, rfl, hr⟩ <;> rw [hr]
  · rw [List.append_nil]
    exact h.followWindows hp hfree hA cs
  · have hwindows := roll_windows m cs slot
    refine (h.roll hp hs hlast cs).followWindows (hp.roll cs hs) (fun hw => ?_) (hwindows ▸ hA) cs
    rw [hwindows] at hw
    rw [roll_active, hfree hw, hw]
    rfl

theorem see {ev : Event} (h : Paved m₀ A s ev.time m rs) (hon : OnTime ev.time m) (hlast : ev.time < last)
    (hA : m.windows ≠ [] → A ev.time) (cs : Conditions) (hits : Hits) :
    Paved m₀ A s ev.time (m.see cs ev hits).1.state (rs ++ (m.see cs ev hits).1.records) := by
  have hfree : (m.watch ev.time hits).windows = [] ↔ m.windows = [] := List.map_eq_nil_iff
  have hwatched : Paved m₀ A s ev.time (m.watch ev.time hits) rs := h.congr rfl rfl hfree rfl
  have hmet := hwatched.meet (hon.toPlaced.watch ev.time hits) (fun hw => hon.active_of_free (hfree.1 hw)) hlast
    (fun hw => hA (mt hfree.2 hw)) (cs.onEvent ev hits).1
  have hstill := measure_still ((m.watch ev.time hits).meet (cs.onEvent ev hits).1 ev.time)
    (cs.onEvent ev hits).1 ev hits (cs.onEvent ev hits).2
  have hmeasured := hmet.congr (congrArg Metric.plan hstill :) (congrArg Metric.grid hstill :)
    (iff_of_eq (congrArg (fun m : Metric => m.windows = []) hstill :)) (congrArg Metric.pending hstill :)
  rw [Metric.see, onEvent_eq, measure_records_of_isBucketed hmet.bucketed, List.append_nil]
  generalize (((m.watch ev.time hits).meet (cs.onEvent ev hits).1 ev.time).measure (cs.onEvent ev hits).1 ev hits
    (cs.onEvent ev hits).2).2 = o
  cases o <;> exact hmeasured.congr rfl rfl Iff.rfl rfl

theorem closeAt (h : Paved m₀ A s τ m rs) (hp : Placed τ m) :
    Paving A m₀.grid.size False s τ (rs ++ ((m.closeAt τ).records ++ (m.closeAt τ).state.owed)) ∧
      (m₀.windows = [] → Covers s τ (rs ++ ((m.closeAt τ).records ++ (m.closeAt τ).state.owed))) := by
  have hstart := h.le
  have hpaving := h.paving
  have hcovers := h.covers
  cases hs : m.grid.current with
  | none =>
      rw [floor_of_none hs] at hpaving hcovers
      rw [closeAt_of_none hs, List.nil_append]
      exact ⟨hpaving.weaken, hcovers⟩
  | some slot =>
      obtain ⟨-, hle, hlate, -⟩ := hp.slot slot hs
      have hsize := (hp.size h.bucketed).1
      have hwithin := Int.le_trans hlate (hp.stop_le hs)
      rw [h.size] at hsize hwithin
      rw [floor_of_slot hs] at hstart
      rw [floor_of_slot hs] at hpaving hcovers
      rcases closeAt_closes hs hle with ⟨hcloses, hlt⟩ | ⟨-, rfl, hnone, hsame⟩
      · rw [← settle_owed m τ] at hpaving hcovers
        exact ⟨(hcloses.paving hpaving hsize hstart hle hlt hwithin (h.anchored slot hs)).weaken,
          fun hw => hcloses.covers hpaving (hcovers hw)⟩
      · rw [hnone, List.nil_append, owed, hsame]
        exact ⟨hpaving.weaken, hcovers⟩

theorem advance (h : Paved m₀ A s τ m rs) (hon : OnTime τ m) (cs : Conditions) {t : Int} (hle : τ ≤ t)
    (hlast : t ≤ last) : OnTime t (m.advance cs t false).state ∧
      Paved m₀ A s t (m.advance cs t false).state (rs ++ (m.advance cs t false).records) :=
  advance_course (P := fun τ m rs => Paved m₀ A s τ m rs) cs
    (fun _ _ _ _ hon h hle _ => h.wait hon hle) (fun _ _ _ hon h hs hlast => h.roll hon.toPlaced hs hlast cs)
    (fun _ _ due _ h _ => h.deactivate due) hon h hle hlast

theorem shutdown (h : Paved m₀ A s τ m rs) (hon : OnTime τ m) (cs : Conditions) {t : Int} (hle : τ ≤ t)
    (hlast : t ≤ last) : Paving A m₀.grid.size False s t (rs ++ (m.shutdown cs t).records) ∧
      (m₀.windows = [] → Covers s t (rs ++ (m.shutdown cs t).records)) := by
  obtain ⟨ht, hpaved⟩ := h.advance hon cs hle hlast
  have hclosed := hpaved.closeAt ht.toPlaced
  rw [List.append_assoc] at hclosed
  rw [Metric.shutdown, Emitting.andThen_records, Emitting.andThen_records, flushPending_records, List.append_assoc]
  exact hclosed

end Paved

/-- The instants at which a metric can begin to lay slots: the start, and those of events if it has windows. -/
def Anchors (m₀ : Metric) (s : Int) (H : History) (a : Int) : Prop :=
  a = s ∨ m₀.windows ≠ [] ∧ ∃ x ∈ H, x.1.time = a

theorem Life.paved {ms : Matchers} {cs₀ : Conditions} {H : History} (hm : Fresh m₀)
    (hb : m₀.plan.isBucketed = true) (hs : Instant.InRange s) (h : Life ms cs₀ m₀ s H cs τ m rs) :
    OnTime τ m ∧ Paved m₀ (Anchors m₀ s H) s τ m rs := by
  refine induction (P := fun H _ τ m rs => Paved m₀ (Anchors m₀ s H) s τ m rs) ?_ ?_ ?_ ?_ ?_ ?_ hm hs h
  · exact fun _ => .start hm hb cs₀ (.inl rfl)
  · exact fun _ _ _ _ _ _ hon h hle _ => h.wait hon hle
  · exact fun _ cs _ _ _ hon h hs hlast => h.roll hon.toPlaced hs hlast cs
  · exact fun _ _ _ _ due _ h _ => h.deactivate due
  · intro H cs m rs ev hon h hlast
    refine (h.mono fun c hc => ?_).see hon hlast (fun hw => ?_) cs (ms.judge ev)
    · exact hc.imp_right fun ⟨hw, x, hx, hc⟩ => ⟨hw, x, List.mem_append_left _ hx, hc⟩
    · exact .inr ⟨mt h.free.2 hw, _, List.mem_append_right _ (List.mem_singleton_self _), rfl⟩
  · exact fun _ _ _ _ _ h => h.flushPending

end EventMetrics.Metric
