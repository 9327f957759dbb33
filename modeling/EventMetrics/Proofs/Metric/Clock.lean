import EventMetrics.Proofs.Metric.Pace
import EventMetrics.Proofs.Metric.Works

namespace EventMetrics.Metric

open Instant (first last)

/-- The open bucket, of some length, holds the instant; an active metric with buckets has one. -/
structure Placed (τ : Int) (m : Metric) : Prop where
  inRange : Instant.InRange τ
  size : m.plan.isBucketed = true → 0 < m.grid.size ∧ m.grid.size ≤ last
  bucketed : ∀ slot, m.grid.current = some slot → m.plan.isBucketed = true
  slot : ∀ slot, m.grid.current = some slot → first ≤ slot.start ∧ slot.start ≤ τ ∧ τ ≤ slot.stop ∧
    slot.stop = Instant.after slot.start m.grid.size
  covered : m.active = true → m.plan.isBucketed = true → m.grid.current ≠ none

/-- Activity, too, is as it should be at the instant. -/
structure OnTime (τ : Int) (m : Metric) : Prop extends Placed τ m where
  active : m.active = true → m.windows = [] ∨ ∃ x, m.windows.endsAt first = some x ∧ τ ≤ x
  idle : m.active = false → m.windows.isActive τ = false

def Quiet (τ : Int) (m : Metric) : Prop := ∀ d, m.nextDeadline = some d → τ < d

variable {m n : Metric} (cs : Conditions) {τ : Int}

namespace Placed

theorem paced (h : Placed τ m) : Paced m := ⟨fun hb => (h.size hb).1, h.bucketed⟩

theorem congr (h : Placed τ m) (hplan : n.plan = m.plan) (hgrid : n.grid = m.grid)
    (hactive : n.active = true → m.active = true) : Placed τ n where
  inRange := h.inRange
  size := hplan ▸ hgrid ▸ h.size
  bucketed := hplan ▸ hgrid ▸ h.bucketed
  slot := hgrid ▸ h.slot
  covered ha := hplan ▸ hgrid ▸ h.covered (hactive ha)

theorem deactivate (h : Placed τ m) (time : Int) : Placed τ (m.deactivate time) :=
  h.congr (deactivate_plan m time) (deactivate_grid m time) (by simp)

theorem start_lt_stop (h : Placed τ m) {slot : Slot} (hs : m.grid.current = some slot)
    (hlast : slot.start < last) : slot.start < slot.stop := by
  rw [(h.slot slot hs).2.2.2]
  exact Instant.lt_after hlast (h.size (h.bucketed slot hs)).1

theorem stop_le (h : Placed τ m) {slot : Slot} (hs : m.grid.current = some slot) :
    slot.stop ≤ slot.start + m.grid.size := by
  obtain ⟨hfirst, -, -, hstop⟩ := h.slot slot hs
  have hsize := (h.size (h.bucketed slot hs)).1
  simp only [Instant.after, Instant.clamp, first, last] at hfirst hstop
  omega

theorem stop_eq (h : Placed τ m) {slot : Slot} (hs : m.grid.current = some slot) (hlast : slot.stop < last) :
    slot.stop = slot.start + m.grid.size := by
  obtain ⟨hfirst, -, -, hstop⟩ := h.slot slot hs
  have hsize := (h.size (h.bucketed slot hs)).1
  simp only [Instant.after, Instant.clamp, first, last] at hfirst hstop hlast
  omega

theorem roll {slot : Slot} (h : Placed slot.stop m) (hs : m.grid.current = some slot) :
    Placed slot.stop (m.roll cs slot).state := by
  have hplan := roll_plan m cs slot
  have hgrid := roll_grid m cs slot
  have hactive := roll_active m cs slot
  have hb := h.bucketed slot hs
  by_cases hgo : (m.active && m.windows.isActive slot.stop) = true
  · rw [if_pos hgo, Grid.roll, hs] at hgrid
    have hafter : slot.stop ≤ Instant.after slot.stop m.grid.size := by
      have hsize := (h.size hb).1
      have hrange := h.inRange
      simp only [Instant.after, Instant.clamp, Instant.InRange, first, last] at hrange ⊢
      omega
    refine ⟨h.inRange, fun _ => hgrid ▸ h.size hb, fun _ _ => hplan ▸ hb, ?_, by simp [hgrid]⟩
    rw [hgrid]
    rintro _ ⟨⟩
    exact ⟨h.inRange.1, by simp [Grid.next], hafter, rfl⟩
  · rw [if_neg hgo, Grid.close, hs] at hgrid
    rw [Bool.not_eq_true] at hgo
    exact ⟨h.inRange, fun _ => hgrid ▸ h.size hb, by simp [hgrid], by simp [hgrid], by simp [hactive, hgo]⟩

theorem activate (h : Placed τ m) : Placed τ (m.activate cs τ) := by
  have hplan := activate_plan m cs τ
  have hgrid := activate_grid m cs τ
  by_cases hopen : (m.plan.isBucketed && m.grid.current.isNone) = true
  · rw [if_pos hopen] at hgrid
    rw [Bool.and_eq_true] at hopen
    have hafter : τ ≤ Instant.after τ m.grid.size := by
      have hsize := (h.size hopen.1).1
      have hrange := h.inRange
      simp only [Instant.after, Instant.clamp, Instant.InRange, first, last] at hrange ⊢
      omega
    refine ⟨h.inRange, fun _ => hgrid ▸ h.size hopen.1, fun _ _ => hplan ▸ hopen.1, ?_, ?_⟩
    · rw [hgrid]
      rintro _ ⟨⟩
      exact ⟨h.inRange.1, Int.le_refl _, hafter, rfl⟩
    · simp [hgrid, Grid.openAt]
  · rw [if_neg hopen] at hgrid
    refine ⟨h.inRange, hplan ▸ hgrid ▸ h.size, hplan ▸ hgrid ▸ h.bucketed, hgrid ▸ h.slot, fun _ hb => ?_⟩
    rw [hplan] at hb
    rw [hgrid]
    intro hnone
    simp [hb, hnone] at hopen

end Placed

namespace OnTime

theorem congr (h : OnTime τ m) (hplan : n.plan = m.plan) (hgrid : n.grid = m.grid)
    (hactive : n.active = m.active) (hwindows : n.windows = m.windows) : OnTime τ n :=
  ⟨h.toPlaced.congr hplan hgrid (hactive ▸ id), hactive ▸ hwindows ▸ h.active,
    hactive ▸ hwindows ▸ h.idle⟩

theorem le_expiry (h : OnTime τ m) {x : Int} (hx : m.expiry = some x) : τ ≤ x := by
  obtain ⟨ha, hne, hends⟩ := expiry_eq_some hx
  obtain hnil | ⟨y, hy, hle⟩ := h.active ha
  · exact absurd hnil hne
  · cases hends.symm.trans hy
    exact hle

theorem le_deadline (h : OnTime τ m) {d : Int} (hd : m.nextDeadline = some d) : τ ≤ d := by
  rcases nextDeadline_cases hd with ⟨slot, hs, rfl, -⟩ | ⟨hx, -⟩
  · exact (h.slot slot hs).2.2.1
  · exact h.le_expiry hx

theorem wait (h : OnTime τ m) {τ' : Int} (hle : τ ≤ τ') (hlast : τ' ≤ last)
    (hnext : ∀ d, m.nextDeadline = some d → τ' ≤ d) : OnTime τ' m where
  inRange := ⟨Int.le_trans h.inRange.1 hle, hlast⟩
  size := h.size
  bucketed := h.bucketed
  slot slot hs := by
    obtain ⟨hfirst, hstart, -, hstop⟩ := h.slot slot hs
    refine ⟨hfirst, by omega, ?_, hstop⟩
    cases hx : m.expiry with
    | none => exact hnext _ (by rw [nextDeadline_eq, hs, hx])
    | some x =>
        have := hnext (min slot.stop x) (by rw [nextDeadline_eq, hs, hx])
        omega
  covered := h.covered
  active ha := by
    obtain hnil | ⟨x, hx, -⟩ := h.active ha
    · exact .inl hnil
    · by_cases hnil : m.windows = []
      · exact .inl hnil
      · have hexpiry : m.expiry = some x := by simp [expiry, ha, hnil, hx]
        refine .inr ⟨x, hx, ?_⟩
        cases hs : m.grid.current with
        | none => exact hnext x (by rw [nextDeadline_eq, hs, hexpiry])
        | some slot =>
            have := hnext (min slot.stop x) (by rw [nextDeadline_eq, hs, hexpiry])
            omega
  idle ha := by
    have hidle := h.idle ha
    rw [← Bool.not_eq_true] at hidle ⊢
    exact fun ht => hidle (Activations.isActive_anti hle ht)

theorem active_of_isActive (hτ : first ≤ τ) (hw : m.windows.isActive τ = true) :
    m.windows = [] ∨ ∃ x, m.windows.endsAt first = some x ∧ τ < x := by
  by_cases hnil : m.windows = []
  · exact .inl hnil
  · right
    cases hx : m.windows.endsAt first with
    | none => simp [Activations.not_isActive_of_endsAt hnil hx hτ] at hw
    | some x => exact ⟨x, rfl, (Activations.isActive_iff_lt hnil hx hτ).1 hw⟩

theorem active_of_free (h : OnTime τ m) (hw : m.windows = []) : m.active = true := by
  cases ha : m.active with
  | true => rfl
  | false => simpa [hw, Activations.isActive] using h.idle ha

theorem of_isActive (h : Placed τ m) (ha : m.active = m.windows.isActive τ) : OnTime τ m where
  toPlaced := h
  active hm := by
    obtain hnil | ⟨x, hx, hlt⟩ := active_of_isActive h.inRange.1 (ha ▸ hm)
    · exact .inl hnil
    · exact .inr ⟨x, hx, by omega⟩
  idle hm := ha ▸ hm

theorem expire (h : OnTime τ m) (hx : m.expiry = some τ) : OnTime τ (m.deactivate τ) := by
  refine of_isActive (h.toPlaced.deactivate τ) ?_
  have hnot := not_isActive_expiry hx
  simp [hnot]

theorem roll {slot : Slot} (h : Placed slot.stop m) (hs : m.grid.current = some slot)
    (hidle : m.active = false → m.windows.isActive slot.stop = false) :
    OnTime slot.stop (m.roll cs slot).state := by
  refine of_isActive (h.roll cs hs) ?_
  have hwindows : (m.roll cs slot).state.windows = m.windows := roll_windows m cs slot
  rw [hwindows, roll_active]
  cases ha : m.active with
  | true => simp
  | false => simp [hidle ha]

end OnTime

theorem fireWork_of_slot {slot : Slot} (hs : m.grid.current = some slot) :
    m.fireWork cs slot.stop = ⟨m, cs, slot.stop, .roll slot⟩ := by
  simp [fireWork, hs]

theorem fireWork_of_lt {due : Int} (h : ∀ slot, m.grid.current = some slot → due < slot.stop) :
    m.fireWork cs due = ⟨m, cs, due, .deactivate⟩ := by
  rw [fireWork]
  cases hs : m.grid.current with
  | none => rfl
  | some slot => exact congrArg (Work.mk m cs due) (if_neg (Int.not_le.2 (h slot hs)))

theorem advance_works {P : List Work → Int → Metric → List Record → Prop} {ws : List Work} {rs : List Record}
    {limit : Int}
    (hwait : ∀ τ τ' ws m rs, OnTime τ m → P ws τ m rs → τ ≤ τ' → OnTime τ' m →
      P ws τ' m rs)
    (hroll : ∀ ws m rs slot, OnTime slot.stop m → P ws slot.stop m rs → m.grid.current = some slot →
      slot.stop < last → P (ws ++ [⟨m, cs, slot.stop, .roll slot⟩]) slot.stop (m.roll cs slot).state
        (rs ++ (m.roll cs slot).records))
    (hexpire : ∀ ws m rs due, OnTime due m → P ws due m rs → m.expiry = some due →
      P (ws ++ [⟨m, cs, due, .deactivate⟩]) due (m.deactivate due) rs)
    (hm : OnTime τ m) (hP : P ws τ m rs) (hle : τ ≤ limit) (hlast : limit ≤ last) :
    OnTime limit (m.advance cs limit false).state ∧ P (ws ++ m.advanceWorks cs limit false) limit
      (m.advance cs limit false).state (rs ++ (m.advance cs limit false).records) := by
  have hfire : ∀ {τ ws m rs r}, OnTime τ m → P ws τ m rs → m.tick cs limit false = some r →
      ∃ d, d < limit ∧ OnTime d r.state ∧
        P (ws ++ m.nextDeadline.toList.map (m.fireWork cs)) d r.state (rs ++ r.records) := by
    intro τ ws m rs r hm hP ht
    obtain ⟨d, hd, hdue, hf⟩ := tick_eq_some ht
    have hlt : d < limit := due_false.1 hdue
    have hle := hm.le_deadline hd
    have hnow : OnTime d m := hm.wait hle (by omega) fun d' hd' => by
      cases hd.symm.trans hd'
      exact Int.le_refl _
    have hP := hwait τ d ws m rs hm hP hle hnow
    refine ⟨d, hlt, ?_⟩
    rw [hd, Option.toList_some, List.map_singleton]
    cases hf with
    | roll hs he =>
        subst he
        rw [fireWork_of_slot cs hs]
        exact ⟨.roll cs hnow.toPlaced hs hnow.idle, hroll ws m rs _ hnow hP hs (by omega)⟩
    | expire hx hlt =>
        rw [fireWork_of_lt cs hlt]
        exact ⟨hnow.expire hx, by simpa using hexpire ws m rs d hnow hP hx⟩
  -- each timer that fires brings the metric on to its own instant
  fun_induction advance m cs limit false generalizing τ ws rs with
  | case1 m ht =>
      have hnow : OnTime limit m := hm.wait hle hlast fun d hd =>
        Int.not_lt.1 (mt due_false.2 (tick_eq_none.1 ht d hd))
      rw [advanceWorks, ht]
      exact ⟨hnow, by simpa using hwait τ limit ws m rs hm hP hle hnow⟩
  | case2 m r ht hlt =>
      rename_i ih
      obtain ⟨d, hd, hm, hP⟩ := hfire hm hP ht
      rw [advanceWorks, ht]
      simpa [hlt] using ih hm hP (by omega)
  | case3 m r ht hlt => exact absurd (remaining_tick_lt hm.paced hlast ht) hlt

/-- What timers keep. -/
theorem advance_course {P : Int → Metric → List Record → Prop} {rs : List Record} {limit : Int}
    (hwait : ∀ τ τ' m rs, OnTime τ m → P τ m rs → τ ≤ τ' → OnTime τ' m →
      P τ' m rs)
    (hroll : ∀ m rs slot, OnTime slot.stop m → P slot.stop m rs → m.grid.current = some slot →
      slot.stop < last → P slot.stop (m.roll cs slot).state (rs ++ (m.roll cs slot).records))
    (hexpire : ∀ m rs due, OnTime due m → P due m rs → m.expiry = some due → P due (m.deactivate due) rs)
    (hm : OnTime τ m) (hP : P τ m rs) (hle : τ ≤ limit) (hlast : limit ≤ last) :
    OnTime limit (m.advance cs limit false).state ∧
      P limit (m.advance cs limit false).state (rs ++ (m.advance cs limit false).records) :=
  @advance_works m cs τ (fun _ => P) [] rs limit (fun τ τ' _ => hwait τ τ') (fun _ => hroll) (fun _ => hexpire) hm hP
    hle hlast

def Inside (τ : Int) (m : Metric) : Prop := ∀ slot, m.grid.current = some slot → τ < slot.stop

def Passes (τ : Int) (m : Metric) : Prop :=
  τ < last ∨ m.plan.isBucketed = false ∨ m.windows.isActive τ = false

theorem Passes.congr (h : Passes τ m) (hplan : n.plan = m.plan) (hwindows : n.windows = m.windows) : Passes τ n := by
  rwa [Passes, hplan, hwindows]

theorem Passes.lt_or (h : Passes τ m) (hb : m.plan.isBucketed = true) : τ < last ∨ m.windows.isActive τ = false :=
  h.imp_right fun h => h.resolve_left (by simp [hb])

theorem Passes.of_bounded (hbounded : m.windows.Bounded) (hle : τ ≤ last)
    (hends : τ = last → m.plan.isBucketed = true → m.windows ≠ []) : Passes τ m := by
  rcases Int.lt_or_eq_of_le hle with hlt | hlast
  · exact .inl hlt
  · cases hb : m.plan.isBucketed with
    | false => exact .inr (.inl hb)
    | true => exact .inr (.inr (hlast ▸ hbounded.not_isActive_last (hends hlast hb)))

theorem rollTo_of_inside (h : Inside τ m) : m.rollTo cs τ = ⟨m, []⟩ := by
  rw [rollTo]
  cases hs : m.grid.current with
  | none => rfl
  | some slot =>
      have := h slot hs
      simp only [show ¬ slot.stop ≤ τ by omega, if_false]

theorem inside_roll {slot : Slot} (h : Placed slot.stop m) (hs : m.grid.current = some slot)
    (hpass : Passes slot.stop m) : Inside slot.stop (m.roll cs slot).state := by
  intro slot' hs'
  rw [roll_grid] at hs'
  split at hs'
  next hgo =>
    have hb := h.bucketed slot hs
    have hlast := (hpass.lt_or hb).resolve_right (by simp_all)
    simp only [Grid.roll, hs, Option.some.injEq] at hs'
    exact hs' ▸ Instant.lt_after hlast (h.size hb).1
  next => simp [Grid.close, hs] at hs'

theorem rollTo_of_stop {slot : Slot} (h : Placed slot.stop m) (hs : m.grid.current = some slot)
    (hpass : Passes slot.stop m) : m.rollTo cs slot.stop = m.roll cs slot := by
  have hremaining := remaining_roll_lt cs h.paced hs (hpass.lt_or (h.bucketed slot hs))
  rw [rollTo, hs]
  simp only [Int.le_refl, if_true, hremaining, rollTo_of_inside cs (inside_roll cs h hs hpass), List.append_nil]

theorem rollTo_cases (h : Placed τ m) (hpass : Passes τ m) :
    (Inside τ m ∧ m.rollTo cs τ = ⟨m, []⟩) ∨
    ∃ slot, m.grid.current = some slot ∧ slot.stop = τ ∧ m.rollTo cs τ = m.roll cs slot := by
  cases hs : m.grid.current with
  | none =>
      have hin : Inside τ m := by simp [Inside, hs]
      exact .inl ⟨hin, rollTo_of_inside cs hin⟩
  | some slot =>
      obtain ⟨-, -, hle, -⟩ := h.slot slot hs
      by_cases hstop : slot.stop = τ
      · subst hstop
        exact .inr ⟨slot, rfl, rfl, rollTo_of_stop cs h hs hpass⟩
      · have hin : Inside τ m := fun slot' hs' => by
          cases hs.symm.trans hs'
          omega
        exact .inl ⟨hin, rollTo_of_inside cs hin⟩

theorem placed_rollTo (h : Placed τ m) (hpass : Passes τ m) :
    Placed τ (m.rollTo cs τ).state ∧ Inside τ (m.rollTo cs τ).state := by
  rcases rollTo_cases cs h hpass with ⟨hin, hr⟩ | ⟨slot, hs, rfl, hr⟩
  · rw [hr]
    exact ⟨h, hin⟩
  · rw [hr]
    exact ⟨h.roll cs hs, inside_roll cs h hs hpass⟩

theorem quiet_of_inside (hfirst : first ≤ τ) (hin : Inside τ m) (ha : m.active = true → m.windows.isActive τ = true) :
    Quiet τ m := by
  intro d hd
  rcases nextDeadline_cases hd with ⟨slot, hs, rfl, -⟩ | ⟨hx, -⟩
  · exact hin slot hs
  · obtain ⟨hactive, hne, hends⟩ := expiry_eq_some hx
    exact (Activations.isActive_iff_lt hne hends hfirst).1 (ha hactive)

theorem onTime_followWindows (h : Placed τ m) (hin : Inside τ m) (hpass : Passes τ m) :
    OnTime τ (m.followWindows cs τ) ∧ Quiet τ (m.followWindows cs τ) := by
  have hplaced : Placed τ (m.followWindows cs τ) := by
    rcases followWindows_cases m cs τ with hfollow | hfollow | hfollow <;> rw [hfollow]
    · exact h.activate cs
    · exact h.deactivate τ
    · exact h
  have hactive : (m.followWindows cs τ).active = (m.followWindows cs τ).windows.isActive τ := by
    rw [followWindows_active, followWindows_windows]
  have hinside : Inside τ (m.followWindows cs τ) := by
    intro slot hs
    by_cases hopen : m.grid.current = some slot
    · exact hin slot hopen
    · -- a bucket that opens starts at the instant
      have hstart : slot.start = τ ∧ m.windows.isActive τ = true := by
        rw [followWindows] at hs
        split at hs
        next hw =>
          simp only [activate_grid] at hs
          split at hs
          · cases hs
            exact ⟨rfl, hw⟩
          · exact absurd hs hopen
        next => exact absurd (by simpa using hs) hopen
        next => exact absurd hs hopen
      have hb := followWindows_plan m cs τ ▸ hplaced.bucketed slot hs
      have hlast := (hpass.lt_or hb).resolve_right (by simp [hstart.2])
      have hlt := hplaced.start_lt_stop hs (by omega)
      omega
  exact ⟨.of_isActive hplaced hactive, quiet_of_inside h.inRange.1 hinside (hactive ▸ id)⟩

def watch (m : Metric) (time : Int) (hits : Hits) : Metric :=
  { m with windows := m.windows.onEvent time hits }

theorem Placed.watch (h : Placed τ m) (time : Int) (hits : Hits) : Placed τ (m.watch time hits) :=
  h.congr rfl rfl id

variable (ev : Event) (hits : Hits) (u : Condition.Update)

theorem OnTime.note (h : OnTime τ m) (o : Outcome) : OnTime τ (m.note o) := by
  cases o <;> exact h.congr rfl rfl rfl rfl

theorem OnTime.measure (h : OnTime τ m) : OnTime τ (m.measure cs ev hits u).1.state := by
  have hstill := measure_still m cs ev hits u
  exact h.congr (congrArg Metric.plan hstill :) (congrArg Metric.grid hstill :)
    (congrArg Metric.active hstill :) (congrArg Metric.windows hstill :)

theorem Quiet.measure (h : Quiet τ m) : Quiet τ (m.measure cs ev hits u).1.state := by
  have hstill := measure_still m cs ev hits u
  have hnext : (m.measure cs ev hits u).1.state.nextDeadline = m.nextDeadline :=
    (congrArg Metric.nextDeadline hstill :)
  exact fun d hd => h d (hnext ▸ hd)

theorem Quiet.note (h : Quiet τ m) (o : Outcome) : Quiet τ (m.note o) := by
  cases o <;> exact h

def meet (m : Metric) (cs : Conditions) (time : Int) : Metric :=
  (m.rollTo cs time).state.followWindows cs time

theorem meet_plan (m : Metric) (time : Int) : (m.meet cs time).plan = m.plan :=
  (followWindows_plan _ cs time).trans (rollTo_plan m cs time)

theorem meet_windows (m : Metric) (time : Int) : (m.meet cs time).windows = m.windows :=
  (followWindows_windows _ cs time).trans (rollTo_windows m cs time)

variable (m) in
theorem onEvent_eq : m.onEvent cs ev hits u =
      (⟨((m.meet cs ev.time).measure cs ev hits u).1.state.note ((m.meet cs ev.time).measure cs ev hits u).2,
        (m.rollTo cs ev.time).records ++ ((m.meet cs ev.time).measure cs ev hits u).1.records⟩,
        ((m.meet cs ev.time).measure cs ev hits u).2) := rfl

variable (m) in
theorem absorb_watch : m.absorb cs ev hits u =
    ((((m.watch ev.time hits).onEvent cs ev hits u).1.andThen (·.advance cs ev.time true)).andThen flushPending,
      ((m.watch ev.time hits).onEvent cs ev hits u).2) := rfl

theorem onTime_meet (h : Placed τ m) (hpass : Passes τ m) :
    OnTime τ (m.meet cs τ) ∧ Quiet τ (m.meet cs τ) := by
  obtain ⟨hp, hin⟩ := placed_rollTo cs h hpass
  exact onTime_followWindows cs hp hin (hpass.congr (rollTo_plan m cs τ) (rollTo_windows m cs τ))

theorem onTime_onEvent (h : Placed ev.time m) (hpass : Passes ev.time m) :
    OnTime ev.time (m.onEvent cs ev hits u).1.state ∧ Quiet ev.time (m.onEvent cs ev hits u).1.state := by
  obtain ⟨ht, hq⟩ := onTime_meet cs h hpass
  rw [onEvent_eq]
  exact ⟨(ht.measure cs ev hits u).note _, (hq.measure cs ev hits u).note _⟩

theorem Quiet.tick (h : Quiet τ m) (inclusive : Bool) : m.tick cs τ inclusive = none := by
  refine tick_eq_none.2 fun d hd hdue => ?_
  have hlt := h d hd
  rw [Due] at hdue
  omega

theorem Quiet.advance (h : Quiet τ m) (inclusive : Bool) : m.advance cs τ inclusive = ⟨m, []⟩ :=
  advance_of_tick_none (h.tick cs inclusive)

theorem absorb_eq (h : Placed ev.time m) (hpass : Passes ev.time (m.watch ev.time hits)) : m.absorb cs ev hits u =
    (((m.watch ev.time hits).onEvent cs ev hits u).1.andThen flushPending,
      ((m.watch ev.time hits).onEvent cs ev hits u).2) := by
  obtain ⟨-, hq⟩ := onTime_onEvent cs ev hits u (h.watch ev.time hits) hpass
  simp only [absorb_watch, Emitting.andThen, hq.advance cs true, List.append_nil]

theorem onTime_absorb (h : Placed ev.time m) (hlast : ev.time < last) :
    OnTime ev.time (m.absorb cs ev hits u).1.state := by
  have hbody := body_flushPending ((m.watch ev.time hits).onEvent cs ev hits u).1.state
  rw [absorb_eq cs ev hits u h (.inl hlast)]
  exact (onTime_onEvent cs ev hits u (h.watch ev.time hits) (.inl hlast)).1.congr (congrArg Metric.plan hbody :)
    (congrArg Metric.grid hbody :) (congrArg Metric.active hbody :) (congrArg Metric.windows hbody :)

end EventMetrics.Metric
