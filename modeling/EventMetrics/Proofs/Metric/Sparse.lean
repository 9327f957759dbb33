import EventMetrics.Proofs.Metric.Gate
import EventMetrics.Proofs.Metric.Ledger

namespace EventMetrics.Metric

open Instant (last)
open Record (Past Credited Concluded bucketsOf)

variable {m₀ m : Metric} {t : Timing} {k : DimensionKey} {s τ : Int} {rs : List Record} {slot : Slot} {ev : Event}
  {hits : Hits} {cs : Conditions}

theorem steady_of_not_isLinked (h : m.plan.isLinked = false) (t : Timing) (ms : Matchers) (H : History)
    (k : DimensionKey) : (m.course t ms H k).steady = true := by
  have hlink : ∀ ev, m.linkOf ev = none := by
    intro ev
    cases hl : m.intervalLink ev with
    | error r =>
        rw [linkOf, hl]
        rfl
    | ok link =>
        rw [linkOf_eq hl, ← Option.not_isSome_iff_eq_none, intervalLink_isSome hl, h]
        exact Bool.false_ne_true
  have hplain : (m.course t ms H k).Plain := by
    refine List.foldlRecOn H _ ⟨rfl, fun _ hsp => by cases hsp⟩ fun c hc x _ => ?_
    rw [hlink]
    exact hc.follow (ms.judge x.1) (m.plan.isAt x.1 k) x.2
  exact hplain.steady

/-- A metric that has taken sparse maxima since `s`, in which some events came. -/
structure Crediting (m₀ : Metric) (t : Timing) (ms : Matchers) (cs₀ : Conditions) (k : DimensionKey) (s : Int)
    (H : History) (cs : Conditions) (τ : Int) (m : Metric) (rs : List Record) : Prop where
  paved : Paved m₀ (fun _ => True) s τ m rs
  gated : Gated m₀.plan cs k (fun l => l.isSome = m₀.plan.isLinked) m
  windows : m.windows = m₀.windows.after ms H
  conditions : cs = cs₀.after ms H
  wellFormed : cs.WellFormed
  past : ∀ x ∈ H, x.1.time ≤ τ
  early : ∀ x ∈ (m₀.course t ms H k).endings (m₀.isOn ms cs₀ H), ∀ slot, m.grid.current = some slot →
    x.time < slot.stop
  ledger : Ledger t m₀.grid.size (m₀.isOn ms cs₀ H) k (m₀.course t ms H k) s τ m rs

namespace Crediting

variable {ms : Matchers} {cs₀ : Conditions} {H : History}

theorem rule (h : Crediting m₀ t ms cs₀ k s H cs τ m rs) : m₀.plan.rule = .timed t :=
  h.gated.plan ▸ h.ledger.rule

theorem wait (h : Crediting m₀ t ms cs₀ k s H cs τ m rs) (hon : OnTime τ m) {τ' : Int} (hle : τ ≤ τ')
    (hon' : OnTime τ' m) : Crediting m₀ t ms cs₀ k s H cs τ' m rs where
  paved := h.paved.wait hon hle
  gated := h.gated
  windows := h.windows
  conditions := h.conditions
  wellFormed := h.wellFormed
  past x hx := Int.le_trans (h.past x hx) hle
  early := h.early
  ledger := h.ledger.wait hle fun iv hiv i hi hi' => by
    rw [(h.gated.interval iv hiv).1, isOn_of_le h.past hi, ← h.windows, ← h.conditions,
      hon.isActive_eq hon' hi hi', gateOpen, h.gated.plan]
    cases m₀.plan.gate <;> rfl

theorem roll (h : Crediting m₀ t ms cs₀ k s H cs slot.stop m rs) (hp : Placed slot.stop m)
    (hs : m.grid.current = some slot) (hlast : slot.stop < last) (hmax : t.aggregation = .maxSparse) :
    Crediting m₀ t ms cs₀ k s H cs slot.stop (m.roll cs slot).state (rs ++ (m.roll cs slot).records) where
  paved := h.paved.roll hp hs hlast cs
  gated := h.gated.roll h.rule cs slot
  windows := (roll_windows m cs slot).trans h.windows
  conditions := h.conditions
  wellFormed := h.wellFormed
  past := h.past
  early x hx slot' hs' := Int.lt_of_lt_of_le (h.early x hx slot hs) ((hp.roll cs hs).slot slot' hs').2.2.1
  ledger := h.ledger.roll h.paved hp hs hlast hmax (fun x hx => h.early x hx slot hs) cs

theorem deactivate (h : Crediting m₀ t ms cs₀ k s H cs τ m rs) (hmax : t.aggregation = .maxSparse) :
    Crediting m₀ t ms cs₀ k s H cs τ (m.deactivate τ) rs where
  paved := h.paved.deactivate τ
  gated := h.gated.deactivate h.rule τ cs
  windows := (deactivate_windows m τ).trans h.windows
  conditions := h.conditions
  wellFormed := h.wellFormed
  past := h.past
  early := deactivate_grid m τ ▸ h.early
  ledger := h.ledger.deactivate hmax

theorem flushPending (h : Crediting m₀ t ms cs₀ k s H cs τ m rs) :
    Crediting m₀ t ms cs₀ k s H cs τ m.flushPending.state (rs ++ m.flushPending.records) where
  paved := h.paved.flushPending
  gated := h.gated.flushPending
  windows := (congrArg Metric.windows (body_flushPending m) :).trans h.windows
  conditions := h.conditions
  wellFormed := h.wellFormed
  past := h.past
  early := (congrArg Metric.grid (body_flushPending m) :) ▸ h.early
  ledger := h.ledger.flushPending h.paved

theorem meet (h : Crediting m₀ t ms cs₀ k s H cs τ m rs) (hon : OnTime τ m) (hlast : τ < last)
    (hmax : t.aggregation = .maxSparse) (hits : Hits) (cs' : Conditions) :
    let n := (m.watch τ hits).meet cs' τ
    let xs := rs ++ ((m.watch τ hits).rollTo cs' τ).records
    n.plan = m₀.plan ∧ Placed τ n ∧ Paved m₀ (fun _ => True) s τ n xs ∧
      Ledger t m₀.grid.size (m₀.isOn ms cs₀ H) k (m₀.course t ms H k) s τ n xs := by
  intro n xs
  have hplaced := hon.toPlaced.watch τ hits
  have hfree : (m.watch τ hits).windows = [] ↔ m.windows = [] := List.map_eq_nil_iff
  have hpaved : Paved m₀ (fun _ => True) s τ (m.watch τ hits) rs := h.paved.congr rfl rfl hfree rfl
  have hledger : Ledger t m₀.grid.size (m₀.isOn ms cs₀ H) k (m₀.course t ms H k) s τ (m.watch τ hits) rs :=
    h.ledger.same rfl rfl h.ledger.spelled
  refine ⟨(meet_plan cs' _ _).trans h.gated.plan, (onTime_meet cs' hplaced (.inl hlast)).1.toPlaced, ?_, ?_⟩
  · exact hpaved.meet hplaced (fun hw => hon.active_of_free (hfree.1 hw)) hlast (fun _ => trivial) cs'
  · exact hledger.meet hpaved hplaced hlast hmax h.early cs'

theorem not_relinks (h : Crediting m₀ t ms cs₀ k s H cs ev.time m rs) (hon : OnTime ev.time m) (hlast : ev.time < last)
    (hmax : t.aggregation = .maxSparse)
    (hsteady : (m₀.course t ms (H ++ [(ev, (m.see cs ev (ms.judge ev)).2.isAccepted)]) k).steady = true) :
    ¬ m.Relinks t ev (ms.judge ev) k := by
  rintro ⟨hstart, hstop, hall, hat, iv, link, hiv, hl, hne⟩
  rw [h.gated.plan] at hat
  rw [intervalLink_congr h.gated.plan] at hl
  rcases h.ledger.spelled.current with ⟨-, hnone⟩ | ⟨sp, iv', hsp, hiv', hheld⟩
  · cases hnone.symm.trans hiv
  · cases hiv'.symm.trans hiv
    obtain ⟨hplan, hp, hpaved, hledger⟩ := h.meet hon hlast hmax (ms.judge ev) (cs.onEvent ev (ms.judge ev)).1
    have haccepted : (m.see cs ev (ms.judge ev)).2 = .accepted :=
      hledger.accepted hmax (hpaved.past hp) hsp hstart hstop hall (hplan ▸ hat)
        ((intervalLink_congr hplan ev).trans hl)
    rw [course_append, haccepted, linkOf_eq hl, Course.follow, hall, if_neg Bool.false_ne_true, Course.turn, hstart,
      hstop, hat] at hsteady
    exact hne (hheld.link ▸ Course.link_of_steady hsp hsteady)

theorem see (h : Crediting m₀ t ms cs₀ k s H cs ev.time m rs) (hon : OnTime ev.time m) (hlast : ev.time < last)
    (hmax : t.aggregation = .maxSparse)
    (hsteady : (m₀.course t ms (H ++ [(ev, (m.see cs ev (ms.judge ev)).2.isAccepted)]) k).steady = true) :
    Crediting m₀ t ms cs₀ k s (H ++ [(ev, (m.see cs ev (ms.judge ev)).2.isAccepted)]) (cs.onEvent ev (ms.judge ev)).1
      ev.time (m.see cs ev (ms.judge ev)).1.state (rs ++ (m.see cs ev (ms.judge ev)).1.records) := by
  obtain ⟨hplan, hp, hpaved, hledger⟩ := h.meet hon hlast hmax (ms.judge ev) (cs.onEvent ev (ms.judge ev)).1
  have hplaced := hon.toPlaced.watch ev.time (ms.judge ev)
  have hs : s ≤ ev.time := Int.le_trans h.paved.le hon.floor_le
  have hrecords : (m.see cs ev (ms.judge ev)).1.records =
      ((m.watch ev.time (ms.judge ev)).rollTo (cs.onEvent ev (ms.judge ev)).1 ev.time).records := by
    rw [Metric.see, onEvent_eq, measure_records_of_isBucketed hpaved.bucketed, List.append_nil]
  have hmeasured := hledger.measure (cs.onEvent ev (ms.judge ev)).1 (ms.judge ev) (cs.onEvent ev (ms.judge ev)).2
    hpaved hp hmax hs
  rw [hplan, linkOf_congr hplan] at hmeasured
  have hseen : Ledger t m₀.grid.size (m₀.isOn ms cs₀ (H ++ [(ev, (m.see cs ev (ms.judge ev)).2.isAccepted)])) k
      (m₀.course t ms (H ++ [(ev, (m.see cs ev (ms.judge ev)).2.isAccepted)]) k) s ev.time
      (m.see cs ev (ms.judge ev)).1.state (rs ++ (m.see cs ev (ms.judge ev)).1.records) := by
    rw [hrecords, course_append]
    exact (hmeasured.congr fun l i hi => isOn_append hi).note _
  refine ⟨h.paved.see hon hlast (fun _ => trivial) cs (ms.judge ev),
    h.gated.see h.rule h.wellFormed (h.not_relinks hon hlast hmax hsteady), ?_, ?_,
    h.wellFormed.onEvent ev (ms.judge ev), fun x hx => ?_, fun x hx slot hslot => ?_, hseen⟩
  · rw [see_windows, h.windows, Activations.after_append]
  · rw [Conditions.after_append, ← h.conditions]
  · rcases List.mem_append.1 hx with hx | hx
    · exact h.past x hx
    · exact List.mem_singleton.1 hx ▸ Int.le_refl _
  · -- nothing is due when an event has been seen
    have hquiet := (onTime_onEvent (cs.onEvent ev (ms.judge ev)).1 ev (ms.judge ev) (cs.onEvent ev (ms.judge ev)).2
      hplaced (.inl hlast)).2
    exact Int.lt_of_le_of_lt (hseen.spelled.within_of_mem_endings hx).2 (hquiet.lt_stop hslot)

theorem start (hm : Fresh m₀) (hrule : m₀.plan.rule = .timed t) (hmax : t.aggregation = .maxSparse)
    (hcs : cs₀.WellFormed) : Crediting m₀ t ms cs₀ k s [] cs₀ s (m₀.start cs₀ s) [] := by
  have hb := isBucketed_of_timed hrule
  have howed : m₀.owed = [] := by rw [owed, hm.pending]; rfl
  have hgated : Gated m₀.plan cs₀ k (fun l => l.isSome = m₀.plan.isLinked) m₀ :=
    ⟨rfl, fun iv hiv => by rw [hm.intervals] at hiv; cases hiv⟩
  have hledger : Ledger t m₀.grid.size (m₀.isOn ms cs₀ []) k (m₀.course t ms [] k) s s m₀ [] := by
    refine ⟨hrule, by simp [howed], hm.intervals ▸ Intervals.spelled_empty .., ?_⟩
    exact ⟨fun r hr => (List.not_mem_nil hr).elim, fun x hx => (List.not_mem_nil hx).elim⟩
  refine ⟨.start hm hb cs₀ trivial, hgated.start hrule s, ?_, rfl, hcs, by simp, fun x hx => (List.not_mem_nil hx).elim,
    ?_⟩
  · rcases start_cases m₀ cs₀ s with hstart | hstart <;> rw [hstart]
    · exact activate_windows m₀ cs₀ s
    · rfl
  · rcases start_cases m₀ cs₀ s with hstart | hstart <;> rw [hstart]
    · exact hledger.activate hmax cs₀
    · exact hledger

theorem gathers_settle (h : Crediting m₀ t ms cs₀ k s H cs τ m rs) (hmax : t.aggregation = .maxSparse) :
    (m.settle τ).Gathers k (((m₀.course t ms H k).endings (m₀.isOn ms cs₀ H)).filter (Past (rs ++ m.owed) ·.time) ++
        (m₀.course t ms H k).still (m₀.isOn ms cs₀ H) τ) := by
  refine gathers_of_totals (settle_plan m τ ▸ h.ledger.rule) ?_ fun x hx => ?_
  · rw [settle_timed h.ledger.rule, hmax]
    exact h.ledger.spelled.settle
  · rcases List.mem_append.1 hx with hx | hx
    · exact Course.pos_of_mem_endings (List.mem_of_mem_filter hx)
    · exact Course.pos_of_mem_still hx

theorem closeAt (h : Crediting m₀ t ms cs₀ k s H cs τ m rs) (hon : OnTime τ m) (hmax : t.aggregation = .maxSparse)
    (hs : m.grid.current = some slot) :
    Credited m₀.grid.size k ((m₀.course t ms H k).endings (m₀.isOn ms cs₀ H))
      (fun a => if a = slot.start then (m₀.course t ms H k).still (m₀.isOn ms cs₀ H) τ else []) (fun _ => False)
      (rs ++ (m.closeAt τ).records) := by
  have hafter := (h.paved.closeAt hon.toPlaced).1
  have hgathers := h.gathers_settle hmax
  rcases closeAt_closes hs (hon.slot slot hs).2.1 with ⟨hcloses, -⟩ | ⟨hr, -, hnone, -⟩
  · have hsize := (hon.size h.paved.bucketed).1
    have hend := hon.stop_le hs
    have hpaving := h.paved.paving
    have hlasting := h.ledger.lasting
    have hcredited := h.ledger.credited
    rw [h.paved.size] at hsize hend
    rw [floor_of_slot hs] at hpaving
    rw [← settle_owed m τ] at hpaving hlasting hcredited hgathers
    exact hcloses.credited hsize hlasting hpaving hafter
      (fun x hx => Int.lt_of_lt_of_le (h.early x hx slot hs) hend) hgathers hcredited
  · obtain ⟨hwaits, hstill⟩ := List.append_eq_nil_iff.1 (hgathers.eq_nil hr)
    rw [hnone, List.append_nil]
    refine h.ledger.credited.idle (fun x hx hpast => ?_) fun a => by rw [hstill, ite_self]
    exact List.filter_eq_nil_iff.1 hwaits x hx (decide_eq_true hpast)

theorem rows_closeAt (h : Crediting m₀ t ms cs₀ k s H cs τ m rs) (hon : OnTime τ m) (hs : m.grid.current = some slot) :
    (∀ r ∈ bucketsOf k rs, r.start < slot.start) ∧ (∀ r ∈ bucketsOf k (m.closeAt τ).records, r.start = slot.start) ∧
      (bucketsOf k (m.closeAt τ).records).length = (m.settle τ).rows.countP (·.key.canonical = k.canonical) := by
  have hclosed : bucketsOf k (m.closeAt τ).records =
      ((m.settle τ).rows.filter (·.key.canonical = k.canonical)).map (m.toBucket slot τ) := by
    rw [bucketsOf, buckets_closeAt m hs, Int.max_eq_left (hon.slot slot hs).2.1, List.filter_map]
    rfl
  refine ⟨fun r hr => ?_, fun r hr => ?_, ?_⟩
  · obtain ⟨hwhole, hle⟩ := h.paved.paving.whole_of_row (List.mem_append_left _ (Record.mem_of_mem_bucketsOf hr))
    have hsize := (hon.size h.paved.bucketed).1
    rw [floor_of_slot hs] at hle
    rw [h.paved.size] at hsize
    omega
  · rw [hclosed] at hr
    obtain ⟨row, -, rfl⟩ := List.mem_map.1 hr
    rfl
  · rw [hclosed, List.length_map, ← List.countP_eq_length_filter]

theorem conclude (h : Crediting m₀ t ms cs₀ k s H cs τ m rs) (hon : OnTime τ m) (hmax : t.aggregation = .maxSparse) :
    Concluded m₀.grid.size k ((m₀.course t ms H k).endings (m₀.isOn ms cs₀ H))
      ((m₀.course t ms H k).still (m₀.isOn ms cs₀ H) τ) m.grid.current
      (rs ++ (m.closeAt τ).records ++ (m.closeAt τ).state.owed) := by
  have hpaving := (h.paved.closeAt hon.toPlaced).1
  rw [← List.append_assoc] at hpaving
  cases hs : m.grid.current with
  | none =>
      rw [closeAt_of_none hs, List.append_nil] at hpaving ⊢
      refine ⟨?_, by simp, by simp⟩
      exact (h.ledger.credited.append hpaving (bucketsOf_owed m k)).weaken fun i hi => ⟨rfl, hi⟩
  | some slot =>
      have hcredited := (h.closeAt hon hmax hs).append hpaving (bucketsOf_owed _ k)
      obtain ⟨hbefore, hstart, hcount⟩ := h.rows_closeAt hon hs
      have hrows : bucketsOf k (rs ++ (m.closeAt τ).records ++ (m.closeAt τ).state.owed) =
          bucketsOf k rs ++ bucketsOf k (m.closeAt τ).records := by
        rw [Record.bucketsOf_append, bucketsOf_owed, List.append_nil, Record.bucketsOf_append]
      refine ⟨?_, fun slot' hs' hstill => ?_, fun slot' hs' r hr => ?_⟩
      · simpa using hcredited.weaken fun _ hfalse => hfalse.elim
      · cases hs'
        have hnone : (bucketsOf k rs).countP (·.start = slot.start) = 0 := by
          refine List.countP_eq_zero.2 fun r hr heq => ?_
          exact absurd (of_decide_eq_true heq) (Int.ne_of_lt (hbefore r hr))
        have hall : (bucketsOf k (m.closeAt τ).records).countP (·.start = slot.start) =
            (bucketsOf k (m.closeAt τ).records).length :=
          List.countP_eq_length.2 fun r hr => decide_eq_true (hstart r hr)
        rw [hrows, List.countP_append, hnone, hall, hcount, Nat.zero_add]
        exact (h.gathers_settle hmax).row (List.append_ne_nil_of_right_ne_nil _ hstill)
      · cases hs'
        rw [hrows] at hr
        rcases List.mem_append.1 hr with hr | hr
        · exact Int.le_of_lt (hbefore r hr)
        · exact Int.le_of_eq (hstart r hr)

theorem shutdown (h : Crediting m₀ t ms cs₀ k s H cs τ m rs) (hon : OnTime τ m) (hmax : t.aggregation = .maxSparse)
    {stop : Int} (hle : τ ≤ stop) (hlast : stop ≤ last) :
    Concluded m₀.grid.size k ((m₀.course t ms H k).endings (m₀.isOn ms cs₀ H))
      ((m₀.course t ms H k).still (m₀.isOn ms cs₀ H) stop) (m.advance cs stop false).state.grid.current
      (rs ++ (m.shutdown cs stop).records) := by
  obtain ⟨hstop, hcrediting⟩ := advance_course
    (P := fun τ m rs => Crediting m₀ t ms cs₀ k s H cs τ m rs) cs
    (fun _ _ _ _ hon h hle hon' => h.wait hon hle hon')
    (fun _ _ _ hon h hs hlast => h.roll hon.toPlaced hs hlast hmax)
    (fun _ _ _ _ h _ => h.deactivate hmax) hon h hle hlast
  have hconcluded := hcrediting.conclude hstop hmax
  rw [Metric.shutdown, Emitting.andThen_records, Emitting.andThen_records, Emitting.andThen_state, flushPending_records]
  simpa only [List.append_assoc] using hconcluded

theorem isOpenAt (h : Crediting m₀ t ms cs₀ k s H cs τ m rs) (hon : OnTime τ m) {stop : Int} (hle : τ ≤ stop)
    (hlast : stop ≤ last) (hfree : m₀.windows = []) :
    (m.advance cs stop false).state.grid.current ≠ none ∧
      ∀ x ∈ (m₀.course t ms H k).endings (m₀.isOn ms cs₀ H), Record.IsOpenAt (rs ++ (m.shutdown cs stop).records)
        (m.advance cs stop false).state.grid.current x.time := by
  obtain ⟨hstop, hpaved⟩ := h.paved.advance hon cs hle hlast
  have hcurrent := hstop.covered (hstop.active_of_free (hpaved.free.2 hfree)) hpaved.bucketed
  refine ⟨hcurrent, fun x hx => ?_⟩
  obtain ⟨hfirst, hbefore⟩ := h.ledger.spelled.within_of_mem_endings hx
  rcases Int.lt_or_eq_of_le (Int.le_trans hbefore hle) with hlt | heq
  · exact .inl ((h.paved.shutdown hon cs hle hlast).2 hfree x.time hfirst hlt)
  · obtain ⟨slot, hs⟩ := Option.ne_none_iff_exists'.1 hcurrent
    exact .inr ⟨slot, hs, heq ▸ (hstop.slot slot hs).2.1⟩

end Crediting

/-- At every instant of its life a metric that takes sparse maxima has the time of a key where it belongs. -/
theorem Life.crediting {ms : Matchers} {cs₀ : Conditions} {H : History} (hm : Fresh m₀)
    (hrule : m₀.plan.rule = .timed t) (hmax : t.aggregation = .maxSparse) (hcs : cs₀.WellFormed)
    (hs : Instant.InRange s) (h : Life ms cs₀ m₀ s H cs τ m rs) (hsteady : (m₀.course t ms H k).steady = true) :
    OnTime τ m ∧ Crediting m₀ t ms cs₀ k s H cs τ m rs := by
  have hlife := induction (P := fun H cs τ m rs => (m₀.course t ms H k).steady = true →
    Crediting m₀ t ms cs₀ k s H cs τ m rs) ?_ ?_ ?_ ?_ ?_ ?_ hm hs h
  · exact hlife.imp_right fun h => h hsteady
  · exact fun _ _ => .start hm hrule hmax hcs
  · exact fun _ _ _ _ _ _ hon h hle hon' hst => (h hst).wait hon hle hon'
  · exact fun _ _ _ _ _ hon h hs hlast hst => (h hst).roll hon.toPlaced hs hlast hmax
  · exact fun _ _ _ _ _ _ h _ hst => (h hst).deactivate hmax
  · intro H cs m rs ev hon h hlast hst
    exact (h (Course.steady_of_follow (course_append m₀ t ms H _ k ▸ hst))).see hon hlast hmax hst
  · exact fun _ _ _ _ _ h hst => (h hst).flushPending

end EventMetrics.Metric
