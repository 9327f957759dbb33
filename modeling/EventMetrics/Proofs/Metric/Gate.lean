import EventMetrics.Proofs.Condition
import EventMetrics.Proofs.Metric.Timed

namespace EventMetrics

open Definition (DurationAggregation)

def MetricPlan.isLinked (p : MetricPlan) : Bool := p.gate.any Gate.isLinked

namespace Metric

/-- An event starts the open interval of a key again, under another link. -/
def Relinks (m : Metric) (t : Timing) (ev : Event) (hits : Hits) (k : DimensionKey) : Prop :=
  hits.get t.start = true ∧ hits.get t.stop = false ∧ t.stopAll.any hits.get = false ∧
    m.plan.isAt ev k = true ∧ ∃ iv link, m.intervals.opened.get? k = some iv ∧ m.intervalLink ev = .ok link ∧
      link.map DimensionKey.canonical ≠ iv.link.map DimensionKey.canonical

theorem intervalLink_isSome {m : Metric} {ev : Event} {link : Option DimensionKey}
    (h : m.intervalLink ev = .ok link) : link.isSome = m.plan.isLinked := by
  rw [intervalLink] at h
  rw [MetricPlan.isLinked]
  cases hg : m.plan.gate with
  | none =>
      rw [hg] at h
      cases h
      rfl
  | some g =>
      rw [Option.any_some]
      rw [hg] at h
      dsimp only at h
      split at h
      next hl =>
        split at h
        · cases h
          exact hl.symm
        · cases h
      next hl =>
        cases h
        simpa using hl

/-- A metric with plan `p`, where time runs for the interval of a key, if there is one, exactly while
the gate at its link is open, which is one of `links`. -/
structure Gated (p : MetricPlan) (cs : Conditions) (k : DimensionKey) (links : Option DimensionKey → Prop)
    (m : Metric) : Prop where
  plan : m.plan = p
  interval : ∀ iv, m.intervals.opened.get? k = some iv →
    iv.since.isSome = m.gateOpen cs iv.link ∧ links iv.link

theorem gateOpen_link (m : Metric) (cs : Conditions) {l l' : Option DimensionKey}
    (h : l.map DimensionKey.canonical = l'.map DimensionKey.canonical) : m.gateOpen cs l = m.gateOpen cs l' := by
  have hquery : ∀ g, cs.query g l = cs.query g l' := by
    intro g
    cases l with
    | none =>
        rw [Option.map_none, eq_comm, Option.map_eq_none_iff] at h
        rw [h]
    | some k =>
        obtain ⟨k', rfl, hk⟩ := Option.map_eq_some_iff.1 h.symm
        unfold Conditions.query
        cases cs.nodes[g]? with
        | none => rfl
        | some d =>
            cases d with
            | simple c => exact (Condition.Simple.signalAt_congr hk c).symm
            | combination op children => rfl
  rw [gateOpen, gateOpen]
  cases m.plan.gate with
  | none => rfl
  | some g => simp only [hquery]

variable {p : MetricPlan} {cs cs' : Conditions} {k : DimensionKey} {links : Option DimensionKey → Prop}
  {m n : Metric} {t : Timing} {ev : Event} {hits : Hits} {u : Condition.Update}

namespace Gated

theorem change (h : Gated p cs k links m) (hplan : n.plan = m.plan) {f : Interval → Interval}
    (hopened : n.intervals.opened.get? k = (m.intervals.opened.get? k).map f)
    (hlink : ∀ iv, (f iv).link = iv.link)
    (hsince : ∀ iv, iv.since.isSome = m.gateOpen cs iv.link → (f iv).since.isSome = n.gateOpen cs' iv.link) :
    Gated p cs' k links n := by
  refine ⟨hplan.trans h.plan, fun iv' hiv' => ?_⟩
  rw [hopened, Option.map_eq_some_iff] at hiv'
  obtain ⟨iv, hiv, rfl⟩ := hiv'
  obtain ⟨hruns, hl⟩ := h.interval iv hiv
  rw [hlink]
  exact ⟨hsince iv hruns, hl⟩

theorem congr (h : Gated p cs k links m) (hplan : n.plan = m.plan) (hactive : n.active = m.active)
    (hopened : n.intervals.opened = m.intervals.opened) : Gated p cs k links n := by
  refine h.change hplan (f := id) (by simp [hopened]) (fun _ => rfl) fun iv hruns => ?_
  rw [gateOpen_congr hplan hactive]
  exact hruns

theorem of_body (h : Gated p cs k links m) (hbody : n.body = m.body) : Gated p cs k links n :=
  h.congr (congrArg Metric.plan hbody :) (congrArg Metric.active hbody :)
    (congrArg (fun m : Metric => m.intervals.opened) hbody :)

theorem deactivate (h : Gated p cs k links m) (hrule : p.rule = .timed t) (time : Int) (cs' : Conditions) :
    Gated p cs' k links (m.deactivate time) := by
  refine h.change (deactivate_plan m time) (f := fun iv => (Intervals.regateOne t.aggregation time false iv).1)
    ?_ (fun iv => Intervals.regateOne_link _ _ _ _) fun iv _ => ?_
  · rw [deactivate_timed (h.plan ▸ hrule)]
    exact Intervals.opened_sweep m.intervals _ k
  · simp [Intervals.regateOne_since, gateOpen]

theorem activate (cs' : Conditions) (h : Gated p cs k links m) (hrule : p.rule = .timed t) (time : Int) :
    Gated p cs' k links (m.activate cs' time) := by
  refine h.change (activate_plan m cs' time) (f := fun iv =>
    (Intervals.regateOne t.aggregation time ((m.activate cs' time).gateOpen cs' iv.link) iv).1) ?_
    (fun iv => Intervals.regateOne_link _ _ _ _) fun iv _ => Intervals.regateOne_since _ _ _ _
  rw [activate_timed (h.plan ▸ hrule)]
  exact Intervals.opened_sweep m.intervals _ k

theorem start (h : Gated p cs k links m) (hrule : p.rule = .timed t) (time : Int) :
    Gated p cs k links (m.start cs time) := by
  rcases start_cases m cs time with hstart | hstart <;> rw [hstart]
  · exact h.activate cs hrule time
  · exact h

theorem accrue (h : Gated p cs k links m) (hrule : p.rule = .timed t) (time : Int) :
    Gated p cs k links (m.accrue time) := by
  have hactive : (m.accrue time).active = m.active := by simp [Metric.accrue]
  have hplan := accrue_plan m time
  refine h.change hplan (f := fun iv => (Intervals.accrueOne t.aggregation time iv).1) ?_ (fun iv => ?_)
    fun iv hruns => ?_
  · rw [accrue_timed (h.plan ▸ hrule), Intervals.accrueTo_eq]
    exact Intervals.opened_sweep m.intervals _ k
  · exact Intervals.accrueOne_link _ _ iv
  · rw [gateOpen_congr hplan hactive, ← hruns]
    exact Intervals.accrueOne_since _ _ iv

theorem settle (h : Gated p cs k links m) (hrule : p.rule = .timed t) (time : Int) :
    Gated p cs k links (m.settle time) := by
  have hopened : (m.settle time).intervals.opened = (m.accrue time).intervals.opened := by
    rw [settle_timed (h.plan ▸ hrule), accrue_timed (h.plan ▸ hrule)]
    cases hagg : t.aggregation <;> rfl
  exact (h.accrue hrule time).congr (by simp [Metric.settle, Metric.accrue])
    (by simp [Metric.settle, Metric.accrue]) hopened

theorem proceed (h : Gated p cs k links m) (hrule : p.rule = .timed t) (cs' : Conditions) (slot : Slot) :
    Gated p cs k links (m.proceed cs' slot) := by
  have hclosed : Gated p cs k links { m with grid := m.grid.close } := h.congr rfl rfl rfl
  rcases proceed_cases m cs' slot with hnext | hnext | hnext <;> rw [hnext]
  · exact h.congr rfl rfl rfl
  · exact hclosed.deactivate hrule slot.stop cs
  · exact hclosed

theorem roll (h : Gated p cs k links m) (hrule : p.rule = .timed t) (cs' : Conditions) (slot : Slot) :
    Gated p cs k links (m.roll cs' slot).state := by
  have hcut : Gated p cs k links (m.accrue slot.stop).clearBucket :=
    (h.accrue hrule slot.stop).congr rfl rfl rfl
  exact (hcut.proceed hrule cs' slot).of_body (body_roll m cs' slot)

theorem advance (h : Gated p cs k links m) (hrule : p.rule = .timed t) (cs' : Conditions) (limit : Int)
    (inclusive : Bool) : Gated p cs k links (m.advance cs' limit inclusive).state :=
  advance_induction (P := fun m _ => Gated p cs k links m) (fun _ _ slot h _ _ _ => h.roll hrule cs' slot)
    (fun _ _ due h _ _ _ => h.deactivate hrule due cs) m [] h

theorem rollTo (h : Gated p cs k links m) (hrule : p.rule = .timed t) (cs' : Conditions) (time : Int) :
    Gated p cs k links (m.rollTo cs' time).state :=
  rollTo_induction (P := fun m _ => Gated p cs k links m) (fun _ _ slot h _ _ => h.roll hrule cs' slot) m [] h

theorem flushPending (h : Gated p cs k links m) : Gated p cs k links m.flushPending.state :=
  h.of_body (body_flushPending m)

theorem advanceTo (h : Gated p cs k links m) (hrule : p.rule = .timed t) (now : Int) :
    Gated p cs k links (m.advanceTo cs now).state :=
  (h.advance hrule cs now false).flushPending

theorem closeAt (h : Gated p cs k links m) (hrule : p.rule = .timed t) (now : Int) :
    Gated p cs k links (m.closeAt now).state := by
  cases hs : m.grid.current with
  | none => simpa [Metric.closeAt, hs] using h
  | some slot =>
      have hsettled := h.settle hrule (max now slot.start)
      have hclosed : Gated p cs k links
          { (m.settle (max now slot.start)).clearBucket.body with grid := m.grid.close } :=
        hsettled.congr rfl rfl rfl
      exact hclosed.of_body (body_closeAt m hs now)

theorem shutdown (h : Gated p cs k links m) (hrule : p.rule = .timed t) (now : Int) :
    Gated p cs k links (m.shutdown cs now).state :=
  ((h.advance hrule cs now false).closeAt hrule now).flushPending

theorem meet (h : Gated p cs k links m) (hrule : p.rule = .timed t) (cs' : Conditions) (time : Int) :
    Gated p cs k links (m.meet cs' time) ∨ Gated p cs' k links (m.meet cs' time) := by
  have hrolled := h.rollTo hrule cs' time
  rw [Metric.meet]
  rcases followWindows_cases (m.rollTo cs' time).state cs' time with hfollow | hfollow | hfollow <;> rw [hfollow]
  · exact .inr (hrolled.activate cs' hrule time)
  · exact .inl (hrolled.deactivate hrule time cs)
  · exact .inl hrolled

theorem regate (cs' : Conditions) (h : Gated p cs k links m) (time : Int) :
    Gated p cs' k links (m.regate t cs' time) := by
  refine h.change rfl
    (f := fun iv => (Intervals.regateOne t.aggregation time (m.gateOpen cs' iv.link) iv).1)
    (Intervals.opened_sweep m.intervals _ k) (fun iv => Intervals.regateOne_link _ _ _ _) fun iv _ => ?_
  exact Intervals.regateOne_since _ _ _ _

theorem prepare (t : Timing) (ev : Event) (hits : Hits) (h : Gated p cs k links m)
    (hstill : (m.plan.gate.any fun x => u.isChanged x.condition) = false → Gated p cs' k links m) :
    Gated p cs' k (fun l => links l ∧ t.stopAll.any hits.get = false) (m.prepareIntervals t cs' ev hits u) := by
  have hasked : Gated p cs' k links
      (if (m.plan.gate.any fun x => u.isChanged x.condition) then m.regate t cs' ev.time else m) := by
    split
    next => exact h.regate cs' ev.time
    next hchanged => exact hstill (by simpa using hchanged)
  unfold prepareIntervals
  dsimp only
  split
  next => exact ⟨hasked.plan, fun iv hiv => by cases hiv⟩
  next hstop => exact ⟨hasked.plan, fun iv hiv => ⟨(hasked.interval iv hiv).1, (hasked.interval iv hiv).2,
      by simpa using hstop⟩⟩

theorem insert {iv : Interval} {j : DimensionKey} (h : Gated p cs k links m)
    (hiv : Keyed.text k = Keyed.text j → iv.since.isSome = m.gateOpen cs iv.link ∧ links iv.link) :
    Gated p cs k links { m with
      intervals := { m.intervals with opened := m.intervals.opened.insert j iv } } := by
  refine ⟨h.plan, fun iv' hiv' => ?_⟩
  dsimp only at hiv'
  rw [Table.get?_insert] at hiv'
  split at hiv'
  next hk =>
    cases hiv'
    exact hiv hk
  next => exact h.interval iv' hiv'

theorem start_interval {ev : Event} {j : DimensionKey} (h : Gated p cs k links m)
    (hlinked : ∀ l, links l → l.isSome = p.isLinked)
    (hsame : m.plan.isAt ev k = true → ∀ l link, links l → m.intervalLink ev = .ok link →
      link.map DimensionKey.canonical = l.map DimensionKey.canonical)
    (hj : DimensionKey.extract? ev m.plan.dimensions = some j) (hn : m.startInterval t cs ev j = .ok n) :
    Gated p cs k (fun l => l.isSome = p.isLinked) n := by
  have hall : Gated p cs k (fun l => l.isSome = p.isLinked) m :=
    ⟨h.plan, fun iv hiv => (h.interval iv hiv).imp_right (hlinked _)⟩
  obtain ⟨link, is, hl, his, rfl⟩ := (startInterval_eq_ok cs ev).1 hn
  rcases Intervals.start_cases his with ⟨iv, hiv, rfl⟩ | ⟨-, rfl⟩
  · refine hall.insert fun hk => ?_
    rw [← Table.get?_congr hk] at hiv
    obtain ⟨hruns, hlinks⟩ := h.interval iv hiv
    have hat : m.plan.isAt ev k = true := by
      rw [MetricPlan.isAt, hj]
      exact decide_eq_true hk
    have hopen := gateOpen_link m cs (hsame hat _ _ hlinks hl)
    refine ⟨?_, hlinked _ hlinks⟩
    dsimp only
    rw [hopen]
    cases hs : iv.since <;> cases hg : m.gateOpen cs iv.link <;> simp_all
  · refine hall.insert fun _ => ⟨?_, h.plan ▸ intervalLink_isSome hl⟩
    dsimp only
    cases m.gateOpen cs link <;> rfl

theorem stop_interval (h : Gated p cs k links m) (agg : DurationAggregation) (nested : Bool) (time : Int)
    (j : DimensionKey) : Gated p cs k links { m with intervals := m.intervals.stop agg nested time j } := by
  rcases Intervals.stop_cases m.intervals agg nested time j with ⟨-, hstop⟩ | ⟨iv, hj, ⟨-, hstop⟩ | ⟨-, hstop⟩⟩ <;>
    rw [hstop]
  · exact h
  · refine h.insert fun hk => ?_
    rw [← Table.get?_congr hk] at hj
    exact h.interval iv hj
  · refine ⟨h.plan, fun iv' hiv' => ?_⟩
    dsimp only at hiv'
    rw [Table.get?_erase] at hiv'
    split at hiv'
    · cases hiv'
    · exact h.interval iv' hiv'

theorem turn (h : Gated p cs k links m) (hlinked : ∀ l, links l → l.isSome = p.isLinked)
    (hsame : hits.get t.start = true → hits.get t.stop = false → m.plan.isAt ev k = true → ∀ l link, links l →
      m.intervalLink ev = .ok link → link.map DimensionKey.canonical = l.map DimensionKey.canonical) :
    Gated p cs k (fun l => l.isSome = p.isLinked) (m.turnInterval t cs ev hits).1 := by
  have hall : Gated p cs k (fun l => l.isSome = p.isLinked) m :=
    ⟨h.plan, fun iv hiv => (h.interval iv hiv).imp_right (hlinked _)⟩
  rcases turnInterval_cases m cs ev hits t with
    ⟨o, -, hturn⟩ | ⟨j, n, hstart, hstop, hj, hn, hturn⟩ | ⟨j, hturn⟩ <;> rw [hturn]
  · exact hall
  · exact h.start_interval hlinked (hsame hstart hstop) hj hn
  · exact hall.stop_interval t.aggregation t.nested ev.time j

theorem note (h : Gated p cs k links m) (o : Outcome) : Gated p cs k links (m.note o) := by
  cases o <;> exact h.congr rfl rfl rfl

theorem of_not_changed (h : Gated p cs k links m) (hcs : cs.WellFormed)
    (hstill : (m.plan.gate.any fun x => (cs.onEvent ev hits).2.isChanged x.condition) = false) :
    Gated p (cs.onEvent ev hits).1 k links m := by
  have hgate : ∀ l, m.gateOpen (cs.onEvent ev hits).1 l = m.gateOpen cs l := by
    intro l
    rw [gateOpen, gateOpen]
    cases hg : m.plan.gate with
    | none => rfl
    | some g =>
        rw [hg, Option.any_some] at hstill
        simp only [Conditions.query_eq_of_not_changed hcs hstill]
  exact ⟨h.plan, fun iv hiv => by rw [hgate]; exact h.interval iv hiv⟩

theorem measure (h : Gated p cs k links m ∨ Gated p (cs.onEvent ev hits).1 k links m) (hrule : p.rule = .timed t)
    (hcs : cs.WellFormed) (hlinked : ∀ l, links l → l.isSome = p.isLinked)
    (hsame : hits.get t.start = true → hits.get t.stop = false → t.stopAll.any hits.get = false →
      m.plan.isAt ev k = true → ∀ l link, links l → m.intervalLink ev = .ok link →
        link.map DimensionKey.canonical = l.map DimensionKey.canonical) :
    Gated p (cs.onEvent ev hits).1 k (fun l => l.isSome = p.isLinked)
      (m.measure (cs.onEvent ev hits).1 ev hits (cs.onEvent ev hits).2).1.state := by
  have hprepared : Gated p (cs.onEvent ev hits).1 k (fun l => links l ∧ t.stopAll.any hits.get = false)
      (m.prepareIntervals t (cs.onEvent ev hits).1 ev hits (cs.onEvent ev hits).2) := by
    rcases h with h | h
    · exact h.prepare t ev hits fun hstill => h.of_not_changed hcs hstill
    · exact h.prepare t ev hits fun _ => h
  have hplan : m.plan = p := h.elim plan plan
  rw [measure_timed _ _ _ _ (hplan ▸ hrule)]
  refine hprepared.turn (fun l hl => hlinked l hl.1) fun hstart hstop hat l link hl hlink => ?_
  rw [hprepared.plan, ← hplan] at hat
  rw [intervalLink, hprepared.plan, ← hplan] at hlink
  exact hsame hstart hstop hl.2 hat l link hl.1 hlink

theorem see (h : Gated p cs k (fun l => l.isSome = p.isLinked) m) (hrule : p.rule = .timed t) (hcs : cs.WellFormed)
    (hlink : ¬ m.Relinks t ev hits k) :
    Gated p (cs.onEvent ev hits).1 k (fun l => l.isSome = p.isLinked) (m.see cs ev hits).1.state := by
  have hown : Gated p cs k (fun l => l.isSome = p.isLinked ∧
      ∃ iv, m.intervals.opened.get? k = some iv ∧ iv.link = l) (m.watch ev.time hits) :=
    ⟨h.plan, fun iv hiv => ⟨(h.interval iv hiv).1, (h.interval iv hiv).2, iv, hiv, rfl⟩⟩
  have hmet := hown.meet hrule (cs.onEvent ev hits).1 ev.time
  have hplan := h.plan.trans (hmet.elim plan plan).symm
  have hmeasured := measure hmet hrule hcs (fun l hl => hl.1) fun hstart hstop hall hat l link hl hlinked => by
    obtain ⟨-, iv, hiv, rfl⟩ := hl
    by_contra hne
    rw [← hplan] at hat
    rw [intervalLink, ← hplan] at hlinked
    exact hlink ⟨hstart, hstop, hall, hat, iv, link, hiv, hlinked, hne⟩
  exact hmeasured.note _

theorem visit (h : Gated p cs k (fun l => l.isSome = p.isLinked) m) (hrule : p.rule = .timed t)
    (hcs : cs.WellFormed) (hlink : ¬ m.Relinks t ev hits k) :
    Gated p (cs.onEvent ev hits).1 k (fun l => l.isSome = p.isLinked) (m.visit cs ev hits).1.state := by
  have hown : Gated p cs k (fun l => l.isSome = p.isLinked ∧
      ∃ iv, m.intervals.opened.get? k = some iv ∧ iv.link = l) m :=
    ⟨h.plan, fun iv hiv => ⟨(h.interval iv hiv).1, (h.interval iv hiv).2, iv, hiv, rfl⟩⟩
  have hwaited := hown.advance hrule cs ev.time false
  have hplan := h.plan.trans hwaited.plan.symm
  have hstill : ¬ (m.advance cs ev.time false).state.Relinks t ev hits k := by
    rintro ⟨hstart, hstop, hall, hat, iv, link, hiv, hlinked, hne⟩
    obtain ⟨-, iv₀, hiv₀, heq⟩ := (hwaited.interval iv hiv).2
    rw [← hplan] at hat
    rw [intervalLink, ← hplan] at hlinked
    exact hlink ⟨hstart, hstop, hall, hat, iv₀, link, hiv₀, hlinked, heq ▸ hne⟩
  have hseen := see ⟨hwaited.plan, fun iv hiv => (hwaited.interval iv hiv).imp_right And.left⟩ hrule hcs hstill
  exact (hseen.advance hrule _ ev.time true).flushPending

end Gated

end Metric

end EventMetrics
