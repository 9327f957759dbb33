import EventMetrics.Proofs.Engine.Accepting
import EventMetrics.Proofs.Engine.Steps
import EventMetrics.Proofs.Condition.Below
import EventMetrics.Proofs.Condition.Overall

namespace EventMetrics

open Check
open Condition (Simple)

def Matcher.judge? (m : Matcher) (e : Event) (hits : Hits) : Option Bool :=
  match m with
  | .simple .. => some (m.judge e hits)
  | .combination op children => (children.mapM (hits[·]?)).map op.eval

def Matchers.judgeAt? (ms : Matchers) (e : Event) (hits : Hits) (index : Nat) : Option Hits := do
  let hit ← (← ms.nodes[index]?).judge? e hits
  if index < hits.length then some (hits.set index hit) else none

def Matchers.judge? (ms : Matchers) (e : Event) : Option Hits :=
  ms.order.foldlM (ms.judgeAt? e) (List.replicate ms.size false)

def Conditions.heed? (names : List String) (p : Conditions.Passing) (index : Nat) :
    Condition → Option (List Bool)
  | .simple _ => if index < names.length then some [] else none
  | .combination _ children => children.mapM (p.update.changed[·]?)

namespace Conditions

variable {cs : Conditions} {e : Event} {hits : Hits} {p : Passing} {i j : Nat} {l : List Nat}

def offer? (names : List String) (e : Event) (hits : Hits) (p : Passing) (index : Nat) : Option Passing := do
  let _ ← heed? names p index (← p.nodes[index]?)
  if index < p.update.changed.length then some (offer e hits p index) else none

def onEvent? (cs : Conditions) (e : Event) (hits : Hits) : Option (Conditions × Condition.Update) :=
  (cs.order.foldlM (offer? cs.names e hits) cs.arrival).map fun p => ({ cs with nodes := p.nodes }, p.update)

/-- A condition gives a signal, the signals of its children being asked for one by one. -/
inductive Gives (cs : Conditions) : Nat → Option DimensionKey → Signal → Prop
  | simple {i : Nat} {c : Simple} (key : Option DimensionKey) : cs.nodes[i]? = some (.simple c) →
      Gives cs i key (match key with | some k => c.signalAt k | none => c.overall)
  | combination {i : Nat} {op : LogicalOp} {children : List Nat} (key : Option DimensionKey)
      (signal : Nat → Signal) : cs.nodes[i]? = some (.combination op children) →
      (∀ c ∈ children, Gives cs c none (signal c)) →
      Gives cs i key (Signal.combine op (children.map signal))

end Conditions

structure Matchers.Indexed (ms : Matchers) : Prop where
  order : Graph.Orders (ms.nodes.map Matcher.children) ms.order
  children : ∀ m ∈ ms.nodes, ∀ c ∈ m.children, c < ms.size

def Condition.Indexed (matchers conditions : Nat) : Condition → Prop
  | .simple c => c.start < matchers ∧ c.stop < matchers ∧ ∀ s ∈ c.stopAll, s < matchers
  | .combination _ children => ∀ c ∈ children, c < conditions

structure Conditions.Indexed (matchers : Nat) (cs : Conditions) : Prop where
  order : Graph.Orders (cs.nodes.map Condition.children) cs.order
  names : cs.names.length = cs.size
  nodes : ∀ c ∈ cs.nodes, c.Indexed matchers cs.size

def MeasureRule.Indexed (matchers : Nat) : MeasureRule → Prop
  | .sampled what _ | .passed what => what < matchers
  | .timed t => t.start < matchers ∧ t.stop < matchers ∧ ∀ s ∈ t.stopAll, s < matchers

structure Metric.Indexed (matchers conditions : Nat) (m : Metric) : Prop where
  rule : m.plan.rule.Indexed matchers
  gate : ∀ g ∈ m.plan.gate, g.condition < conditions
  windows : ∀ a ∈ m.windows, a.trigger < matchers ∧ ∀ d ∈ a.deactivate, d < matchers

structure Engine.Indexed (e : Engine) : Prop where
  matchers : e.matchers.Indexed
  conditions : e.conditions.Indexed e.matchers.size
  metrics : ∀ m ∈ e.metrics, m.Indexed e.matchers.size e.conditions.size

theorem Matchers.Indexed.judge?_eq {ms : Matchers} (h : ms.Indexed) (e : Event) :
    ms.judge? e = some (ms.judge e) := by
  refine Option.foldlM_eq_some (P := fun hits => hits.length = ms.size) (fun hits hlen i hi => ?_)
    (List.length_replicate ..)
  have hlt : i < ms.nodes.length := by simpa using (h.order.mem i).1 hi
  have hnode : (ms.nodes[i]).judge? e hits = some ((ms.nodes[i]).judge e hits) := by
    cases hm : ms.nodes[i] with
    | simple atom constraints => rfl
    | combination op children =>
        have hget : ∀ c ∈ children, hits[c]? = some (hits.get c) := by
          intro c hc
          have hlt : c < hits.length :=
            hlen ▸ h.children _ (List.getElem_mem hlt) c (by rw [hm]; exact hc)
          rw [Hits.get, List.getD_eq_getElem _ _ hlt, List.getElem?_eq_getElem]
        rw [Matcher.judge?, Option.mapM_eq_some_map hget]
        rfl
  have hi' : i < ms.size := hlt
  rw [judgeAt?, judgeAt, List.getElem?_eq_getElem hlt]
  simp [hnode, hi', hlen]

theorem Condition.Indexed.children_lt {n k : Nat} {c : Condition} (h : c.Indexed n k) :
    ∀ i ∈ c.children, i < k := by
  cases c with
  | simple c => simp [children]
  | combination op children => exact h

namespace Conditions

variable {cs : Conditions} {e : Event} {hits : Hits} {p : Passing} {i j n k : Nat} {l : List Nat}

theorem children_meet (c : Condition) : (meet e hits c).children = c.children := by cases c <;> rfl

theorem Indexed.onEvent?_eq (h : cs.Indexed n) (e : Event) (hits : Hits) :
    cs.onEvent? e hits = some (cs.onEvent e hits) := by
  rw [onEvent?, Option.foldlM_eq_some (P := fun p : Passing => p.Flagged ∧
    p.nodes.map Condition.children = cs.nodes.map Condition.children) (g := offer e hits) ?_
    ⟨cs.flagged_arrival, rfl⟩]
  · rfl
  rintro p ⟨hflagged, hchildren⟩ i hi
  refine ⟨?_, hflagged.offer i, (map_offer children_meet p i).trans hchildren⟩
  have hlength : p.nodes.length = cs.size := by simpa [size] using congrArg List.length hchildren
  have hsize : i < cs.size := (Ordered.mem_order h.order).1 hi
  have hlt : i < p.nodes.length := hlength ▸ hsize
  have hbelow : ∀ c ∈ (p.nodes[i]).children, c < p.update.changed.length := by
    intro c hc
    have hnode : (p.nodes[i]).children = (cs.nodes.get ⟨i, hsize⟩).children := by
      have hget := congrArg (·[i]?) hchildren
      rw [List.getElem?_map, List.getElem?_map, List.getElem?_eq_getElem hlt, List.getElem?_eq_getElem hsize] at hget
      exact Option.some.inj hget
    rw [hflagged, hlength]
    exact (h.nodes _ (List.getElem_mem hsize)).children_lt c (hnode ▸ hc)
  have hheed : ∃ flags, heed? cs.names p i p.nodes[i] = some flags := by
    cases hc : p.nodes[i] with
    | simple c => exact ⟨[], by rw [heed?, if_pos (h.names ▸ hsize)]⟩
    | combination op children =>
        refine ⟨_, Option.mapM_eq_some_map (g := p.update.isChanged) fun c hmem => ?_⟩
        have hlt := hbelow c (by rw [hc]; exact hmem)
        rw [Condition.Update.isChanged, List.getD_eq_getElem _ _ hlt, List.getElem?_eq_getElem]
  obtain ⟨flags, hflags⟩ := hheed
  have hchanged : i < p.update.changed.length := hflagged ▸ hlt
  rw [offer?, List.getElem?_eq_getElem hlt]
  simp [hflags, hchanged]

theorem Indexed.gives (h : cs.Indexed n) (hi : i < cs.size) (key : Option DimensionKey) :
    cs.Gives i key (cs.query i key) := by
  have hordered : cs.Ordered := h.order
  refine hordered.induction (P := fun i => ∀ key, cs.Gives i key (cs.query i key)) (fun i c hn key => ?_)
    (fun i op children hn ih key => ?_) hi key
  · have hgives := Gives.simple key hn
    cases key <;> simpa only [query, hn] using hgives
  · rw [hordered.query_combination hn]
    exact .combination key _ hn fun c hmem => ih c hmem none

theorem meet_indexed {c : Condition} (h : c.Indexed n k) : (meet e hits c).Indexed n k := by
  cases c with
  | simple c =>
      obtain ⟨unseen, counts, hc⟩ := Simple.onEvent_eq c e hits
      rw [meet, hc]
      exact h
  | combination op children => exact h

theorem offer_indexed (h : ∀ c ∈ p.nodes, c.Indexed n k) (i : Nat) :
    ∀ c ∈ (offer e hits p i).nodes, c.Indexed n k := by
  intro c hc
  obtain ⟨j, hj⟩ := List.getElem?_of_mem hc
  rw [offer_nodes, List.getElem?_modify] at hj
  obtain ⟨d, hd, rfl⟩ := Option.map_eq_some_iff.1 hj
  have hindexed := h d (List.mem_of_getElem? hd)
  by_cases hij : i = j
  · rw [if_pos hij]
    exact meet_indexed hindexed
  · rwa [if_neg hij]

theorem Indexed.onEvent (h : cs.Indexed n) (e : Event) (hits : Hits) : (cs.onEvent e hits).1.Indexed n := by
  have hfold : ∀ (l : List Nat) (p : Passing), (∀ c ∈ p.nodes, c.Indexed n cs.size) →
      (∀ c ∈ (l.foldl (offer e hits) p).nodes, c.Indexed n cs.size) ∧
      (l.foldl (offer e hits) p).nodes.map Condition.children = p.nodes.map Condition.children := by
    intro l
    induction l with
    | nil => exact fun p hp => ⟨hp, rfl⟩
    | cons i l ih =>
        intro p hp
        obtain ⟨hnodes, hchildren⟩ := ih _ (offer_indexed hp i)
        exact ⟨hnodes, hchildren.trans (map_offer children_meet p i)⟩
  obtain ⟨hnodes, hchildren⟩ := hfold cs.order cs.arrival h.nodes
  have hsize : (cs.onEvent e hits).1.size = cs.size := size_onEvent cs e hits
  refine ⟨?_, h.names.trans hsize.symm, hsize ▸ hnodes⟩
  rw [onEvent_eq]
  exact hchildren.symm ▸ h.order

end Conditions

theorem lt_of_findIdx? {names : List String} {id : String} {i : Nat}
    (h : names.findIdx? (· = id) = some i) : i < names.length :=
  (List.getElem?_eq_some_iff.1 (Graph.findIdx?_eq_some h)).1

namespace Matchers

variable {defs : List Definition.Matcher} {ms : Matchers} {i : Nat} {id : String} {x : Option String}
  {y : Option Nat} {referrer : Definition.Referrer}

theorem compile_size (h : compile defs = .ok ms) : ms.names.length = ms.size := by
  rw [compile_eq, arrange_eq_ok] at h
  obtain ⟨-, nodes, order, hnodes, -, rfl⟩ := h
  rw [List.length_map, size, hnodes.length_eq]

theorem compile_indexed (h : compile defs = .ok ms) : ms.Indexed := by
  have hsize := compile_size h
  refine ⟨compile_orders h, fun m hm c hc => ?_⟩
  rw [compile_eq, arrange_eq_ok] at h
  obtain ⟨-, nodes, order, hnodes, -, rfl⟩ := h
  obtain ⟨d, -, hd⟩ := exists_of_mem_right hnodes hm
  obtain ⟨id, -, hid⟩ := exists_of_mem_right (compileOne_children hd) hc
  exact hsize ▸ lt_of_findIdx? hid

theorem lt_of_resolve? (h : compile defs = .ok ms) (hi : ms.resolve? referrer id = .ok i) : i < ms.size :=
  compile_size h ▸ lt_of_findIdx? (resolve_eq_ok.1 hi)

theorem lt_of_mapM_resolve? (h : compile defs = .ok ms) (hy : x.mapM (ms.resolve? referrer) = .ok y) :
    ∀ i ∈ y, i < ms.size := by
  cases x with
  | none =>
      obtain rfl : none = y := by simpa [pure, Except.pure] using hy
      simp
  | some id =>
      rw [Option.mapM_some] at hy
      cases hr : ms.resolve? referrer id with
      | error e => simp [hr] at hy
      | ok i =>
          obtain rfl : some i = y := by simpa [hr] using hy
          simpa using lt_of_resolve? h hr

end Matchers

variable {mdefs : List Definition.Matcher} {ms : Matchers} {limit : Nat}

theorem Conditions.compileOne_indexed {names : List String} {d : Definition.Condition} {c : Condition}
    (hms : Matchers.compile mdefs = .ok ms) (h : compileOne names ms limit d = .ok c) :
    c.Indexed ms.size names.length := by
  have hchildren := compileOne_children h
  rw [compileOne] at h
  cases hrule : d.rule with
  | simple s =>
      simp only [hrule, guard_eq_ok, bind_eq_ok, pure_eq_ok] at h
      obtain ⟨-, start, hstart, stop, hstop, stopAll, hall, rfl⟩ := h
      exact ⟨Matchers.lt_of_resolve? hms hstart, Matchers.lt_of_resolve? hms hstop,
        Matchers.lt_of_mapM_resolve? hms hall⟩
  | combination op children =>
      simp only [hrule, bind_eq_ok, pure_eq_ok] at h
      obtain ⟨_, -, r, -, rfl⟩ := h
      intro i hi
      obtain ⟨id, -, hid⟩ := exists_of_mem_right hchildren hi
      exact lt_of_findIdx? hid

theorem Conditions.compile_indexed {defs : List Definition.Condition} {cs : Conditions}
    (hms : Matchers.compile mdefs = .ok ms) (h : compile defs ms limit = .ok cs) : cs.Indexed ms.size := by
  have horders := compile_orders h
  rw [compile_eq, arrange_eq_ok] at h
  obtain ⟨-, nodes, order, hnodes, -, rfl⟩ := h
  have hsize : (defs.map (·.id)).length = nodes.length := by rw [List.length_map, hnodes.length_eq]
  refine ⟨horders, hsize, fun c hc => ?_⟩
  obtain ⟨d, -, hd⟩ := exists_of_mem_right hnodes hc
  exact (congrArg (Condition.Indexed ms.size · c) hsize).mp (compileOne_indexed hms hd)

theorem MetricPlan.compileRule_indexed {measure : Definition.Measure} {rule : MeasureRule}
    {referrer : Definition.Referrer} (hms : Matchers.compile mdefs = .ok ms)
    (h : compileRule referrer ms measure = .ok rule) : rule.Indexed ms.size := by
  cases measure with
  | value what _ _ | count what | event what =>
      simp only [compileRule, bind_eq_ok, pure_eq_ok] at h
      obtain ⟨i, hi, rfl⟩ := h
      exact Matchers.lt_of_resolve? hms hi
  | duration start stop stopAll nested aggregation =>
      simp only [compileRule, guard_eq_ok, bind_eq_ok, pure_eq_ok] at h
      obtain ⟨-, start, hstart, stop, hstop, stopAll, hall, rfl⟩ := h
      exact ⟨Matchers.lt_of_resolve? hms hstart, Matchers.lt_of_resolve? hms hstop,
        Matchers.lt_of_mapM_resolve? hms hall⟩

theorem MetricPlan.compileGate_lt {dm : Definition.Metric} {cs : Conditions} {gate : Option Gate}
    {referrer : Definition.Referrer} (hcs : cs.names.length = cs.size)
    (h : compileGate referrer cs dm = .ok gate) : ∀ g ∈ gate, g.condition < cs.size := by
  rw [compileGate] at h
  split at h
  · simp only [bind_eq_ok, pure_eq_ok] at h
    obtain ⟨i, hi, links, -, rfl⟩ := h
    rintro g ⟨⟩
    exact hcs ▸ lt_of_findIdx? (Conditions.resolve_eq_ok.1 hi)
  · split at h <;> cases h
    simp

theorem Activations.compile_indexed {metric : String} {defs : List Definition.Activation}
    {windows : Activations} (hms : Matchers.compile mdefs = .ok ms)
    (h : compile ms metric defs = .ok windows) :
    ∀ a ∈ windows, a.trigger < ms.size ∧ ∀ d ∈ a.deactivate, d < ms.size := by
  rw [compile, mapM_eq_ok] at h
  intro a ha
  obtain ⟨d, -, hd⟩ := exists_of_mem_right h ha
  simp only [bind_eq_ok, pure_eq_ok] at hd
  obtain ⟨trigger, htrigger, deactivate, hdeactivate, rfl⟩ := hd
  exact ⟨Matchers.lt_of_resolve? hms htrigger, Matchers.lt_of_mapM_resolve? hms hdeactivate⟩

namespace Engine

variable {d : Definitions} {o : EngineOptions} {e e' : Engine} {c : Call} {reached : Int}

theorem compile_indexed (h : compile d o = .ok e) : e.Indexed := by
  obtain ⟨c, hc, rfl⟩ := compile_eq_ok.1 h
  obtain ⟨-, -, hms, hcs, -, -, hmetrics⟩ := Definitions.compile_eq_ok.1 hc
  have hconditions := Conditions.compile_indexed hms hcs
  refine ⟨Matchers.compile_indexed hms, hconditions, fun m hm => ?_⟩
  obtain ⟨dm, -, hdm⟩ := exists_of_mem_right hmetrics hm
  obtain ⟨windows, rule, gate, hwindows, -, -, hrule, hgate, rfl⟩ := Metric.compile_eq_ok.1 hdm
  exact ⟨MetricPlan.compileRule_indexed hms hrule, MetricPlan.compileGate_lt hconditions.names hgate,
    Activations.compile_indexed hms hwindows⟩

theorem kept_windows_indexed (n : Nat) :
    Metric.Kept fun m => ∀ a ∈ m.windows, a.trigger < n ∧ ∀ d ∈ a.deactivate, d < n where
  start cs time h := by
    rw [Metric.start_windows]
    exact h
  absorb cs cs' ev hits u h := by
    rw [Metric.absorb_windows, Metric.advance_windows]
    intro b hb
    obtain ⟨a, ha, rfl⟩ := List.mem_map.1 hb
    exact h a ha
  advanceTo cs now h := by
    rw [Metric.advanceTo_windows]
    exact h
  shutdown cs now h := by
    rw [Metric.shutdown_windows]
    exact h

theorem metrics_call_indexed {n k : Nat} (h : ∀ m ∈ e.metrics, m.Indexed n k) (ho : e.Owning) (c : Call) :
    ∀ m ∈ (e.call c).metrics, m.Indexed n k := by
  obtain ⟨f, hf, hkept⟩ := keeps_call e c
  rw [hf]
  intro m' hm'
  obtain ⟨m, hm, rfl⟩ := List.mem_map.1 hm'
  have hplan := (hkept _ (kept_owned m.plan) m (ho m hm)).plan
  exact ⟨hplan.symm ▸ (h m hm).rule, hplan.symm ▸ (h m hm).gate,
    hkept _ (kept_windows_indexed n) m (h m hm).windows⟩

theorem Moves.matchers (h : Moves e reached c e') : e'.matchers = e.matchers := by
  cases h with
  | process ev => simp [apply_eq, expecting, learn, each, settle]
  | late | behind | advanceTo | shutdown => rfl

theorem Moves.conditions_indexed (h : Moves e reached c e') {n : Nat} (hcs : e.conditions.Indexed n) :
    e'.conditions.Indexed n ∧ e'.conditions.size = e.conditions.size := by
  cases h with
  | process ev =>
      rw [apply_conditions]
      exact ⟨hcs.onEvent ev _, Conditions.size_onEvent _ ev _⟩
  | late | behind | advanceTo | shutdown => exact ⟨hcs, rfl⟩

theorem Indexed.call (h : e.Indexed) (ho : e.Owning) (c : Call) : (e.call c).Indexed := by
  cases hc : e.closed with
  | true => exact (call_of_closed hc c).symm ▸ h
  | false =>
      have hmoves := call_moves hc c
      have hmatchers : (e.call c).matchers = e.matchers :=
        hmoves.matchers.trans (ensureStarted_matchers e c.time)
      have hconditions := hmoves.conditions_indexed (ensureStarted_conditions e c.time ▸ h.conditions)
      rw [ensureStarted_conditions] at hconditions
      refine ⟨hmatchers ▸ h.matchers, hmatchers ▸ hconditions.1, ?_⟩
      rw [hmatchers, hconditions.2]
      exact metrics_call_indexed h.metrics ho c

theorem Reachable.indexed (h : Reachable d o e) : e.Indexed := by
  induction h with
  | compiled h => exact compile_indexed h
  | call c hr _ ih => exact ih.call hr.owning c
  | drain _ ih => exact ⟨ih.matchers, ih.conditions, ih.metrics⟩

/-- An engine can be made of the valid definitions and of no others. Whatever it does then, its
positions exist: matchers are judged, conditions see events and give signals without a lookup that
fails. -/
theorem compile_isOk_iff_valid (d : Definitions) (o : EngineOptions) :
    ((∃ e, compile d o = .ok e) ↔ d.Valid o.dimensionLimit) ∧
    ∀ e, Reachable d o e → e.Indexed ∧
      (∀ ev, e.matchers.judge? ev = some (e.matchers.judge ev)) ∧
      (∀ ev hits, e.conditions.onEvent? ev hits = some (e.conditions.onEvent ev hits)) ∧
      ∀ i < e.conditions.size, ∀ key, e.conditions.Gives i key (e.conditions.query i key) := by
  constructor
  · rw [← Definitions.compile_isOk]
    simp only [compile_eq_ok]
    exact ⟨fun ⟨_, c, hc, _⟩ => ⟨c, hc⟩, fun ⟨c, hc⟩ => ⟨_, c, hc, rfl⟩⟩
  · intro e h
    have hi := h.indexed
    exact ⟨hi, hi.matchers.judge?_eq, hi.conditions.onEvent?_eq, fun i hlt key => hi.conditions.gives hlt key⟩

theorem compile_isOk_iff_valid_doors : doors.Valid 800 ∧ ∃ e, Reachable doors {} e ∧ e.Indexed := by
  obtain ⟨hvalid, hlater⟩ := compile_isOk_iff_valid doors {}
  exact ⟨hvalid.1 ⟨_, rfl⟩, _, .compiled rfl, (hlater _ (.compiled rfl)).1⟩

end Engine

end EventMetrics
