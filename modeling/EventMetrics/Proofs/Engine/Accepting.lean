import EventMetrics.Proofs.Definition
import EventMetrics.Proofs.Engine.Compiling
import Mathlib.Data.List.Nodup

namespace EventMetrics

open Check Definition

variable {referrer : Referrer} {names : List String} {i limit : Nat} {id : String}

namespace Definition

theorem Literal.isNumeric_iff (l : Literal) : l.toValue.toFloat?.isNone = false ↔ l.IsNumeric := by
  cases l <;> simp [toValue, Value.toFloat?, IsNumeric]

theorem FieldConstraint.check_eq_ok (matcher : String) (c : FieldConstraint) :
    c.check matcher = .ok () ↔ c.test.Sound := by
  rw [check]
  cases c.test with
  | eq v | wildcard v => simp [FieldTest.Sound]
  | lt l | gt l | lte l | gte l =>
      rw [FieldTest.Sound, ← l.isNumeric_iff]
      cases h : l.toValue.toFloat? <;> simp [h]
  | oneOf ls | notOneOf ls => cases ls <;> simp [FieldTest.Sound]

theorem checkArity_eq_ok (referrer : Referrer) (op : LogicalOp) (children : List String) :
    checkArity referrer op children.length = .ok () ↔
      children ≠ [] ∧ (op = .not → children.length = 1) := by
  rw [checkArity]
  cases children with
  | nil => by_cases hop : op = .not <;> simp [hop]
  | cons c children =>
      by_cases hop : op = .not ∧ (c :: children).length ≠ 1
      · simp only [if_pos hop, reduceCtorEq, false_iff, not_and]
        exact fun _ hn => hop.2 (hn hop.1)
      · rw [if_neg hop, if_neg (by simp)]
        simp only [ne_eq, reduceCtorEq, not_false_eq_true, true_and, true_iff]
        exact fun hnot => by_contra fun hne => hop ⟨hnot, hne⟩

end Definition

namespace Check

theorem forM_eq_ok {ε α : Type} {f : α → Except ε Unit} {l : List α} :
    l.forM f = .ok () ↔ ∀ a ∈ l, f a = .ok () := by
  rw [List.forM_eq_forM]
  induction l with
  | nil => simp [pure, Except.pure]
  | cons a l ih =>
      rw [List.forM_cons, bind_eq_ok, List.forall_mem_cons, ← ih]
      exact ⟨fun ⟨_, h⟩ => h, fun h => ⟨(), h⟩⟩

theorem optionMapM_isOk {ε α β : Type} {f : α → Except ε β} {x : Option α} :
    (∃ y, x.mapM f = .ok y) ↔ ∀ a ∈ x, ∃ b, f a = .ok b := by
  cases x with
  | none => simp [pure, Except.pure]
  | some a =>
      simp only [Option.mapM_some, Option.mem_some_iff, forall_eq']
      cases f a <;> simp

theorem mapM_isOk {ε α β : Type} {f : α → Except ε β} {l : List α} :
    (∃ r, l.mapM f = .ok r) ↔ ∀ a ∈ l, ∃ b, f a = .ok b := by
  simp only [mapM_eq_ok, exists_forall₂]

theorem exists_findIdx? : (∃ i, names.findIdx? (· = id) = some i) ↔ id ∈ names := by
  rw [← Option.isSome_iff_exists, List.findIdx?_isSome]
  simp

end Check

section Arranging

variable {δ ν τ : Type} (name : δ → String) (f : δ → Except Error ν) (kids : ν → List Nat)
  (repeated : String → Error) (cycle : List Nat → Error) (make : List ν → List Nat → τ) {defs : List δ}

/-- How matchers and conditions are compiled: each by itself, then an order for all. -/
def arrange (defs : List δ) : Except Error τ := do
  if let some id := firstRepeated? [] (defs.map name) then throw (repeated id)
  let nodes ← defs.mapM f
  match Graph.childrenFirst (nodes.map kids) with
  | .ok order => return make nodes order
  | .error path => throw (cycle path)

theorem arrange_eq_ok {t : τ} : arrange name f kids repeated cycle make defs = .ok t ↔
    (defs.map name).Nodup ∧ ∃ nodes order, List.Forall₂ (fun d n => f d = .ok n) defs nodes ∧
      Graph.childrenFirst (nodes.map kids) = .ok order ∧ make nodes order = t := by
  have hrepeated := firstRepeated?_eq_none [] (defs.map name)
  rw [arrange]
  cases hr : firstRepeated? [] (defs.map name) with
  | some id =>
      have hn : ¬ (defs.map name).Nodup := fun hn => by simp [hrepeated.2 ⟨hn, by simp⟩] at hr
      simp only [throw_bind_ne_ok, hn, false_and]
  | none =>
      simp only [bind_eq_ok, mapM_eq_ok]
      constructor
      · rintro ⟨nodes, hnodes, h⟩
        split at h
        next order horder => exact ⟨(hrepeated.1 hr).1, nodes, order, hnodes, horder, Except.ok.inj h⟩
        · cases h
      · rintro ⟨-, nodes, order, hnodes, horder, rfl⟩
        refine ⟨nodes, hnodes, ?_⟩
        rw [horder]
        rfl

variable {name f kids}

theorem resolves_nodes {operands : δ → List String}
    (hkids : ∀ d n, f d = .ok n →
      List.Forall₂ (fun b c => (defs.map name).findIdx? (· = b) = some c) (operands d) (kids n))
    {nodes : List ν} (h : List.Forall₂ (fun d n => f d = .ok n) defs nodes) :
    Graph.Resolves name operands defs (nodes.map kids) :=
  List.forall₂_map_right_iff.2 (h.imp fun d n => hkids d n)

theorem orders_nodes {operands : δ → List String}
    (hkids : ∀ d n, f d = .ok n →
      List.Forall₂ (fun b c => (defs.map name).findIdx? (· = b) = some c) (operands d) (kids n))
    {nodes : List ν} {order : List Nat} (h : List.Forall₂ (fun d n => f d = .ok n) defs nodes)
    (horder : Graph.childrenFirst (nodes.map kids) = .ok order) : Graph.Orders (nodes.map kids) order :=
  Graph.childrenFirst_orders (resolves_nodes hkids h).closed horder

theorem arrange_isOk {operands : δ → List String} {Sound : δ → Prop}
    (hsound : ∀ d, (∃ n, f d = .ok n) ↔ Sound d)
    (hkids : ∀ d n, f d = .ok n →
      List.Forall₂ (fun b c => (defs.map name).findIdx? (· = b) = some c) (operands d) (kids n)) :
    (∃ t, arrange name f kids repeated cycle make defs = .ok t) ↔ (defs.map name).Nodup ∧
      (∀ d ∈ defs, Sound d) ∧ ∀ id, ¬ Relation.TransGen (Graph.Refers name operands defs) id id := by
  simp only [arrange_eq_ok]
  constructor
  · rintro ⟨_, hn, nodes, order, hnodes, horder, -⟩
    refine ⟨hn, fun d hd => ?_, ((resolves_nodes hkids hnodes).order_isOk hn).1 ⟨order, horder⟩⟩
    obtain ⟨m, -, hm⟩ := exists_of_mem_left hnodes hd
    exact (hsound d).1 ⟨m, hm⟩
  · rintro ⟨hn, hall, hacyclic⟩
    obtain ⟨nodes, hnodes⟩ := exists_forall₂.2 fun d hd => (hsound d).2 (hall d hd)
    obtain ⟨order, horder⟩ := ((resolves_nodes hkids hnodes).order_isOk hn).2 hacyclic
    exact ⟨_, hn, nodes, order, hnodes, horder, rfl⟩

end Arranging

namespace Matchers

variable {defs : List Definition.Matcher} {ms : Matchers}

theorem resolve_eq_ok : resolve names referrer id = .ok i ↔ names.findIdx? (· = id) = some i := by
  rw [resolve]
  cases names.findIdx? (· = id) <;> simp

theorem resolve_isOk (names : List String) (referrer : Referrer) (id : String) :
    (∃ i, resolve names referrer id = .ok i) ↔ id ∈ names := by
  simp only [resolve_eq_ok, exists_findIdx?]

theorem resolveAll_isOk (names : List String) (referrer : Referrer) (ids : List String) :
    (∃ r, ids.mapM (resolve names referrer) = .ok r) ↔ ∀ id ∈ ids, id ∈ names := by
  simp only [mapM_isOk, resolve_isOk]

theorem compileOne_isOk (names : List String) (d : Definition.Matcher) :
    (∃ m, compileOne names d = .ok m) ↔ d.rule.Sound names := by
  rw [compileOne]
  cases d.rule with
  | simple atom constraints =>
      have hchecks : constraints.forM (·.check d.id) = .ok () ↔ ∀ c ∈ constraints, c.test.Sound := by
        simp only [forM_eq_ok, FieldConstraint.check_eq_ok]
      simp only [bind_eq_ok, pure_eq_ok, MatcherRule.Sound, ← hchecks]
      exact ⟨fun ⟨_, _, h, _⟩ => h, fun h => ⟨_, (), h, rfl⟩⟩
  | combination op children =>
      simp only [bind_eq_ok, pure_eq_ok, MatcherRule.Sound, Combines, ← and_assoc,
        ← checkArity_eq_ok (.matcher d.id), ← resolveAll_isOk names (.matcher d.id)]
      constructor
      · rintro ⟨_, _, harity, r, hr, -⟩
        exact ⟨harity, r, hr⟩
      · rintro ⟨harity, r, hr⟩
        exact ⟨_, (), harity, r, hr, rfl⟩

theorem compileOne_children {d : Definition.Matcher} {m : Matcher} (h : compileOne names d = .ok m) :
    List.Forall₂ (fun b c => names.findIdx? (· = b) = some c) d.rule.children m.children := by
  rw [compileOne] at h
  cases hrule : d.rule with
  | simple atom constraints =>
      simp only [hrule, bind_eq_ok, pure_eq_ok] at h
      obtain ⟨_, -, rfl⟩ := h
      exact .nil
  | combination op children =>
      simp only [hrule, bind_eq_ok, pure_eq_ok, mapM_eq_ok, resolve_eq_ok] at h
      obtain ⟨_, -, r, hr, rfl⟩ := h
      exact hr

theorem compile_eq (defs : List Definition.Matcher) : compile defs =
    arrange (·.id) (compileOne (defs.map (·.id))) Matcher.children .duplicateMatcher
      (fun cycle => .matcherCycle (cycle.map fun i => (defs.map (·.id)).getD i ""))
      (fun nodes order => { names := defs.map (·.id), nodes, order }) defs := rfl

theorem compile_names (h : compile defs = .ok ms) : ms.names = defs.map (·.id) := by
  rw [compile_eq, arrange_eq_ok] at h
  obtain ⟨-, _, _, -, -, rfl⟩ := h
  rfl

theorem compile_orders (h : compile defs = .ok ms) : Graph.Orders (ms.nodes.map Matcher.children) ms.order := by
  rw [compile_eq, arrange_eq_ok] at h
  obtain ⟨-, nodes, order, hnodes, horder, rfl⟩ := h
  exact orders_nodes (fun _ _ => compileOne_children) hnodes horder

theorem compile_isOk : (∃ ms, compile defs = .ok ms) ↔ (defs.map (·.id)).Nodup ∧
    (∀ d ∈ defs, d.rule.Sound (defs.map (·.id))) ∧
    ∀ id, ¬ Relation.TransGen (Graph.Refers (·.id) (·.rule.children) defs) id id := by
  rw [compile_eq]
  exact arrange_isOk _ _ _ (compileOne_isOk _) fun _ _ => compileOne_children

theorem resolveMaybe_isOk (ms : Matchers) (referrer : Referrer) (x : Option String) :
    (∃ k, x.mapM (ms.resolve? referrer) = .ok k) ↔ ∀ s ∈ x, s ∈ ms.names :=
  optionMapM_isOk.trans (forall₂_congr fun s _ => resolve_isOk ms.names referrer s)

theorem turns_isOk (ms : Matchers) (referrer : Referrer) (start stop : String) (stopAll : Option String) :
    (¬ start = stop ∧ (∃ i, ms.resolve? referrer start = .ok i) ∧ (∃ j, ms.resolve? referrer stop = .ok j) ∧
      ∃ k, stopAll.mapM (ms.resolve? referrer) = .ok k) ↔ Turns ms.names start stop stopAll := by
  rw [Turns, resolveMaybe_isOk, resolve?, resolve_isOk, resolve?, resolve_isOk]

end Matchers

namespace Conditions

variable {defs : List Definition.Condition} {ms : Matchers} {cs : Conditions}

theorem resolve_eq_ok : resolve names referrer id = .ok i ↔ names.findIdx? (· = id) = some i := by
  rw [resolve]
  cases names.findIdx? (· = id) <;> simp

theorem resolve_isOk (names : List String) (referrer : Referrer) (id : String) :
    (∃ i, resolve names referrer id = .ok i) ↔ id ∈ names := by
  simp only [resolve_eq_ok, exists_findIdx?]

theorem resolveAll_isOk (names : List String) (referrer : Referrer) (ids : List String) :
    (∃ r, ids.mapM (resolve names referrer) = .ok r) ↔ ∀ id ∈ ids, id ∈ names := by
  simp only [mapM_isOk, resolve_isOk]

theorem compileOne_isOk (names : List String) (ms : Matchers) (limit : Nat) (d : Definition.Condition) :
    (∃ c, compileOne names ms limit d = .ok c) ↔ d.rule.Sound ms.names names := by
  rw [compileOne]
  cases d.rule with
  | simple s =>
      simp only [guard_eq_ok, bind_eq_ok, pure_eq_ok, ConditionRule.Sound, ← ms.turns_isOk (.condition d.id)]
      constructor
      · rintro ⟨_, hne, i, hi, j, hj, k, hk, -⟩
        exact ⟨hne, ⟨i, hi⟩, ⟨j, hj⟩, k, hk⟩
      · rintro ⟨hne, ⟨i, hi⟩, ⟨j, hj⟩, k, hk⟩
        exact ⟨_, hne, i, hi, j, hj, k, hk, rfl⟩
  | combination op children =>
      simp only [bind_eq_ok, pure_eq_ok, ConditionRule.Sound, Combines, ← and_assoc,
        ← checkArity_eq_ok (.condition d.id), ← resolveAll_isOk names (.condition d.id)]
      constructor
      · rintro ⟨_, _, harity, r, hr, -⟩
        exact ⟨harity, r, hr⟩
      · rintro ⟨harity, r, hr⟩
        exact ⟨_, (), harity, r, hr, rfl⟩

theorem compileOne_children {d : Definition.Condition} {c : Condition}
    (h : compileOne names ms limit d = .ok c) :
    List.Forall₂ (fun b c => names.findIdx? (· = b) = some c) d.rule.children c.children := by
  rw [compileOne] at h
  cases hrule : d.rule with
  | simple s =>
      simp only [hrule, guard_eq_ok, bind_eq_ok, pure_eq_ok] at h
      obtain ⟨-, _, -, _, -, _, -, rfl⟩ := h
      exact .nil
  | combination op children =>
      simp only [hrule, bind_eq_ok, pure_eq_ok, mapM_eq_ok, resolve_eq_ok] at h
      obtain ⟨_, -, r, hr, rfl⟩ := h
      exact hr

theorem compile_eq (defs : List Definition.Condition) (ms : Matchers) (limit : Nat) :
    compile defs ms limit =
      arrange (·.id) (compileOne (defs.map (·.id)) ms limit) Condition.children .duplicateCondition
        (fun cycle => .conditionCycle (cycle.map fun i => (defs.map (·.id)).getD i ""))
        (fun nodes order => { names := defs.map (·.id), nodes, order }) defs := rfl

theorem compile_orders (h : compile defs ms limit = .ok cs) :
    Graph.Orders (cs.nodes.map Condition.children) cs.order := by
  rw [compile_eq, arrange_eq_ok] at h
  obtain ⟨-, nodes, order, hnodes, horder, rfl⟩ := h
  exact orders_nodes (fun _ _ => compileOne_children) hnodes horder

theorem compile_isOk : (∃ cs, compile defs ms limit = .ok cs) ↔ (defs.map (·.id)).Nodup ∧
    (∀ d ∈ defs, d.rule.Sound ms.names (defs.map (·.id))) ∧
    ∀ id, ¬ Relation.TransGen (Graph.Refers (·.id) (·.rule.children) defs) id id := by
  rw [compile_eq]
  exact arrange_isOk _ _ _ (compileOne_isOk _ ms limit) fun _ _ => compileOne_children

theorem compileOne_dimensions {d : Definition.Condition} {c : Condition}
    (h : compileOne names ms limit d = .ok c) : c.dimensions = d.rule.dimensions := by
  rw [compileOne] at h
  cases hrule : d.rule with
  | simple s =>
      simp only [hrule, guard_eq_ok, bind_eq_ok, pure_eq_ok] at h
      obtain ⟨-, _, -, _, -, _, -, rfl⟩ := h
      rfl
  | combination op children =>
      simp only [hrule, bind_eq_ok, pure_eq_ok] at h
      obtain ⟨_, -, _, -, rfl⟩ := h
      rfl

theorem compileOne_arity {d : Definition.Condition} {op : LogicalOp} {children : List Nat}
    (h : compileOne names ms limit d = .ok (.combination op children)) :
    children ≠ [] ∧ (op = .not → children.length = 1) := by
  have hchildren := compileOne_children h
  have hsound := (compileOne_isOk names ms limit d).1 ⟨_, h⟩
  rw [compileOne] at h
  cases hrule : d.rule with
  | simple s =>
      simp only [hrule, guard_eq_ok, bind_eq_ok, pure_eq_ok] at h
      obtain ⟨-, _, -, _, -, _, -, ⟨⟩⟩ := h
  | combination op' ids =>
      simp only [hrule, bind_eq_ok, pure_eq_ok] at h
      obtain ⟨_, -, _, -, ⟨⟩⟩ := h
      rw [hrule] at hchildren hsound
      have hlength : ids.length = children.length := hchildren.length_eq
      obtain ⟨hsome, harity, -⟩ := hsound
      exact ⟨fun hnil => hsome (List.length_eq_zero_iff.1 (by rw [hlength, hnil]; rfl)),
        fun hop => hlength ▸ harity hop⟩

theorem resolve?_eq_ok (h : compile defs ms limit = .ok cs) :
    cs.resolve? referrer id = .ok i ↔ (defs.map (·.id)).findIdx? (· = id) = some i := by
  rw [compile_eq, arrange_eq_ok] at h
  obtain ⟨-, nodes, order, -, -, rfl⟩ := h
  exact resolve_eq_ok

theorem exists_of_resolve? (h : compile defs ms limit = .ok cs) (hi : cs.resolve? referrer id = .ok i) :
    ∃ d ∈ defs, d.id = id ∧ cs.dimensions i = d.rule.dimensions := by
  rw [resolve?_eq_ok h] at hi
  rw [compile_eq, arrange_eq_ok] at h
  obtain ⟨-, nodes, order, hnodes, -, rfl⟩ := h
  have hname := Graph.findIdx?_eq_some hi
  rw [List.getElem?_map, Option.map_eq_some_iff] at hname
  obtain ⟨d, hd, rfl⟩ := hname
  obtain ⟨hlt, rfl⟩ := List.getElem?_eq_some_iff.1 hd
  have hlt' : i < nodes.length := hnodes.length_eq ▸ hlt
  refine ⟨_, List.getElem_mem hlt, rfl, ?_⟩
  rw [dimensions, List.getElem?_eq_getElem hlt']
  exact compileOne_dimensions (hnodes.get hlt hlt')

theorem nodup_of_compile (h : compile defs ms limit = .ok cs) : (defs.map (·.id)).Nodup :=
  (compile_isOk.1 ⟨cs, h⟩).1

end Conditions

theorem Activations.compile_isOk (ms : Matchers) (metric : String) (defs : List Definition.Activation) :
    (∃ as, Activations.compile ms metric defs = .ok as) ↔
      ∀ d ∈ defs, d.matcher ∈ ms.names ∧ ∀ m ∈ d.deactivate, m ∈ ms.names := by
  rw [Activations.compile, mapM_isOk]
  refine forall₂_congr fun d _ => ?_
  rw [← ms.resolveMaybe_isOk (.activation metric), ← Matchers.resolve_isOk ms.names (.activation metric)]
  simp only [bind_eq_ok, pure_eq_ok]
  constructor
  · rintro ⟨_, i, hi, k, hk, -⟩
    exact ⟨⟨i, hi⟩, k, hk⟩
  · rintro ⟨⟨i, hi⟩, k, hk⟩
    exact ⟨_, i, hi, k, hk, rfl⟩

namespace MetricPlan

theorem compileRule_isOk (referrer : Referrer) (ms : Matchers) (measure : Measure) :
    (∃ r, compileRule referrer ms measure = .ok r) ↔ measure.Sound ms.names := by
  cases measure with
  | value what _ _ | count what | event what =>
      simp only [compileRule, bind_eq_ok, pure_eq_ok, Measure.Sound, ← Matchers.resolve_isOk ms.names referrer]
      constructor
      · rintro ⟨_, i, hi, -⟩
        exact ⟨i, hi⟩
      · rintro ⟨i, hi⟩
        exact ⟨_, i, hi, rfl⟩
  | duration start stop stopAll nested aggregation =>
      simp only [compileRule, guard_eq_ok, bind_eq_ok, pure_eq_ok, Measure.Sound, ← ms.turns_isOk referrer]
      constructor
      · rintro ⟨_, hne, i, hi, j, hj, k, hk, -⟩
        exact ⟨hne, ⟨i, hi⟩, ⟨j, hj⟩, k, hk⟩
      · rintro ⟨hne, ⟨i, hi⟩, ⟨j, hj⟩, k, hk⟩
        exact ⟨_, hne, i, hi, j, hj, k, hk, rfl⟩

theorem bindLinks_isOk (referrer : Referrer) (links : List Link) (dimensions : List String) :
    (∃ r, bindLinks referrer links dimensions = .ok r) ↔
      (links ≠ [] → dimensions ≠ [] ∧ links.length = dimensions.length ∧
        ∀ d ∈ dimensions, ∃ l ∈ links, l.condition = d) := by
  rw [bindLinks]
  by_cases hlinks : links = []
  · simp [hlinks]
  by_cases hdims : dimensions = []
  · simp [hlinks, hdims]
  by_cases hlength : links.length = dimensions.length
  · simp only [List.isEmpty_iff, hlinks, hdims, hlength, if_false, ne_eq, not_true_eq_false, mapM_isOk,
      not_false_eq_true, true_and, forall_const]
    refine forall₂_congr fun d _ => ?_
    have hsome : (links.find? (·.condition = d)).isSome ↔ ∃ l ∈ links, l.condition = d := by
      simp [List.find?_isSome]
    rw [← hsome]
    cases links.find? (·.condition = d) <;> simp
  · simp [hlinks, hdims, hlength]

theorem compileGate_isOk {defs : List Definition.Condition} {ms : Matchers} {cs : Conditions}
    (h : Conditions.compile defs ms limit = .ok cs) (referrer : Referrer) (m : Definition.Metric) :
    (∃ g, compileGate referrer cs m = .ok g) ↔ (∀ c ∈ m.condition, c ∈ defs.map (·.id)) ∧ m.Linked defs := by
  rw [compileGate, Metric.Linked]
  cases hc : m.condition with
  | none => cases hl : m.links <;> simp
  | some id =>
      simp only [bind_eq_ok, pure_eq_ok]
      constructor
      · rintro ⟨_, i, hi, links, hlinks, -⟩
        obtain ⟨d, hd, rfl, hdims⟩ := Conditions.exists_of_resolve? h hi
        refine ⟨fun c hc => Option.mem_some_iff.1 hc ▸ List.mem_map_of_mem hd, fun hne => ⟨d, hd, rfl, ?_⟩⟩
        obtain ⟨hsome, hlength, hall⟩ := (bindLinks_isOk _ _ _).1 ⟨links, hlinks⟩ hne
        rw [hdims] at hsome hlength hall
        cases hrule : d.rule with
        | simple s =>
            rw [hrule] at hsome hlength hall
            exact ⟨s, rfl, hsome, hlength, hall⟩
        | combination op children => exact absurd (by rw [hrule]; rfl) hsome
      · rintro ⟨hid, hlinked⟩
        have hmem := hid id rfl
        obtain ⟨i, hi⟩ : ∃ i, cs.resolve? referrer id = .ok i := by
          simp only [Conditions.resolve?_eq_ok h, ← Option.isSome_iff_exists, List.findIdx?_isSome]
          simpa using hmem
        obtain ⟨d, hd, rfl, hdims⟩ := Conditions.exists_of_resolve? h hi
        have hbind : ∃ r, bindLinks referrer m.links (cs.dimensions i) = .ok r := by
          refine (bindLinks_isOk _ _ _).2 fun hne => ?_
          obtain ⟨c, hc, hname, s, hrule, hsome, hlength, hall⟩ := hlinked hne
          obtain rfl : d = c :=
            List.inj_on_of_nodup_map (Conditions.nodup_of_compile h) hd hc (Option.some.inj hname)
          rw [hdims, hrule]
          exact ⟨hsome, hlength, hall⟩
        obtain ⟨links, hlinks⟩ := hbind
        exact ⟨_, i, hi, links, hlinks, rfl⟩

end MetricPlan

theorem Definition.Metric.bucketSize_pos (m : Definition.Metric) :
    ¬ m.bucketSize ≤ 0 ↔ ∃ b, m.bucket = some b ∧ 0 < b.nanos := by
  rw [bucketSize]
  cases m.bucket with
  | none => simp
  | some b =>
      simp only [Option.map_some, Option.getD_some, Span.toInstant, Instant.clamp, Instant.last,
        Instant.first, Option.some.injEq, exists_eq_left']
      omega

theorem Metric.compile_isOk {defs : List Definition.Condition} {ms : Matchers} {cs : Conditions}
    (h : Conditions.compile defs ms limit = .ok cs) (m : Definition.Metric) (alerts : List Definition.Alert) :
    (∃ r, Metric.compile m alerts ms cs limit = .ok r) ↔
      m.Sound ms.names defs ∧ (alerts = [] ∨ m.measure.isBucketed = true) := by
  have hbucket : ¬ (m.measure.isBucketed = true ∧ m.bucketSize ≤ 0) ↔
      (m.measure.isBucketed = true → ∃ b, m.bucket = some b ∧ 0 < b.nanos) := by
    rw [not_and, m.bucketSize_pos]
  have halerts : ¬ ((!m.measure.isBucketed) = true ∧ (!alerts.isEmpty) = true) ↔
      (alerts = [] ∨ m.measure.isBucketed = true) := by
    cases m.measure.isBucketed <;> simp
  simp only [Metric.compile_eq_ok]
  rw [← halerts]
  constructor
  · rintro ⟨_, windows, rule, gate, hwindows, hsize, hnone, hrule, hgate, -⟩
    obtain ⟨hcondition, hlinks⟩ := (MetricPlan.compileGate_isOk h _ m).1 ⟨gate, hgate⟩
    exact ⟨⟨(MetricPlan.compileRule_isOk _ ms _).1 ⟨rule, hrule⟩, hbucket.1 hsize, hcondition, hlinks,
      (Activations.compile_isOk ms m.id _).1 ⟨windows, hwindows⟩⟩, hnone⟩
  · rintro ⟨hsound, hnone⟩
    obtain ⟨windows, hwindows⟩ := (Activations.compile_isOk ms m.id _).2 hsound.activations
    obtain ⟨rule, hrule⟩ := (MetricPlan.compileRule_isOk (.metric m.id) ms _).2 hsound.measure
    obtain ⟨gate, hgate⟩ := (MetricPlan.compileGate_isOk h (.metric m.id) m).2 ⟨hsound.condition, hsound.links⟩
    exact ⟨_, windows, rule, gate, hwindows, hbucket.2 hsound.bucket, hnone, hrule, hgate, rfl⟩

theorem Definitions.compile_isOk {d : Definitions} : (∃ c, d.compile limit = .ok c) ↔ d.Valid limit := by
  simp only [Definitions.compile_eq_ok]
  constructor
  · rintro ⟨c, hsome, hlimit, hms, hcs, hids, halerts, hmetrics⟩
    have hnames := Matchers.compile_names hms
    obtain ⟨hmn, hmsound, hmacyclic⟩ := Matchers.compile_isOk.1 ⟨_, hms⟩
    obtain ⟨hcn, hcsound, hcacyclic⟩ := Conditions.compile_isOk.1 ⟨_, hcs⟩
    obtain ⟨han, halerts⟩ := checkAlerts_eq_ok.1 halerts
    have hmetric : ∀ m ∈ d.metrics, m.Sound (d.matchers.map (·.id)) d.conditions ∧
        (d.alerts.filter (·.metric = m.id) = [] ∨ m.measure.isBucketed = true) := by
      intro m hm
      obtain ⟨r, -, hr⟩ := exists_of_mem_left hmetrics hm
      rw [← hnames]
      exact (Metric.compile_isOk hcs m _).1 ⟨r, hr⟩
    refine ⟨by simpa using hsome, Nat.pos_of_ne_zero hlimit, hmn, hcn, hids, han, hmsound, hmacyclic,
      hnames ▸ hcsound, hcacyclic, fun m hm => (hmetric m hm).1, fun a ha => ?_⟩
    obtain ⟨-, hwatched, hbuckets⟩ := halerts a ha
    obtain ⟨m, hm, hid⟩ := List.mem_map.1 hwatched
    refine ⟨Nat.pos_of_ne_zero hbuckets, m, hm, hid, (hmetric m hm).2.resolve_left fun hnil => ?_⟩
    exact List.filter_eq_nil_iff.1 hnil a ha (by simp [hid])
  · intro h
    obtain ⟨ms, hms⟩ := Matchers.compile_isOk.2 ⟨h.matcher_ids, h.matchers, h.no_matcher_cycle⟩
    have hnames := Matchers.compile_names hms
    obtain ⟨cs, hcs⟩ : ∃ cs, Conditions.compile d.conditions ms limit = .ok cs :=
      Conditions.compile_isOk.2 ⟨h.condition_ids, hnames ▸ h.conditions, h.no_condition_cycle⟩
    have hmetric : ∀ m ∈ d.metrics, ∃ r,
        Metric.compile m (d.alerts.filter (·.metric = m.id)) ms cs limit = .ok r := by
      intro m hm
      refine (Metric.compile_isOk hcs m _).2 ⟨hnames ▸ h.metrics m hm, ?_⟩
      by_cases hnil : d.alerts.filter (·.metric = m.id) = []
      · exact .inl hnil
      · obtain ⟨a, ha⟩ := List.exists_mem_of_ne_nil _ hnil
        obtain ⟨ha, hid⟩ := List.mem_filter.1 ha
        obtain ⟨n, hn, hname, hbucketed⟩ := (h.alerts a ha).metric
        obtain rfl : n = m := List.inj_on_of_nodup_map h.metric_ids hn hm
          (hname.trans (of_decide_eq_true hid))
        exact .inr hbucketed
    obtain ⟨metrics, hmetrics⟩ := exists_forall₂.2 hmetric
    refine ⟨⟨ms, cs, metrics⟩, by simpa using h.some_metric, h.limit_pos.ne', hms, hcs, h.metric_ids,
      checkAlerts_eq_ok.2 ⟨h.alert_ids, fun a ha => ?_⟩, hmetrics⟩
    obtain ⟨hbuckets, m, hm, hid, -⟩ := h.alerts a ha
    exact ⟨by simp, hid ▸ List.mem_map_of_mem hm, by omega⟩

end EventMetrics
