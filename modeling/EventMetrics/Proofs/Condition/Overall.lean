import EventMetrics.Proofs.Condition

namespace EventMetrics

namespace Conditions

/-- Every condition once, after its children. -/
def Ordered (cs : Conditions) : Prop := Graph.Orders (cs.nodes.map Condition.children) cs.order

variable {cs : Conditions} {i : Nat} {u : Bool} {deciding : Signal} {children : List Nat} {signal : Nat → Signal}

theorem overall_signals_congr {c : Condition} {old new : List Signal}
    (h : ∀ j ∈ c.children, new.getD j .unknown = old.getD j .unknown) : c.overall new = c.overall old := by
  cases c with
  | simple c => rfl
  | combination op children => exact congrArg (Signal.combine op) (List.map_congr_left h)

theorem Ordered.mem_order (h : cs.Ordered) : i ∈ cs.order ↔ i < cs.size := by
  rw [h.mem, List.length_map, size]

/-- A condition has the signal that it makes of those of its children. -/
theorem Ordered.overall_getD (h : cs.Ordered) {c : Condition} (hc : cs.nodes[i]? = some c) :
    cs.overall.getD i .unknown = c.overall cs.overall := by
  rw [overall_eq, sense_eq]
  refine Graph.Orders.getD_foldl_fill h (List.length_replicate ..) (fun c new old hsignals => ?_) hc
  exact overall_signals_congr hsignals

theorem child_of_mem {c : Condition} {j : Nat} (hc : cs.nodes[i]? = some c) (hj : j ∈ c.children) :
    Graph.Child (cs.nodes.map Condition.children) i j := by
  rwa [Graph.Child, List.getD_eq_getElem?_getD, List.getElem?_map, hc]

theorem Ordered.child_lt (h : cs.Ordered) {c : Condition} (hc : cs.nodes[i]? = some c) :
    ∀ j ∈ c.children, j < cs.size := by
  intro j hj
  have hi : i ∈ cs.order := h.mem_order.2 (List.getElem?_eq_some_iff.1 hc).1
  exact h.mem_order.1 (h.sorted.idxOf_lt hi (child_of_mem hc hj)).1

theorem Ordered.induction {P : Nat → Prop} (h : cs.Ordered)
    (hsimple : ∀ i c, cs.nodes[i]? = some (.simple c) → P i)
    (hcombination : ∀ i op children, cs.nodes[i]? = some (.combination op children) →
      (∀ c ∈ children, P c) → P i) (hi : i < cs.size) : P i := by
  refine Graph.Orders.induction h (fun i hi ih => ?_) (by rwa [List.length_map])
  rw [List.length_map] at hi
  have hn : cs.nodes[i]? = some cs.nodes[i] := List.getElem?_eq_getElem hi
  cases hc : cs.nodes[i] with
  | simple c => exact hsimple i c (hc ▸ hn)
  | combination op children =>
      rw [hc] at hn
      exact hcombination i op children hn fun c hmem => ih c (child_of_mem hn hmem)

theorem Ordered.query_combination (h : cs.Ordered) {op : LogicalOp} {children : List Nat}
    (hn : cs.nodes[i]? = some (.combination op children)) (key : Option DimensionKey) :
    cs.query i key = Signal.combine op (children.map (cs.query · none)) := by
  have hlt := h.child_lt hn
  simp only [query, hn]
  rw [h.overall_getD hn, Condition.overall]
  exact congrArg _ (List.map_congr_left fun c hc => (query_of_mem_order (h.mem_order.2 (hlt c hc))).symm)

mutual

/-- Asks a condition for its overall signal. A combination asks its children, one after another and
until one decides. To ask without end, or for what does not exist, comes to nothing. -/
def ask (cs : Conditions) (i : Nat) : Option Signal :=
  match cs.nodes[i]? with
  | none => none
  | some (.simple c) => some c.overall
  | some (.combination .and children) => (askAll (u := false)) cs .off children
  | some (.combination .or children) => (askAll (u := false)) cs .on children
  | some (.combination .not children) =>
    match children with
    | [] => some .unknown
    | c :: _ => do return (← (ask (i := c)) cs).negate
  | some (.combination .nand children) => do return (← (askAll (u := false)) cs .off children).negate
  | some (.combination .nor children) => do return (← (askAll (u := false)) cs .on children).negate
partial_fixpoint

def askAll (cs : Conditions) (deciding : Signal) (u : Bool) (children : List Nat) : Option Signal :=
  match children with
  | [] => some (if u then .unknown else deciding.negate)
  | c :: children => do
    let s ← (ask (i := c)) cs
    if s = deciding then return deciding
    (askAll (u := u || s == .unknown)) cs deciding children
partial_fixpoint

end

theorem askAll_eq (h : ∀ c ∈ children, cs.ask c = some (signal c)) : cs.askAll deciding u children =
    some (if deciding ∈ children.map signal then deciding
      else if u = true ∨ .unknown ∈ children.map signal then .unknown else deciding.negate) := by
  induction children generalizing u with
  | nil => cases u <;> simp [askAll]
  | cons c children ih =>
      have hrest : cs.askAll deciding (u || signal c == .unknown) children = _ :=
        ih fun d hd => h d (List.mem_cons_of_mem c hd)
      rw [askAll]
      simp only [h c List.mem_cons_self, Option.bind_eq_bind, Option.bind_some, hrest]
      by_cases hs : signal c = deciding
      · simp [hs]
      · simp [hs, Ne.symm hs, or_assoc, eq_comm (a := signal c)]

/-- It comes to an end, with what the one pass finds. -/
theorem Ordered.ask_eq (h : cs.Ordered) (hi : i < cs.size) : cs.ask i = some (cs.query i none) := by
  refine h.induction (P := fun i => cs.ask i = some (cs.query i none)) (fun i c hn => ?_)
    (fun i op children hn ih => ?_) hi
  · simp only [ask, query, hn]
  · have hall (deciding : Signal) : cs.askAll deciding false children = _ := askAll_eq ih
    rw [h.query_combination hn]
    cases op with
    | and | nand => simp [ask, hn, hall, Signal.combine, Signal.conj, Signal.negate]
    | or | nor => simp [ask, hn, hall, Signal.combine, Signal.disj, Signal.negate]
    | not =>
        cases children with
        | nil => simp [ask, hn, Signal.combine, Signal.negate]
        | cons c children => simp [ask, hn, ih c List.mem_cons_self, Signal.combine]

end Conditions

end EventMetrics
