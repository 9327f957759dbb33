import EventMetrics.Proofs.Graph.Acyclic

namespace EventMetrics.Graph

variable {children : Children} {order l : List Nat} {i j : Nat}

/-- What holds of a node once it holds of its children holds of all nodes. -/
theorem Orders.induction {P : Nat → Prop} (h : Orders children order)
    (hstep : ∀ i < children.length, (∀ c, Child children i c → P c) → P i) (hi : i < children.length) : P i := by
  induction hk : order.idxOf i using Nat.strongRecOn generalizing i with
  | ind k ih =>
      refine hstep i hi fun c hc => ?_
      obtain ⟨hmem, hlt⟩ := h.sorted.idxOf_lt ((h.mem i).2 hi) hc
      exact ih _ (hk ▸ hlt) ((h.mem c).1 hmem) rfl

variable {ν α : Type} {nodes : List ν} {kids : ν → List Nat} {make : ν → List α → α} {slots : List α} {d : α}

def fill (nodes : List ν) (make : ν → List α → α) (slots : List α) (i : Nat) : List α :=
  match nodes[i]? with
  | some n => slots.set i (make n slots)
  | none => slots

theorem length_fill (slots : List α) (i : Nat) : (fill nodes make slots i).length = slots.length := by
  rw [fill]
  split <;> simp

theorem getD_fill (slots : List α) (i j : Nat) (d : α) : (fill nodes make slots i).getD j d =
    if i = j ∧ j < slots.length then (nodes[i]?.map (make · slots)).getD (slots.getD j d)
    else slots.getD j d := by
  rw [fill]
  cases nodes[i]? with
  | none => simp
  | some n =>
      simp only [List.getD_eq_getElem?_getD, List.getElem?_set]
      by_cases hij : i = j
      · subst hij
        by_cases hlt : i < slots.length <;> simp [hlt]
      · simp [hij]

theorem length_foldl_fill (l : List Nat) (slots : List α) :
    (l.foldl (fill nodes make) slots).length = slots.length := by
  induction l generalizing slots with
  | nil => rfl
  | cons i l ih => rw [List.foldl_cons, ih, length_fill]

theorem getD_foldl_fill_of_notMem (hj : j ∉ l) (slots : List α) :
    (l.foldl (fill nodes make) slots).getD j d = slots.getD j d := by
  induction l generalizing slots with
  | nil => rfl
  | cons i l ih =>
      obtain ⟨hi, hl⟩ := List.ne_and_not_mem_of_not_mem_cons hj
      rw [List.foldl_cons, ih hl, getD_fill, if_neg fun h => hi h.1.symm]

theorem Orders.getD_foldl_fill (h : Orders (nodes.map kids) order) (hlength : slots.length = nodes.length)
    (hmake : ∀ n s t, (∀ c ∈ kids n, s.getD c d = t.getD c d) → make n s = make n t) {n : ν}
    (hn : nodes[i]? = some n) : (order.foldl (fill nodes make) slots).getD i d =
      make n (order.foldl (fill nodes make) slots) := by
  have hlt : i < nodes.length := (List.getElem?_eq_some_iff.1 hn).1
  obtain ⟨before, after, horder⟩ := List.append_of_mem ((h.mem i).2 (by rwa [List.length_map]))
  have hnodup := h.nodup
  rw [horder, List.nodup_append] at hnodup
  obtain ⟨-, hafter, hapart⟩ := hnodup
  obtain ⟨hlate, -⟩ := List.nodup_cons.1 hafter
  let early := before.foldl (fill nodes make) slots
  have hsplit : order.foldl (fill nodes make) slots =
      after.foldl (fill nodes make) (fill nodes make early i) := by
    rw [horder, List.foldl_append, List.foldl_cons]
  -- the node is met between its children and whatever comes after it
  have hbelow : ∀ c ∈ kids n, early.getD c d = (order.foldl (fill nodes make) slots).getD c d := by
    intro c hc
    have hbefore : c ∈ before := by
      refine h.sorted before i after horder c ?_
      rwa [List.getD_eq_getElem?_getD, List.getElem?_map, hn]
    have hne : i ≠ c := fun he => hapart c hbefore i List.mem_cons_self he.symm
    have hnot : c ∉ after := fun hm => hapart c hbefore c (List.mem_cons_of_mem i hm) rfl
    rw [hsplit, getD_foldl_fill_of_notMem hnot, getD_fill, if_neg fun h => hne h.1]
  have hroom : i < early.length := by rwa [length_foldl_fill, hlength]
  rw [← hmake n _ _ hbelow, hsplit, getD_foldl_fill_of_notMem hlate, getD_fill, if_pos ⟨rfl, hroom⟩, hn]
  rfl

end EventMetrics.Graph
