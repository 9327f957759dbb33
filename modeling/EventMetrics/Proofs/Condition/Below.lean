import EventMetrics.Proofs.Condition

namespace EventMetrics

def Condition.matchers : Condition → List Nat
  | simple c => c.start :: c.stop :: c.stopAll.toList
  | combination .. => []

theorem Condition.Simple.onEvent_silent {c : Simple} {hits : Hits}
    (h : ∀ k ∈ (simple c).matchers, hits.get k = false) (e : Event) : c.onEvent e hits = (c, .unchanged) := by
  have hstart := h c.start (by simp [matchers])
  have hstop := h c.stop (by simp [matchers])
  have hall : c.stopAll.any hits.get = false := by
    cases hs : c.stopAll with
    | none => rfl
    | some k => exact h k (by simp [matchers, hs])
  simp only [onEvent, hall, hstart, hstop, Bool.false_eq_true, if_false]

namespace Conditions

/-- A condition itself, its children, their children and so on. -/
inductive Below (cs : Conditions) (g : Nat) : Nat → Prop
  | self : Below cs g g
  | child {i j : Nat} {d : Condition} : Below cs g i → cs.nodes[i]? = some d → j ∈ d.children → Below cs g j

theorem Below.eq_of_simple {cs : Conditions} {g j : Nat} {c : Condition.Simple} (h : cs.Below g j)
    (hc : cs.nodes[g]? = some (.simple c)) : j = g := by
  induction h with
  | self => rfl
  | child _ hd hj ih =>
      subst ih
      cases hc.symm.trans hd
      simp [Condition.children] at hj

def Closed (S : Nat → Prop) (nodes : List Condition) : Prop :=
  ∀ i d, S i → nodes[i]? = some d → ∀ j ∈ d.children, S j

/-- Conditions that agree where it matters. -/
structure AgreeOn (S : Nat → Prop) (cs cs' : Conditions) : Prop where
  order : cs.order = cs'.order
  size : cs.size = cs'.size
  nodes : ∀ i, S i → cs.nodes[i]? = cs'.nodes[i]?

structure Passing.AgreeOn (S : Nat → Prop) (p p' : Passing) : Prop where
  nodes : ∀ i, S i → p.nodes[i]? = p'.nodes[i]?
  changed : ∀ i, S i → p.update.isChanged i = p'.update.isChanged i
  flagged : p.Flagged
  flagged' : p'.Flagged

variable {S : Nat → Prop} {cs cs' : Conditions} {e : Event} {hits : Hits} {p p' : Passing} {i j g : Nat}

theorem AgreeOn.symm (h : AgreeOn S cs cs') : AgreeOn S cs' cs :=
  ⟨h.order.symm, h.size.symm, fun i hi => (h.nodes i hi).symm⟩

theorem AgreeOn.closed (h : AgreeOn S cs cs') (hS : Closed S cs.nodes) : Closed S cs'.nodes :=
  fun i d hi hd => hS i d hi ((h.nodes i hi).trans hd)

theorem Closed.offer (hS : Closed S p.nodes) (i : Nat) : Closed S (offer e hits p i).nodes := by
  intro j d hj hd
  rw [offer_nodes, List.getElem?_modify] at hd
  obtain ⟨d', hd', rfl⟩ := Option.map_eq_some_iff.1 hd
  have hchildren := hS j d' hj hd'
  split
  · cases d' <;> exact hchildren
  · exact hchildren

theorem Closed.onEvent (hS : Closed S cs.nodes) (e : Event) (hits : Hits) : Closed S (cs.onEvent e hits).1.nodes := by
  have hfold : ∀ (l : List Nat) (p : Passing), Closed S p.nodes →
      Closed S (l.foldl (Conditions.offer e hits) p).nodes := by
    intro l
    induction l with
    | nil => exact fun _ hp => hp
    | cons i l ih => exact fun p hp => ih _ (hp.offer i)
  rw [onEvent_eq]
  exact hfold cs.order cs.arrival hS

theorem offer_isChanged_self (hp : p.Flagged) {d : Condition} (hd : p.nodes[i]? = some d) :
    (offer e hits p i).update.isChanged i = match d with
      | .simple c => (c.onEvent e hits).2 == .changed || p.update.isChanged i
      | .combination _ children => children.any p.update.isChanged := by
  have hlt : i < p.update.changed.length := hp ▸ (List.getElem?_eq_some_iff.1 hd).1
  cases d with
  | combination op children =>
      simp [offer, hd, Condition.Update.isChanged, List.getD_eq_getElem?_getD, List.getElem?_set_self hlt]
  | simple c =>
      cases heffect : (c.onEvent e hits).2 <;>
        simp [offer, hd, heffect, Condition.Update.isChanged, List.getD_eq_getElem?_getD,
          List.getElem?_set_self hlt]

theorem Passing.AgreeOn.offer (h : p.AgreeOn S p') (hS : Closed S p.nodes) (i : Nat) :
    (offer e hits p i).AgreeOn S (Conditions.offer e hits p' i) := by
  -- only the flag of `i` itself may change, to what its node says, or its children, which are in `S` with it
  refine ⟨fun j hj => ?_, fun j hj => ?_, h.flagged.offer i, h.flagged'.offer i⟩
  · rw [offer_nodes, offer_nodes, List.getElem?_modify, List.getElem?_modify, h.nodes j hj]
  · by_cases hij : i = j
    · subst hij
      have hnode := h.nodes i hj
      cases hd : p.nodes[i]? with
      | none =>
          rw [hd] at hnode
          simpa only [Conditions.offer, hd, ← hnode] using h.changed i hj
      | some d =>
          rw [hd] at hnode
          rw [offer_isChanged_self h.flagged hd, offer_isChanged_self h.flagged' hnode.symm]
          cases d with
          | simple c => simp only [h.changed i hj]
          | combination op children =>
              rw [Bool.eq_iff_iff, List.any_eq_true, List.any_eq_true]
              exact exists_congr fun k => and_congr_right fun hk => by rw [h.changed k (hS i _ hj hd k hk)]
    · rw [offer_isChanged_ne p hij, offer_isChanged_ne p' hij, h.changed j hj]

theorem Passing.AgreeOn.foldl (h : p.AgreeOn S p') (hS : Closed S p.nodes) (l : List Nat) :
    (l.foldl (Conditions.offer e hits) p).AgreeOn S (l.foldl (Conditions.offer e hits) p') := by
  induction l generalizing p p' with
  | nil => exact h
  | cons i l ih => exact ih (h.offer hS i) (hS.offer i)

theorem size_onEvent (cs : Conditions) (e : Event) (hits : Hits) : (cs.onEvent e hits).1.size = cs.size :=
  length_foldl_offer e hits cs.order cs.arrival

theorem AgreeOn.onEvent (h : AgreeOn S cs cs') (hS : Closed S cs.nodes) (e : Event) (hits : Hits) :
    AgreeOn S (cs.onEvent e hits).1 (cs'.onEvent e hits).1 ∧
      ∀ j, S j → (cs.onEvent e hits).2.isChanged j = (cs'.onEvent e hits).2.isChanged j := by
  have harrival : cs.arrival.AgreeOn S cs'.arrival := by
    refine ⟨h.nodes, fun j _ => ?_, cs.flagged_arrival, cs'.flagged_arrival⟩
    simp only [arrival, h.size]
  have hpassed : (cs.order.foldl (Conditions.offer e hits) cs.arrival).AgreeOn S
      (cs.order.foldl (Conditions.offer e hits) cs'.arrival) := harrival.foldl hS cs.order
  refine ⟨⟨h.order, by rw [size_onEvent, size_onEvent, h.size], ?_⟩, ?_⟩
  · rw [onEvent_eq, onEvent_eq, ← h.order]
    exact hpassed.nodes
  · rw [onEvent_eq, onEvent_eq, ← h.order]
    exact hpassed.changed

/-- An event for none of the conditions in `S`. -/
def Silent (S : Nat → Prop) (nodes : List Condition) (hits : Hits) : Prop :=
  ∀ i d, S i → nodes[i]? = some d → ∀ k ∈ d.matchers, hits.get k = false

theorem Silent.offer (h : Silent S p.nodes hits) (hS : Closed S p.nodes) (hp : p.Flagged)
    (hstill : ∀ j, S j → p.update.isChanged j = false) (i : Nat) :
    (∀ j, S j → (offer e hits p i).nodes[j]? = p.nodes[j]?) ∧
      ∀ j, S j → (Conditions.offer e hits p i).update.isChanged j = false := by
  refine ⟨fun j hj => ?_, fun j hj => ?_⟩
  · rw [offer_nodes, List.getElem?_modify]
    cases hd : p.nodes[j]? with
    | none => rfl
    | some d =>
        have hmeet : meet e hits d = d := by
          cases d with
          | simple c => exact congrArg Condition.simple (congrArg Prod.fst (c.onEvent_silent (h j _ hj hd) e))
          | combination op children => rfl
        simp [hmeet]
  · by_cases hij : i = j
    · subst hij
      cases hd : p.nodes[i]? with
      | none => simpa only [Conditions.offer, hd] using hstill i hj
      | some d =>
          rw [offer_isChanged_self hp hd]
          cases d with
          | simple c => simp [Condition.Simple.onEvent_silent (h i _ hj hd), hstill i hj]
          | combination op children =>
              exact List.any_eq_false.2 fun k hk => by simp [hstill k (hS i _ hj hd k hk)]
    · rw [offer_isChanged_ne p hij, hstill j hj]

theorem Silent.foldl (h : Silent S p.nodes hits) (hS : Closed S p.nodes) (hp : p.Flagged)
    (hstill : ∀ j, S j → p.update.isChanged j = false) (l : List Nat) :
    (∀ j, S j → (l.foldl (Conditions.offer e hits) p).nodes[j]? = p.nodes[j]?) ∧
      ∀ j, S j → (l.foldl (Conditions.offer e hits) p).update.isChanged j = false := by
  induction l generalizing p with
  | nil => exact ⟨fun _ _ => rfl, hstill⟩
  | cons i l ih =>
      obtain ⟨hnodes, hstill'⟩ := h.offer (e := e) hS hp hstill i
      have hsilent : Silent S (Conditions.offer e hits p i).nodes hits :=
        fun j d hj hd => h j d hj (hnodes j hj ▸ hd)
      obtain ⟨hnodes', hlast⟩ := ih hsilent (hS.offer i) (hp.offer i) hstill'
      exact ⟨fun j hj => (hnodes' j hj).trans (hnodes j hj), hlast⟩

theorem Silent.onEvent (h : Silent S cs.nodes hits) (hS : Closed S cs.nodes) (e : Event) :
    AgreeOn S (cs.onEvent e hits).1 cs ∧ ∀ j, S j → (cs.onEvent e hits).2.isChanged j = false := by
  have hstill : ∀ j, S j → cs.arrival.update.isChanged j = false := fun j _ => by
    simp only [arrival, Condition.Update.isChanged, List.getD_eq_getElem?_getD, List.getElem?_replicate]
    split <;> rfl
  obtain ⟨hnodes, hlast⟩ := Silent.foldl (p := cs.arrival) (e := e) h hS cs.flagged_arrival hstill cs.order
  exact ⟨⟨rfl, size_onEvent cs e hits, hnodes⟩, hlast⟩

theorem AgreeOn.foldl_sense (h : AgreeOn S cs cs') (hS : Closed S cs.nodes) (l : List Nat) {old new : List Signal}
    (hlength : old.length = new.length) (hsignals : ∀ j, S j → old.getD j .unknown = new.getD j .unknown) :
    ∀ j, S j → (l.foldl (sense cs.nodes) old).getD j .unknown = (l.foldl (sense cs'.nodes) new).getD j .unknown := by
  induction l generalizing old new with
  | nil => exact hsignals
  | cons i l ih =>
      refine ih (by rw [length_sense, length_sense, hlength]) fun j hj => ?_
      rw [getD_sense, getD_sense, hlength, hsignals j hj]
      by_cases hij : i = j ∧ j < new.length
      · rw [if_pos hij, if_pos hij]
        obtain ⟨rfl, -⟩ := hij
        rw [← h.nodes i hj]
        cases hd : cs.nodes[i]? with
        | none => rfl
        | some d =>
            cases d with
            | simple c => rfl
            | combination op children =>
                have hchildren : children.map (old.getD · .unknown) = children.map (new.getD · .unknown) :=
                  List.map_congr_left fun k hk => hsignals k (hS i _ hj hd k hk)
                simp only [Option.map_some, Condition.overall, hchildren]
      · rw [if_neg hij, if_neg hij]

theorem AgreeOn.query (h : AgreeOn S cs cs') (hS : Closed S cs.nodes) (hg : S g) (key : Option DimensionKey) :
    cs.query g key = cs'.query g key := by
  have hoverall : cs.overall.getD g .unknown = cs'.overall.getD g .unknown := by
    rw [overall_eq, overall_eq, ← h.order, ← h.size]
    exact h.foldl_sense hS cs.order rfl (fun _ _ => rfl) g hg
  simp only [Conditions.query, ← h.nodes g hg, hoverall]

end Conditions

end EventMetrics
