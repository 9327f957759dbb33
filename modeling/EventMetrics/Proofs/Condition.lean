import EventMetrics.Condition
import EventMetrics.Proofs.Condition.Simple
import EventMetrics.Proofs.Graph.Pass

namespace EventMetrics

open Condition (Simple)

namespace Conditions

def Unlit (nodes : List Condition) : Prop :=
  ∀ (i : Nat) (c : Simple), nodes[i]? = some (.simple c) → c.unseen ≠ .on

/-- Conditions that come from definitions: each is asked once. -/
structure WellFormed (cs : Conditions) : Prop where
  order : cs.order.Nodup
  unlit : Unlit cs.nodes

variable {cs : Conditions} {e : Event} {hits : Hits} {p : Passing} {i j : Nat} {l : List Nat}

def meet (e : Event) (hits : Hits) : Condition → Condition
  | .simple c => .simple (c.onEvent e hits).1
  | .combination op children => .combination op children

theorem offer_nodes (p : Passing) (i : Nat) :
    (offer e hits p i).nodes = p.nodes.modify i (meet e hits) := by
  refine List.ext_getElem? fun j => ?_
  rw [List.getElem?_modify]
  rw [offer]
  cases hi : p.nodes[i]? with
  | none =>
      by_cases hij : i = j
      · subst hij
        simp [hi]
      · simp [hij]
  | some d =>
      cases d with
      | combination op children =>
          by_cases hij : i = j
          · subst hij
            simp [hi, meet]
          · simp [hij]
      | simple c =>
          have hset : (p.nodes.set i (.simple (c.onEvent e hits).1))[j]? =
              (fun a => if i = j then meet e hits a else a) <$> p.nodes[j]? := by
            by_cases hij : i = j
            · subst hij
              rw [List.getElem?_set_self (List.getElem?_eq_some_iff.1 hi).1, hi]
              simp [meet]
            · simp [List.getElem?_set_ne hij, hij]
          dsimp only
          split <;> exact hset

theorem map_offer {α : Type} {f : Condition → α} (hf : ∀ c, f (meet e hits c) = f c) (p : Passing) (i : Nat) :
    (offer e hits p i).nodes.map f = p.nodes.map f := by
  refine List.ext_getElem? fun j => ?_
  rw [offer_nodes, List.getElem?_map, List.getElem?_modify, List.getElem?_map]
  cases p.nodes[j]? with
  | none => rfl
  | some c => by_cases hij : i = j <;> simp [hij, hf]

theorem map_foldl_offer {α : Type} {f : Condition → α} (hf : ∀ c, f (meet e hits c) = f c) (l : List Nat)
    (p : Passing) : (l.foldl (offer e hits) p).nodes.map f = p.nodes.map f := by
  induction l generalizing p with
  | nil => rfl
  | cons i l ih => rw [List.foldl_cons, ih, map_offer hf]

theorem Unlit.offer (h : Unlit p.nodes) (i : Nat) : Unlit (offer e hits p i).nodes := by
  intro j c hj
  rw [offer_nodes, List.getElem?_modify] at hj
  obtain ⟨d, hd, he⟩ := Option.map_eq_some_iff.1 hj
  by_cases hij : i = j
  · rw [if_pos hij] at he
    cases d with
    | simple b =>
        cases he
        exact Simple.onEvent_unseen (h j b hd)
    | combination op children => cases he
  · rw [if_neg hij] at he
    exact h j c (he ▸ hd)

theorem offer_isChanged_ne (p : Passing) (h : i ≠ j) :
    (offer e hits p i).update.isChanged j = p.update.isChanged j := by
  rw [offer]
  split
  · rfl
  · simp [Condition.Update.isChanged, List.getD_eq_getElem?_getD, List.getElem?_set_ne h]
  · dsimp only
    split
    · rfl
    · simp [Condition.Update.isChanged, List.getD_eq_getElem?_getD, List.getElem?_set_ne h]
    · rfl

def Passing.Flagged (p : Passing) : Prop := p.update.changed.length = p.nodes.length

theorem Passing.Flagged.offer (h : p.Flagged) (i : Nat) : (offer e hits p i).Flagged := by
  rw [Flagged] at h ⊢
  rw [offer_nodes, List.length_modify, ← h]
  rw [Conditions.offer]
  split
  · rfl
  · simp
  · dsimp only
    split
    · rfl
    · simp
    · rfl

theorem length_foldl_offer (e : Event) (hits : Hits) (l : List Nat) (p : Passing) :
    (l.foldl (offer e hits) p).nodes.length = p.nodes.length := by
  induction l generalizing p with
  | nil => rfl
  | cons i l ih => rw [List.foldl_cons, ih, offer_nodes, List.length_modify]

/-- A condition that is not flagged when it is asked has the overall signal it had, given children
that have theirs if they are not flagged. -/
theorem offer_overall (hp : p.Flagged) {d : Condition} (hd : p.nodes[i]? = some d)
    (hunseen : ∀ c, d = .simple c → c.unseen ≠ .on) {old new : List Signal}
    (hsignals : ∀ j, p.update.isChanged j = false → new.getD j .unknown = old.getD j .unknown)
    (h : (offer e hits p i).update.isChanged i = false) :
    (meet e hits d).overall new = d.overall old := by
  have hlt : i < p.update.changed.length := hp ▸ (List.getElem?_eq_some_iff.1 hd).1
  cases d with
  | simple c =>
      apply Simple.onEvent_overall (hunseen c rfl)
      intro hchanged
      simp [offer, hd, hchanged, Condition.Update.isChanged, List.getD_eq_getElem?_getD,
        List.getElem?_set_self hlt] at h
  | combination op children =>
      simp only [offer, hd, Condition.Update.isChanged, List.getD_eq_getElem?_getD,
        List.getElem?_set_self hlt, Option.getD_some] at h
      have hchildren : children.map (new.getD · .unknown) = children.map (old.getD · .unknown) := by
        refine List.map_congr_left fun j hj => hsignals j ?_
        rw [← Bool.not_eq_true]
        intro hon
        have hany := List.any_eq_true.2 ⟨j, hj, hon⟩
        simp_all [Condition.Update.isChanged, List.getD_eq_getElem?_getD]
      simp only [meet, Condition.overall, hchildren]

theorem foldl_offer_of_notMem (e : Event) (hits : Hits) (h : j ∉ l) (p : Passing) :
    (l.foldl (offer e hits) p).nodes[j]? = p.nodes[j]? ∧
      (l.foldl (offer e hits) p).update.isChanged j = p.update.isChanged j := by
  induction l generalizing p with
  | nil => exact ⟨rfl, rfl⟩
  | cons i l ih =>
      obtain ⟨hi, hl⟩ := List.ne_and_not_mem_of_not_mem_cons h
      obtain ⟨hnodes, hflag⟩ := ih hl (offer e hits p i)
      rw [List.foldl_cons, hnodes, hflag, offer_isChanged_ne p hi.symm, offer_nodes,
        List.getElem?_modify_ne _ _ hi.symm]
      exact ⟨rfl, rfl⟩

theorem foldl_offer_of_mem (e : Event) (hits : Hits) (hl : l.Nodup) (h : j ∈ l) (p : Passing) :
    (l.foldl (offer e hits) p).nodes[j]? = p.nodes[j]?.map (meet e hits) := by
  induction l generalizing p with
  | nil => cases h
  | cons i l ih =>
      obtain ⟨hi, hl⟩ := List.nodup_cons.1 hl
      rw [List.foldl_cons]
      rcases List.mem_cons.1 h with rfl | h
      · rw [(foldl_offer_of_notMem e hits hi _).1, offer_nodes, List.getElem?_modify_eq]
        rfl
      · have hne : i ≠ j := fun he => hi (he ▸ h)
        rw [ih hl h, offer_nodes, List.getElem?_modify_ne _ _ hne]

def sense (nodes : List Condition) (signals : List Signal) (i : Nat) : List Signal :=
  match nodes[i]? with
  | some c => signals.set i (c.overall signals)
  | none => signals

theorem overall_eq (cs : Conditions) :
    cs.overall = cs.order.foldl (sense cs.nodes) (List.replicate cs.size .unknown) := rfl

theorem sense_eq (nodes : List Condition) : sense nodes = Graph.fill nodes Condition.overall := by
  funext signals i
  rw [sense, Graph.fill]
  cases nodes[i]? <;> rfl

theorem getD_sense (nodes : List Condition) (signals : List Signal) (i j : Nat) :
    (sense nodes signals i).getD j .unknown =
      if i = j ∧ j < signals.length then (nodes[i]?.map (·.overall signals)).getD (signals.getD j .unknown)
      else signals.getD j .unknown := sense_eq nodes ▸ Graph.getD_fill ..

theorem length_sense (nodes : List Condition) (signals : List Signal) (i : Nat) :
    (sense nodes signals i).length = signals.length := sense_eq nodes ▸ Graph.length_fill ..

theorem getD_foldl_sense {nodes : List Condition} {c : Simple} (hj : nodes[j]? = some (.simple c))
    (hl : j ∈ l) {signals : List Signal} (hlt : j < signals.length) :
    (l.foldl (sense nodes) signals).getD j .unknown = c.overall := by
  have hlate : ∀ (l : List Nat) (signals : List Signal), signals.getD j .unknown = c.overall →
      j < signals.length → (l.foldl (sense nodes) signals).getD j .unknown = c.overall := by
    intro l
    induction l with
    | nil => exact fun _ h _ => h
    | cons i l ih =>
        intro signals h hlt
        refine ih _ ?_ (by rwa [length_sense])
        rw [getD_sense]
        by_cases hij : i = j
        · subst hij
          simp [hlt, hj, Condition.overall]
        · rw [if_neg (by simp [hij]), h]
  induction l generalizing signals with
  | nil => cases hl
  | cons i l ih =>
      rcases List.mem_cons.1 hl with rfl | hl
      · refine hlate l _ ?_ (by rwa [length_sense])
        rw [getD_sense]
        simp [hlt, hj, Condition.overall]
      · exact ih hl (by rwa [length_sense])

theorem query_of_mem_order (h : j ∈ cs.order) : cs.query j none = cs.overall.getD j .unknown := by
  unfold query
  split
  next c k hnodes hk => cases hk
  next c hnodes hk =>
    rw [overall_eq]
    exact (getD_foldl_sense hnodes h (by simpa [size] using (List.getElem?_eq_some_iff.1 hnodes).1)).symm
  next => rfl

theorem foldl_sense (hl : l.Nodup) (hp : p.Flagged)
    (hunlit : Unlit p.nodes) {before : List Condition} (hbefore : ∀ i ∈ l, before[i]? = p.nodes[i]?)
    {old new : List Signal} (hold : old.length = p.nodes.length) (hnew : new.length = p.nodes.length)
    (h : ∀ j, p.update.isChanged j = false → new.getD j .unknown = old.getD j .unknown)
    (hj : (l.foldl (offer e hits) p).update.isChanged j = false) :
    (l.foldl (sense (l.foldl (offer e hits) p).nodes) new).getD j .unknown =
      (l.foldl (sense before) old).getD j .unknown := by
  -- whoever is asked later finds the signals of its children among those gathered
  induction l generalizing p old new with
  | nil => exact h j hj
  | cons i l ih =>
      obtain ⟨hi, hl'⟩ := List.nodup_cons.1 hl
      have hat := foldl_offer_of_mem e hits hl (List.mem_cons_self (a := i)) p
      simp only [List.foldl_cons] at hj hat ⊢
      have hbefore' : ∀ k ∈ l, before[k]? = (offer e hits p i).nodes[k]? := by
        intro k hk
        have hne : i ≠ k := fun he => hi (he ▸ hk)
        rw [offer_nodes, List.getElem?_modify_ne _ _ hne]
        exact hbefore k (List.mem_cons_of_mem _ hk)
      refine ih hl' (hp.offer i) (hunlit.offer i) hbefore' (by simp [length_sense, hold, offer_nodes])
        (by simp [length_sense, hnew, offer_nodes]) (fun k hk => ?_) hj
      rw [getD_sense, getD_sense, hat, hbefore i List.mem_cons_self, hold, hnew]
      by_cases hik : i = k
      · subst hik
        cases hd : p.nodes[i]? with
        | none =>
            have hout : ¬ i < p.nodes.length := by simpa using hd
            simp only [hout, and_false, if_false]
            exact h i (by simpa [offer, hd] using hk)
        | some d =>
            have hlt := (List.getElem?_eq_some_iff.1 hd).1
            simpa [hlt] using offer_overall hp hd (fun c hc => hunlit i c (hc ▸ hd)) h hk
      · rw [if_neg (by simp [hik]), if_neg (by simp [hik])]
        exact h k (by rwa [offer_isChanged_ne p hik] at hk)

def arrival (cs : Conditions) : Passing :=
  { nodes := cs.nodes, update := { changed := List.replicate cs.size false } }

theorem flagged_arrival (cs : Conditions) : cs.arrival.Flagged := by simp [Passing.Flagged, arrival, size]

theorem onEvent_eq (cs : Conditions) (e : Event) (hits : Hits) : cs.onEvent e hits =
    ({ cs with nodes := (cs.order.foldl (offer e hits) cs.arrival).nodes },
      (cs.order.foldl (offer e hits) cs.arrival).update) := rfl

theorem WellFormed.onEvent (h : cs.WellFormed) (e : Event) (hits : Hits) : (cs.onEvent e hits).1.WellFormed := by
  have hfold : ∀ (l : List Nat) (p : Passing), Unlit p.nodes → Unlit (l.foldl (offer e hits) p).nodes := by
    intro l
    induction l with
    | nil => exact fun _ hp => hp
    | cons i l ih => exact fun p hp => ih _ (hp.offer i)
  exact ⟨h.order, hfold cs.order cs.arrival h.unlit⟩

/-- Who is not told of a change need not ask again. -/
theorem query_of_not_changed (h : cs.WellFormed) {g : Nat} (hg : (cs.onEvent e hits).2.isChanged g = false) :
    (cs.onEvent e hits).1.query g none = cs.query g none := by
  rw [onEvent_eq] at hg ⊢
  have hoverall : (Conditions.overall { cs with nodes := (cs.order.foldl (offer e hits) cs.arrival).nodes }).getD
      g .unknown = cs.overall.getD g .unknown := by
    rw [overall_eq, overall_eq, size, length_foldl_offer]
    exact foldl_sense h.order cs.flagged_arrival h.unlit (fun _ _ => rfl) (by simp [arrival, size])
      (by simp [arrival, size]) (fun _ _ => rfl) hg
  by_cases hmem : g ∈ cs.order
  · rw [query_of_mem_order hmem]
    refine Eq.trans (query_of_mem_order ?_) hoverall
    exact hmem
  · have hnode := (foldl_offer_of_notMem e hits hmem cs.arrival).1
    simp only [query, hnode, hoverall]
    rfl

theorem foldl_offer_effect (hl : l.Nodup) (h : j ∈ l) (hp : p.Flagged) {c : Simple}
    (hc : p.nodes[j]? = some (.simple c)) (hj : (l.foldl (offer e hits) p).update.isChanged j = false) :
    (c.onEvent e hits).2 ≠ .changed := by
  induction l generalizing p with
  | nil => cases h
  | cons i l ih =>
      obtain ⟨hi, hl⟩ := List.nodup_cons.1 hl
      rw [List.foldl_cons] at hj
      rcases List.mem_cons.1 h with rfl | h
      · intro hchanged
        have hlt : j < p.update.changed.length := hp ▸ (List.getElem?_eq_some_iff.1 hc).1
        rw [(foldl_offer_of_notMem e hits hi _).2] at hj
        simp [offer, hc, hchanged, Condition.Update.isChanged, List.getD_eq_getElem?_getD,
          List.getElem?_set_self hlt] at hj
      · have hne : i ≠ j := fun he => hi (he ▸ h)
        refine ih hl h (hp.offer i) ?_ hj
        rw [offer_nodes, List.getElem?_modify_ne _ _ hne, hc]

theorem query_eq_of_not_changed (h : cs.WellFormed) {g : Nat}
    (hg : (cs.onEvent e hits).2.isChanged g = false) (key : Option DimensionKey) :
    (cs.onEvent e hits).1.query g key = cs.query g key := by
  have hoverall := query_of_not_changed h hg
  rw [onEvent_eq] at hg hoverall ⊢
  cases key with
  | none => exact hoverall
  | some k =>
      by_cases hmem : g ∈ cs.order
      · have hnode := foldl_offer_of_mem e hits h.order hmem cs.arrival
        change _ = cs.nodes[g]?.map (meet e hits) at hnode
        cases hn : cs.nodes[g]? with
        | none =>
            rw [hn] at hnode
            simpa only [query, hnode, hn, Option.map_none] using hoverall
        | some d =>
            rw [hn] at hnode
            cases d with
            | combination op children =>
                simpa only [query, hnode, hn, Option.map_some, meet] using hoverall
            | simple c =>
                have heffect := foldl_offer_effect h.order hmem cs.flagged_arrival hn hg
                simp only [query, hnode, hn, Option.map_some, meet, Simple.onEvent_signalAt heffect]
      · have hnode : (cs.order.foldl (offer e hits) cs.arrival).nodes[g]? = cs.nodes[g]? :=
          (foldl_offer_of_notMem e hits hmem cs.arrival).1
        cases hn : cs.nodes[g]? with
        | none => simpa only [query, hnode, hn] using hoverall
        | some d =>
            cases d with
            | combination op children => simpa only [query, hnode, hn] using hoverall
            | simple c => simp only [query, hnode, hn]

theorem foldl_offer_dropped (hl : l.Nodup) {r : DropReason}
    (h : (j, r) ∈ (l.foldl (offer e hits) p).update.dropped) : (j, r) ∈ p.update.dropped ∨
      j ∈ l ∧ ∃ c, p.nodes[j]? = some (.simple c) ∧ (c.onEvent e hits).2 = .dropped r := by
  induction l generalizing p with
  | nil => exact .inl h
  | cons i l ih =>
      obtain ⟨hi, hl⟩ := List.nodup_cons.1 hl
      rcases ih hl h with h | ⟨hj, c, hc, hdropped⟩
      · cases hn : p.nodes[i]? with
        | none => exact .inl (by simpa [offer, hn] using h)
        | some d =>
            cases d with
            | combination op children => exact .inl (by simpa [offer, hn] using h)
            | simple c =>
                cases heffect : (c.onEvent e hits).2 with
                | unchanged => exact .inl (by simpa [offer, hn, heffect] using h)
                | changed => exact .inl (by simpa [offer, hn, heffect] using h)
                | dropped r' =>
                    simp only [offer, hn, heffect, List.mem_append, List.mem_singleton] at h
                    rcases h with h | h
                    · exact .inl h
                    · cases h
                      exact .inr ⟨List.mem_cons_self, c, hn, heffect⟩
      · have hne : i ≠ j := fun he => hi (he ▸ hj)
        rw [offer_nodes, List.getElem?_modify_ne _ _ hne] at hc
        exact .inr ⟨List.mem_cons_of_mem _ hj, c, hc, hdropped⟩

theorem onEvent_dropped (h : cs.WellFormed) {r : DropReason} (hj : (j, r) ∈ (cs.onEvent e hits).2.dropped) :
    ∃ c, cs.nodes[j]? = some (.simple c) ∧ (cs.onEvent e hits).1.nodes[j]? = some (.simple c) := by
  rw [onEvent_eq] at hj ⊢
  rcases foldl_offer_dropped h.order hj with hnone | ⟨hmem, c, hc, hdropped⟩
  · cases hnone
  · refine ⟨c, hc, ?_⟩
    have hnode := foldl_offer_of_mem e hits h.order hmem cs.arrival
    rw [hc] at hnode
    simpa only [Option.map_some, meet, Simple.onEvent_dropped hdropped] using hnode

theorem compileOne_fresh {names : List String} {ms : Matchers} {limit : Nat} {d : Definition.Condition}
    {c : Simple} (h : compileOne names ms limit d = .ok (.simple c)) : c.unseen ≠ .on ∧ c.counts = .empty := by
  rw [compileOne] at h
  split at h
  next s hs =>
    simp only [Check.guard_eq_ok, Check.bind_eq_ok, Check.pure_eq_ok] at h
    obtain ⟨-, _, -, _, -, _, -, ⟨⟩⟩ := h
    dsimp only
    cases s.initial <;> simp [Definition.Initial.signal]
  next =>
    simp only [Check.bind_eq_ok, Check.pure_eq_ok] at h
    obtain ⟨_, -, _, -, ⟨⟩⟩ := h

theorem compile_fresh {defs : List Definition.Condition} {ms : Matchers} {limit : Nat}
    (h : compile defs ms limit = .ok cs) :
    cs.order.Nodup ∧ ∀ c, .simple c ∈ cs.nodes → c.unseen ≠ .on ∧ c.counts = .empty := by
  rw [compile] at h
  cases hr : Definition.firstRepeated? [] (defs.map (·.id)) with
  | some id => simp only [hr, Check.throw_bind_ne_ok] at h
  | none =>
      simp only [hr, Check.bind_eq_ok, Check.mapM_eq_ok] at h
      obtain ⟨nodes, hnodes, h⟩ := h
      split at h
      next order horder =>
        cases h
        refine ⟨Graph.childrenFirst_nodup horder, fun c hc => ?_⟩
        obtain ⟨d, -, hd⟩ := Check.exists_of_mem_right hnodes hc
        exact compileOne_fresh hd
      next => cases h

theorem compile_wellFormed {defs : List Definition.Condition} {ms : Matchers} {limit : Nat}
    (h : compile defs ms limit = .ok cs) : cs.WellFormed :=
  ⟨(compile_fresh h).1, fun _ c hi => ((compile_fresh h).2 c (List.mem_of_getElem? hi)).1⟩

def Within (n : Nat) (cs : Conditions) : Prop := ∀ c, .simple c ∈ cs.nodes → c.Within n

theorem compile_within {defs : List Definition.Condition} {ms : Matchers} {limit : Nat}
    (h : compile defs ms limit = .ok cs) : cs.Within 0 :=
  fun c hc => Simple.within_of_empty ((compile_fresh h).2 c hc).2

theorem WellFormed.within (h : cs.WellFormed) {n : Nat} (hn : cs.Within n) (e : Event) (hits : Hits) :
    (cs.onEvent e hits).1.Within (n + 1) := by
  intro c hc
  obtain ⟨j, hj⟩ := List.getElem?_of_mem hc
  rw [onEvent_eq] at hj
  dsimp only at hj
  by_cases hmem : j ∈ cs.order
  · rw [foldl_offer_of_mem e hits h.order hmem, Option.map_eq_some_iff] at hj
    obtain ⟨d, hd, hmeet⟩ := hj
    cases d with
    | combination => cases hmeet
    | simple c₀ =>
        cases hmeet
        exact (hn c₀ (List.mem_of_getElem? hd)).onEvent e hits
  · rw [(foldl_offer_of_notMem e hits hmem cs.arrival).1] at hj
    exact (hn c (List.mem_of_getElem? hj)).succ

theorem Within.countsFit {n : Nat} (h : cs.Within n) (hn : n + 1 < 4294967296) (e : Event) (hits : Hits) :
    cs.countsFit e hits = true := by
  refine List.all_eq_true.2 fun c hc => ?_
  cases c with
  | simple c => exact (h c hc).countFits hn e hits
  | combination => rfl

/-- What conditions come to from their definitions on, whatever the matchers hit. -/
inductive Reachable (defs : List Definition.Condition) (ms : Matchers) (limit : Nat) : Conditions → Prop
  | compiled {cs : Conditions} : compile defs ms limit = .ok cs → Reachable defs ms limit cs
  | onEvent {cs : Conditions} (e : Event) (hits : Hits) : Reachable defs ms limit cs →
      Reachable defs ms limit (cs.onEvent e hits).1

variable {defs : List Definition.Condition} {ms : Matchers} {limit : Nat}

theorem Reachable.wellFormed (h : Reachable defs ms limit cs) : cs.WellFormed := by
  induction h with
  | compiled h => exact compile_wellFormed h
  | onEvent e hits _ ih => exact ih.onEvent e hits

/-- Whoever asks a condition, at any key or overall, and gets another answer than before the event was told
of a change. -/
theorem isChanged_of_query_ne (h : Reachable defs ms limit cs) (e : Event) (hits : Hits) (index : Nat)
    (key : Option DimensionKey) (hne : (cs.onEvent e hits).1.query index key ≠ cs.query index key) :
    (cs.onEvent e hits).2.isChanged index = true := by
  rw [← Bool.not_eq_false]
  exact fun hsilent => hne (query_eq_of_not_changed h.wellFormed hsilent key)

/-- The lights of all rooms go off: that is news of a room of which nothing was known, and of the darkness
that is defined by them. -/
theorem isChanged_of_query_ne_lights :
    let ms : Matchers := ⟨["lit", "out", "night"], [.simple 1 [], .simple 2 [], .simple 3 []], [0, 1, 2]⟩
    let defs : List Definition.Condition := [
      ⟨"dark", .combination .not ["light"]⟩,
      ⟨"light", .simple { start := "lit", stop := "out", stopAll := some "night", dimensions := ["room"] }⟩]
    let night : Event := { atom := 3, time := 0 }
    ∃ cs, Reachable defs ms 2 cs ∧
      (cs.onEvent night (ms.judge night)).1.query 1 (some ⟨[("room", .int 2)]⟩) ≠
        cs.query 1 (some ⟨[("room", .int 2)]⟩) ∧
      (cs.onEvent night (ms.judge night)).1.query 0 none ≠ cs.query 0 none ∧
      (cs.onEvent night (ms.judge night)).2.isChanged 1 = true ∧
      (cs.onEvent night (ms.judge night)).2.isChanged 0 = true := by
  intro ms defs night
  let lit : Event := { atom := 1, time := 0, fields := .ofList [("room", .int 1)] }
  obtain ⟨cs, hcs, hroom, hdark⟩ : ∃ cs, compile defs ms 2 = .ok cs ∧
      let lit := (cs.onEvent lit (ms.judge lit)).1
      (lit.onEvent night (ms.judge night)).1.query 1 (some ⟨[("room", .int 2)]⟩) ≠
        lit.query 1 (some ⟨[("room", .int 2)]⟩) ∧
      (lit.onEvent night (ms.judge night)).1.query 0 none ≠ lit.query 0 none := ⟨_, rfl, by decide +kernel⟩
  have hreach : Reachable defs ms 2 (cs.onEvent lit (ms.judge lit)).1 := .onEvent _ _ (.compiled hcs)
  exact ⟨_, hreach, hroom, hdark, isChanged_of_query_ne hreach _ _ _ _ hroom,
    isChanged_of_query_ne hreach _ _ _ _ hdark⟩

end Conditions

end EventMetrics
