import EventMetrics.Graph
import EventMetrics.Proofs.Check
import Mathlib.Data.List.Chain
import Mathlib.Data.List.Forall2
import Mathlib.Data.List.GetD
import Mathlib.Data.List.Nodup
import Mathlib.Data.List.Perm.Subperm
import Mathlib.Logic.Relation

namespace EventMetrics.Graph

open Relation

variable {children : Children} {fuel node n : Nat} {path order order' l : List Nat}

theorem visit_nodup (h : visit children fuel path order node = .ok order') (hn : order.Nodup) :
    order'.Nodup ∧ ∀ n ∈ order', n ∈ order ∨ n ∉ path := by
  induction fuel generalizing path order order' node with
  | zero =>
      rw [visit] at h
      split at h
      · cases h
        exact ⟨hn, fun n hm => .inl hm⟩
      · split at h <;> cases h
        exact ⟨hn, fun n hm => .inl hm⟩
  | succ fuel ih =>
      rw [visit] at h
      split at h
      · cases h
        exact ⟨hn, fun n hm => .inl hm⟩
      · split at h
        · cases h
        next hnew hpath =>
          simp only [Check.bind_eq_ok, Check.pure_eq_ok] at h
          obtain ⟨below, hbelow, rfl⟩ := h
          obtain ⟨hb, hmem⟩ := Check.foldlM_induction
            (P := fun o => o.Nodup ∧ ∀ n ∈ o, n ∈ order ∨ n ∉ path ++ [node])
            (fun o child o' ⟨ho, hs⟩ hc => by
              obtain ⟨ho', hs'⟩ := ih hc ho
              refine ⟨ho', fun n hm => ?_⟩
              rcases hs' n hm with hm | hm
              · exact hs n hm
              · exact .inr hm) hbelow ⟨hn, fun n hm => .inl hm⟩
          have hnode : node ∉ below := by
            intro hm
            rcases hmem node hm with hm | hm
            · exact hnew hm
            · simp at hm
          refine ⟨List.nodup_append.2 ⟨hb, by simp, ?_⟩, fun n hm => ?_⟩
          · rintro a ha b hb' rfl
            exact hnode (List.mem_singleton.1 hb' ▸ ha)
          · rcases List.mem_append.1 hm with hm | hm
            · exact (hmem n hm).imp_right fun hp hn => hp (List.mem_append_left _ hn)
            · exact .inr (List.mem_singleton.1 hm ▸ hpath)

theorem childrenFirst_nodup (h : childrenFirst children = .ok order) : order.Nodup :=
  Check.foldlM_induction (P := List.Nodup) (fun _ _ _ ho hv => (visit_nodup hv ho).1) h List.nodup_nil

def Child (children : Children) (a b : Nat) : Prop := b ∈ children.getD a []

def Acyclic (children : Children) : Prop := ∀ n, ¬ TransGen (Child children) n n

/-- Whatever stands in the order stands after its children. -/
def Sorted (children : Children) (order : List Nat) : Prop :=
  ∀ before n after, order = before ++ n :: after → ∀ c ∈ children.getD n [], c ∈ before

def Closed (children : Children) : Prop := ∀ a b, Child children a b → b < children.length

theorem Child.lt (h : Child children n node) : n < children.length := by
  by_contra hn
  rw [Child, List.getD_eq_default _ _ (Nat.le_of_not_lt hn)] at h
  cases h

theorem closed_iff : Closed children ↔ ∀ cs ∈ children, ∀ c ∈ cs, c < children.length := by
  constructor
  · intro h cs hcs c hc
    obtain ⟨a, ha⟩ := List.getElem?_of_mem hcs
    refine h a c ?_
    rwa [Child, List.getD_eq_getElem?_getD, ha]
  · intro h a b hab
    have hlt := hab.lt
    rw [Child, List.getD_eq_getElem _ _ hlt] at hab
    exact h _ (List.getElem_mem hlt) b hab

instance : Decidable (Closed children) := decidable_of_iff _ closed_iff.symm

theorem lt_of_transGen (h : TransGen (Child children) n node) : n < children.length := by
  obtain ⟨c, hc, -⟩ := TransGen.head'_iff.1 h
  exact hc.lt

theorem sorted_nil : Sorted children [] := fun before n after h => by simp at h

theorem Sorted.concat (h : Sorted children order) (hnode : ∀ c ∈ children.getD node [], c ∈ order) :
    Sorted children (order ++ [node]) := by
  intro before n after he c hc
  rcases List.append_eq_append_iff.1 he with ⟨as, rfl, has⟩ | ⟨as, rfl, has⟩
  · cases as with
    | nil =>
        obtain ⟨rfl, -⟩ : node = n ∧ [] = after := by simpa using has
        simpa using hnode c hc
    | cons a as => simp at has
  · cases as with
    | nil =>
        obtain ⟨rfl, -⟩ : n = node ∧ after = [] := by simpa using has
        simpa using hnode c hc
    | cons a as =>
        obtain ⟨rfl, -⟩ : n = a ∧ after = as ++ [node] := by simpa using has
        exact h before n as rfl c hc

theorem foldlM_sorted {f : List Nat → Nat → Except (List Nat) (List Nat)}
    (hf : ∀ o c o', c ∈ l → f o c = .ok o' → Sorted children o → Sorted children o' ∧ o ⊆ o' ∧ c ∈ o')
    (h : l.foldlM f order = .ok order') (hs : Sorted children order) :
    Sorted children order' ∧ order ⊆ order' ∧ ∀ c ∈ l, c ∈ order' := by
  induction l generalizing order with
  | nil =>
      rw [List.foldlM_nil, Check.pure_eq_ok] at h
      exact ⟨h ▸ hs, h ▸ List.Subset.refl order, by simp⟩
  | cons c l ih =>
      rw [List.foldlM_cons, Check.bind_eq_ok] at h
      obtain ⟨o, hc, hl⟩ := h
      obtain ⟨ho, hsub, hmem⟩ := hf order c o List.mem_cons_self hc hs
      obtain ⟨ho', hsub', hall⟩ := ih (fun o d o' hd => hf o d o' (List.mem_cons_of_mem c hd)) hl ho
      exact ⟨ho', List.Subset.trans hsub hsub', List.forall_mem_cons.2 ⟨hsub' hmem, hall⟩⟩

/-- The path has room for all nodes, so that the fuel lasts. -/
theorem visit_sorted (h : visit children fuel path order node = .ok order') (hpath : path.Nodup)
    (hin : ∀ n ∈ path, n < children.length) (hfuel : path.length + fuel = children.length + 1)
    (hs : Sorted children order) : Sorted children order' ∧ order ⊆ order' ∧ node ∈ order' := by
  induction fuel generalizing path order order' node with
  | zero =>
      have hle : path.length ≤ children.length := by
        simpa using (List.subperm_of_subset hpath fun n hn => List.mem_range.2 (hin n hn)).length_le
      omega
  | succ fuel ih =>
      rw [visit] at h
      split at h
      next hold =>
        cases h
        exact ⟨hs, List.Subset.refl order, hold⟩
      next hnew =>
        split at h
        · cases h
        next hfree =>
          simp only [Check.bind_eq_ok, Check.pure_eq_ok] at h
          obtain ⟨below, hbelow, rfl⟩ := h
          have hvisit : ∀ o c o', c ∈ children.getD node [] →
              visit children fuel (path ++ [node]) o c = .ok o' → Sorted children o →
              Sorted children o' ∧ o ⊆ o' ∧ c ∈ o' := by
            intro o c o' hc hv ho
            refine ih hv (List.nodup_append.2 ⟨hpath, by simp, ?_⟩) (fun n hn => ?_) ?_ ho
            · rintro a ha b hb rfl
              exact hfree (List.mem_singleton.1 hb ▸ ha)
            · rcases List.mem_append.1 hn with hn | hn
              · exact hin n hn
              · exact List.mem_singleton.1 hn ▸ Child.lt hc
            · rw [List.length_append, List.length_singleton]
              omega
          obtain ⟨hb, hsub, hall⟩ := foldlM_sorted hvisit hbelow hs
          exact ⟨hb.concat hall, List.Subset.trans hsub (List.subset_append_left _ _), by simp⟩

theorem childrenFirst_sorted (h : childrenFirst children = .ok order) :
    Sorted children order ∧ ∀ n < children.length, n ∈ order := by
  obtain ⟨hs, -, hall⟩ := foldlM_sorted
    (fun o c o' _ hv ho => visit_sorted hv List.nodup_nil (by simp) (by simp) ho) h sorted_nil
  exact ⟨hs, fun n hn => hall n (List.mem_range.2 hn)⟩

theorem visit_lt (hclosed : Closed children) (h : visit children fuel path order node = .ok order')
    (hnode : node < children.length) (hin : ∀ n ∈ order, n < children.length) :
    ∀ n ∈ order', n < children.length := by
  induction fuel generalizing path order order' node with
  | zero =>
      rw [visit] at h
      split at h
      · exact Except.ok.inj h ▸ hin
      · split at h <;> cases h
        exact hin
  | succ fuel ih =>
      rw [visit] at h
      split at h
      · exact Except.ok.inj h ▸ hin
      · split at h
        · cases h
        · simp only [Check.bind_eq_ok, Check.pure_eq_ok] at h
          obtain ⟨below, hbelow, rfl⟩ := h
          have hb : ∀ n ∈ below, n < children.length := by
            refine Check.foldlM_mem_induction (P := fun o => ∀ n ∈ o, n < children.length)
              (fun o c hc o' ho hv => ?_) hbelow hin
            exact ih hv (hclosed node c hc) ho
          intro n hn
          rcases List.mem_append.1 hn with hn | hn
          · exact hb n hn
          · exact List.mem_singleton.1 hn ▸ hnode

theorem Sorted.idxOf_lt (h : Sorted children order) (hn : n ∈ order) (hc : Child children n node) :
    node ∈ order ∧ order.idxOf node < order.idxOf n := by
  have hlt : order.idxOf n < order.length := List.idxOf_lt_length_iff.2 hn
  have hsplit : order = order.take (order.idxOf n) ++ n :: order.drop (order.idxOf n + 1) := by
    conv_lhs => rw [← List.take_append_drop (order.idxOf n) order, List.drop_eq_getElem_cons hlt,
      List.getElem_idxOf hlt]
  have hbefore : node ∈ order.take (order.idxOf n) := h _ _ _ hsplit node hc
  have hidx : order.idxOf node = (order.take (order.idxOf n)).idxOf node := by
    conv_lhs => rw [hsplit]
    exact List.idxOf_append_of_mem hbefore
  refine ⟨List.mem_of_mem_take hbefore, ?_⟩
  rw [hidx]
  exact (List.idxOf_lt_length_iff.2 hbefore).trans_le (List.length_take_le _ _)

theorem Sorted.not_below (h : Sorted children order) (hn : n ∈ order) : ¬ TransGen (Child children) n n := by
  have hlt : ∀ m, TransGen (Child children) n m → m ∈ order ∧ order.idxOf m < order.idxOf n := by
    intro m hm
    induction hm with
    | single hc => exact h.idxOf_lt hn hc
    | tail _ hc ih => exact ⟨(h.idxOf_lt ih.1 hc).1, (h.idxOf_lt ih.1 hc).2.trans ih.2⟩
  exact fun hm => Nat.lt_irrefl _ (hlt n hm).2

theorem below_of_mem_path (hchain : (path ++ [node]).IsChain (Child children)) (h : node ∈ path) :
    TransGen (Child children) node node := by
  have hpairs : (path ++ [node]).Pairwise (TransGen (Child children)) :=
    (hchain.imp fun _ _ => TransGen.single).pairwise
  exact (List.pairwise_append.1 hpairs).2.2 node h node (List.mem_singleton_self node)

/-- Steps from a node back to itself, by way of others that are all distinct. -/
structure IsCycle (children : Children) (cycle : List Nat) : Prop where
  two_le : 2 ≤ cycle.length
  closes : cycle.head? = cycle.getLast?
  nodup : cycle.dropLast.Nodup
  steps : cycle.IsChain (Child children)

variable {cycle : List Nat}

theorem IsCycle.exists_below (h : IsCycle children cycle) : ∃ n, TransGen (Child children) n n := by
  obtain ⟨htwo, hcloses, -, hsteps⟩ := h
  obtain rfl | ⟨path, node, rfl⟩ := List.eq_nil_or_concat' cycle
  · simp at htwo
  refine ⟨node, below_of_mem_path hsteps ?_⟩
  cases path with
  | nil => simp at htwo
  | cons a path =>
      rw [List.getLast?_concat] at hcloses
      obtain rfl : a = node := Option.some.inj hcloses
      exact List.mem_cons_self

theorem isCycle_of_mem_path (hpath : path.Nodup) (hchain : (path ++ [node]).IsChain (Child children))
    (h : node ∈ path) : IsCycle children (path.dropWhile (· ≠ node) ++ [node]) := by
  obtain ⟨before, after, rfl, hbefore⟩ := List.eq_append_cons_of_mem h
  have hdrop : (before ++ node :: after).dropWhile (· ≠ node) = node :: after := by
    rw [List.dropWhile_append_of_pos fun a ha => by simpa using ne_of_mem_of_not_mem ha hbefore]
    simp
  rw [hdrop]
  refine ⟨by simp, ?_, ?_, ?_⟩
  · rw [List.getLast?_concat]
    rfl
  · rw [List.dropLast_concat]
    exact hpath.sublist (List.sublist_append_right before _)
  · rw [List.append_assoc] at hchain
    exact hchain.suffix (List.suffix_append before _)

theorem visit_isCycle (h : visit children fuel path order node = .error cycle) (hpath : path.Nodup)
    (hchain : (path ++ [node]).IsChain (Child children)) : IsCycle children cycle := by
  induction fuel generalizing path order node with
  | zero =>
      rw [visit] at h
      split at h
      · cases h
      · split at h <;> cases h
        next hmet => exact isCycle_of_mem_path hpath hchain hmet
  | succ fuel ih =>
      rw [visit] at h
      split at h
      · cases h
      · split at h
        next hmet =>
          cases h
          exact isCycle_of_mem_path hpath hchain hmet
        next hfree =>
          rcases Check.bind_eq_error.1 h with h | ⟨_, -, h⟩
          case inr => cases h
          obtain ⟨c, hc, o, hv⟩ := Check.foldlM_eq_error h
          refine ih hv (List.concat_eq_append ▸ List.Nodup.concat hfree hpath)
            (hchain.append (List.isChain_singleton c) fun x hx y hy => ?_)
          obtain rfl : node = x := by simpa using hx
          obtain rfl : c = y := by simpa using hy
          exact hc

theorem childrenFirst_isCycle (h : childrenFirst children = .error cycle) : IsCycle children cycle := by
  obtain ⟨root, -, o, hv⟩ := Check.foldlM_eq_error h
  exact visit_isCycle hv List.nodup_nil (List.isChain_singleton root)

theorem childrenFirst_isOk_iff : (∃ order, childrenFirst children = .ok order) ↔ Acyclic children := by
  constructor
  · rintro ⟨order, h⟩ n hn
    obtain ⟨hs, hall⟩ := childrenFirst_sorted h
    exact hs.not_below (hall n (lt_of_transGen hn)) hn
  · intro h
    cases hr : childrenFirst children with
    | ok order => exact ⟨order, rfl⟩
    | error cycle =>
        obtain ⟨n, hn⟩ := (childrenFirst_isCycle hr).exists_below
        exact absurd hn (h n)

theorem mem_childrenFirst (hclosed : Closed children) (h : childrenFirst children = .ok order) :
    n ∈ order ↔ n < children.length := by
  refine ⟨fun hn => ?_, (childrenFirst_sorted h).2 n⟩
  have hlt : ∀ n ∈ order, n < children.length := by
    refine Check.foldlM_mem_induction (P := fun o => ∀ n ∈ o, n < children.length)
      (fun o root hroot o' ho hv => ?_) h (by simp)
    exact visit_lt hclosed hv (List.mem_range.1 hroot) ho
  exact hlt n hn

/-- Every node once, after its children. -/
structure Orders (children : Children) (order : List Nat) : Prop where
  nodup : order.Nodup
  sorted : Sorted children order
  mem : ∀ n, n ∈ order ↔ n < children.length

theorem childrenFirst_orders (hclosed : Closed children) (h : childrenFirst children = .ok order) :
    Orders children order :=
  ⟨childrenFirst_nodup h, (childrenFirst_sorted h).1, fun _ => mem_childrenFirst hclosed h⟩

section Names

variable {δ : Type} {id : δ → String} {kids : δ → List String} {defs : List δ} {a b : String}

/-- Among named things, `a` has `b` as a child. -/
def Refers (id : δ → String) (kids : δ → List String) (defs : List δ) (a b : String) : Prop :=
  ∃ d ∈ defs, id d = a ∧ b ∈ kids d

/-- Each position has the positions of the names that are its children. -/
def Resolves (id : δ → String) (kids : δ → List String) (defs : List δ) (children : Children) : Prop :=
  List.Forall₂ (fun d cs => List.Forall₂ (fun b c => (defs.map id).findIdx? (· = b) = some c) (kids d) cs)
    defs children

theorem findIdx?_eq_some {names : List String} {i : Nat} (h : names.findIdx? (· = b) = some i) :
    names[i]? = some b := by
  obtain ⟨hlt, hb, -⟩ := List.findIdx?_eq_some_iff_getElem.1 h
  rw [List.getElem?_eq_getElem hlt]
  simpa using hb

theorem findIdx?_eq_idxOf {names : List String} {i : Nat} (h : names.findIdx? (· = b) = some i) :
    names.idxOf b = i := (List.findIdx?_eq_some_iff_findIdx_eq.1 h).2

theorem Resolves.exists_of_child (h : Resolves id kids defs children) (hc : Child children n node) :
    ∃ d, defs[n]? = some d ∧ ∃ b ∈ kids d, (defs.map id).findIdx? (· = b) = some node := by
  have hlt := hc.lt
  have hlt' : n < defs.length := h.length_eq ▸ hlt
  rw [Child, List.getD_eq_getElem _ _ hlt] at hc
  obtain ⟨b, hb, hfind⟩ := Check.exists_of_mem_right (h.get hlt' hlt) hc
  exact ⟨_, List.getElem?_eq_getElem hlt', b, hb, hfind⟩

theorem Resolves.closed (h : Resolves id kids defs children) : Closed children := by
  intro n node hc
  obtain ⟨d, -, b, -, hfind⟩ := h.exists_of_child hc
  have := (List.getElem?_eq_some_iff.1 (findIdx?_eq_some hfind)).1
  rwa [List.length_map, h.length_eq] at this

theorem Resolves.refers (h : Resolves id kids defs children) (hc : Child children n node) :
    Refers id kids defs ((defs.map id).getD n "") ((defs.map id).getD node "") := by
  obtain ⟨d, hd, b, hb, hfind⟩ := h.exists_of_child hc
  refine ⟨d, List.mem_of_getElem? hd, ?_, ?_⟩
  · simp [List.getD_eq_getElem?_getD, hd]
  · rwa [List.getD_eq_getElem?_getD, findIdx?_eq_some hfind]

theorem Resolves.child (h : Resolves id kids defs children) (hn : (defs.map id).Nodup)
    (hab : Refers id kids defs a b) : Child children ((defs.map id).idxOf a) ((defs.map id).idxOf b) := by
  obtain ⟨d, hd, rfl, hb⟩ := hab
  obtain ⟨n, hlt, rfl⟩ := List.getElem_of_mem hd
  have hlt' : n < children.length := h.length_eq ▸ hlt
  obtain ⟨c, hc, hfind⟩ := Check.exists_of_mem_left (h.get hlt hlt') hb
  have hidx : (defs.map id).idxOf (id defs[n]) = n := by
    have := hn.idxOf_getElem n (by rwa [List.length_map])
    rwa [List.getElem_map] at this
  rw [hidx, findIdx?_eq_idxOf hfind, Child, List.getD_eq_getElem _ _ hlt']
  exact hc

/-- A cycle of positions is a cycle of names. -/
theorem Resolves.acyclic_iff (h : Resolves id kids defs children) (hn : (defs.map id).Nodup) :
    Acyclic children ↔ ∀ a, ¬ TransGen (Refers id kids defs) a a := by
  constructor
  · exact fun hacyclic a ha => hacyclic _ (ha.lift (defs.map id).idxOf fun _ _ => h.child hn)
  · exact fun hnames n hn => hnames _ (hn.lift ((defs.map id).getD · "") fun _ _ => h.refers)

theorem Resolves.order_isOk (h : Resolves id kids defs children) (hn : (defs.map id).Nodup) :
    (∃ order, childrenFirst children = .ok order) ↔ ∀ a, ¬ TransGen (Refers id kids defs) a a :=
  childrenFirst_isOk_iff.trans (h.acyclic_iff hn)

end Names

end EventMetrics.Graph
