import EventMetrics.Proofs.Graph.Acyclic

namespace EventMetrics.Graph

inductive Mark
  | fresh
  | active
  | done

structure Walk where
  marks : List Mark
  path : List Nat
  order : List Nat

namespace Walk

def start (nodes : Nat) : Walk := ⟨List.replicate nodes .fresh, [], []⟩

def enter (w : Walk) (node : Nat) : Walk := ⟨w.marks.set node .active, w.path ++ [node], w.order⟩

def leave (w : Walk) (node : Nat) : Walk := ⟨w.marks.set node .done, w.path.dropLast, w.order ++ [node]⟩

end Walk

/-- Enters a fresh node, explores its children one after another, and leaves it. To meet a node that is
on the path ends everything with a cycle. A descent without end comes to nothing. -/
def explore (children : Children) (w : Walk) (node : Nat) : ExceptT (List Nat) Option Walk :=
  match w.marks.getD node .fresh with
  | .done => return w
  | .active => throw (w.path.drop (w.path.idxOf node) ++ [node])
  | .fresh => do
    let below ← (children.getD node []).foldlM (fun w child => (explore (w := w)) children child) (w.enter node)
    return below.leave node
partial_fixpoint

def search (children : Children) : Option (Except (List Nat) (List Nat)) :=
  ((List.range children.length).foldlM (explore children) (.start children.length)).run.map
    (·.map Walk.order)

variable {children : Children} {fuel node : Nat} {path order below : List Nat}

def mark (path order : List Nat) (n : Nat) : Mark :=
  if n ∈ order then .done else if n ∈ path then .active else .fresh

def walk (children : Children) (path order : List Nat) : Walk :=
  ⟨(List.range children.length).map (mark path order), path, order⟩

theorem getD_walk (h : node < children.length) :
    (walk children path order).marks.getD node .fresh = mark path order node := by
  simp [walk, List.getD_eq_getElem?_getD, h]

theorem set_map_range {k : Nat} {f g : Nat → Mark} (h : ∀ n ≠ node, f n = g n) :
    ((List.range k).map f).set node (g node) = (List.range k).map g := by
  refine List.ext_getElem? fun n => ?_
  rw [List.getElem?_set, List.getElem?_map, List.getElem?_map, List.length_map, List.length_range]
  by_cases hn : node = n
  · subst hn
    by_cases hlt : node < k <;> simp [hlt]
  · by_cases hlt : n < k <;> simp [hn, hlt, h n (Ne.symm hn)]

theorem enter_walk (hfree : node ∉ order) :
    (walk children path order).enter node = walk children (path ++ [node]) order := by
  have hmark : mark (path ++ [node]) order node = .active := by simp [mark, hfree]
  refine congrArg (Walk.mk · _ _) ?_
  rw [← hmark]
  exact set_map_range fun n hn => by simp [mark, hn]

theorem leave_walk :
    (walk children (path ++ [node]) below).leave node = walk children path (below ++ [node]) := by
  have hmark : mark path (below ++ [node]) node = .done := by simp [mark]
  rw [Walk.leave, walk, List.dropLast_concat, ← hmark]
  exact congrArg (Walk.mk · _ _) (set_map_range fun n hn => by simp [mark, hn])

theorem start_eq_walk (children : Children) : Walk.start children.length = walk children [] [] := by
  have hmark : mark [] [] = fun _ => .fresh := funext fun n => by simp [mark]
  rw [Walk.start, walk, hmark, List.map_const', List.length_range]

theorem dropWhile_ne_eq_drop_idxOf (path : List Nat) (node : Nat) :
    path.dropWhile (· ≠ node) = path.drop (path.idxOf node) := by
  rw [List.dropWhile_eq_drop_findIdx_not, List.idxOf]
  refine congrArg (List.drop · path) (congrArg (List.findIdx · path) (funext fun a => ?_))
  simp [beq_eq_decide]

theorem run_foldlM {σ τ ε α : Type} {f : τ → α → ExceptT ε Option τ} {g : σ → α → Except ε σ} {t : σ → τ}
    {l : List α} (h : ∀ s, ∀ a ∈ l, (f (t s) a).run = some ((g s a).map t)) (s : σ) :
    (l.foldlM f (t s)).run = some ((l.foldlM g s).map t) := by
  induction l generalizing s with
  | nil => rfl
  | cons a l ih =>
      have hrest := ih fun s b hb => h s b (List.mem_cons_of_mem a hb)
      rw [List.foldlM_cons, List.foldlM_cons, ExceptT.run_bind, h s a List.mem_cons_self]
      cases g s a with
      | error e => rfl
      | ok s' => exact hrest s'

/-- The path has room for all nodes, so that the fuel of a visit lasts for what there is to explore. -/
theorem explore_eq (hclosed : Closed children) (hpath : path.Nodup) (hin : ∀ n ∈ path, n < children.length)
    (hfuel : path.length + fuel = children.length + 1) (hnode : node < children.length) :
    (explore children (walk children path order) node).run =
      some ((visit children fuel path order node).map (walk children path)) := by
  induction fuel generalizing path order node with
  | zero =>
      have hle : path.length ≤ children.length := by
        simpa using (List.subperm_of_subset hpath fun n hn => List.mem_range.2 (hin n hn)).length_le
      omega
  | succ fuel ih =>
      rw [explore, visit, getD_walk hnode, mark]
      by_cases hdone : node ∈ order
      · simp only [hdone, if_true]
        rfl
      by_cases hmet : node ∈ path
      · simp only [hdone, hmet, if_true, if_false, dropWhile_ne_eq_drop_idxOf]
        rfl
      have hvisit : ∀ o, ∀ c ∈ children.getD node [],
          (explore children (walk children (path ++ [node]) o) c).run =
            some ((visit children fuel (path ++ [node]) o c).map (walk children (path ++ [node]))) := by
        intro o c hc
        refine ih (List.concat_eq_append ▸ List.Nodup.concat hmet hpath) (fun n hn => ?_) ?_ (hclosed node c hc)
        · rcases List.mem_append.1 hn with hn | hn
          · exact hin n hn
          · exact List.mem_singleton.1 hn ▸ hnode
        · rw [List.length_append, List.length_singleton]
          omega
      simp only [hdone, hmet, if_false]
      rw [enter_walk hdone, ExceptT.run_bind, run_foldlM hvisit]
      cases hbelow : (children.getD node []).foldlM (visit children fuel (path ++ [node])) order with
      | error cycle => rfl
      | ok below => exact congrArg (some <| Except.ok ·) leave_walk

theorem search_eq (hclosed : Closed children) : search children = some (childrenFirst children) := by
  rw [search, start_eq_walk, run_foldlM (g := visit children (children.length + 1) []) (t := walk children []),
    childrenFirst]
  · cases (List.range children.length).foldlM (visit children (children.length + 1) []) [] <;> rfl
  · intro o root hroot
    exact explore_eq hclosed List.nodup_nil (by simp) (by simp) (List.mem_range.1 hroot)

/-- The search ends on every graph whose children are nodes of it. It comes back with an order just when
the graph has no cycle; the order has every node once, after its children. Otherwise it comes back with
a cycle. -/
theorem search_finds (hclosed : Closed children) :
    search children = some (childrenFirst children) ∧
    ((∃ order, childrenFirst children = .ok order) ↔ Acyclic children) ∧
    (∀ order, childrenFirst children = .ok order → Orders children order) ∧
    ∀ cycle, childrenFirst children = .error cycle → IsCycle children cycle :=
  ⟨search_eq hclosed, childrenFirst_isOk_iff, fun _ h => childrenFirst_orders hclosed h,
    fun _ h => childrenFirst_isCycle h⟩

/-- Children that are shared or named twice are no cycle. Of a graph with cycles the first that is met is
reported, without the steps that lead to it. -/
theorem search_finds_loops :
    let shared : Children := [[1, 2, 1], [2], [], []]
    let looped : Children := [[1], [2], [1], [3]]
    (Closed shared ∧ search shared = some (.ok [2, 1, 0, 3]) ∧ Orders shared [2, 1, 0, 3]) ∧
      Closed looped ∧ search looped = some (.error [1, 2, 1]) ∧ IsCycle looped [1, 2, 1] := by
  intro shared looped
  have hshared : Closed shared := by decide
  have hlooped : Closed looped := by decide
  obtain ⟨hends, -, hfinds, -⟩ := search_finds hshared
  obtain ⟨hends', -, -, hmeets⟩ := search_finds hlooped
  exact ⟨⟨hshared, hends, hfinds _ rfl⟩, hlooped, hends', hmeets _ rfl⟩

end EventMetrics.Graph
