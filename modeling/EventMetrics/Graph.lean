namespace EventMetrics.Graph

/-- The children of each node; nodes are positions in the list. -/
abbrev Children := List (List Nat)

/-- Adds `node` to `order` after everything below it. `path` leads from the first node visited to
`node`; to come back to a node on it is a cycle, which is the error. Every step down leaves one
node fewer to visit. -/
def visit (children : Children) : Nat → List Nat → List Nat → Nat → Except (List Nat) (List Nat)
  | fuel, path, order, node =>
    if node ∈ order then .ok order
    else if node ∈ path then .error (path.dropWhile (· ≠ node) ++ [node])
    else
      match fuel with
      | 0 => .ok order
      | fuel + 1 => do
        let order ← (children.getD node []).foldlM
          (fun order child => visit children fuel (path ++ [node]) order child) order
        return order ++ [node]

/-- All nodes, children before their parents, or a cycle as a path that ends where it starts. -/
def childrenFirst (children : Children) : Except (List Nat) (List Nat) :=
  (List.range children.length).foldlM (visit children (children.length + 1) []) []

end EventMetrics.Graph
