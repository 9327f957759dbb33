import EventMetrics.Proofs.Engine.History
import EventMetrics.Proofs.Metric.Sampling
import Mathlib.Algebra.GroupWithZero.Nat

namespace EventMetrics

theorem sum_map_add_countP {α : Type} (f : α → Nat) (p : α → Bool) (xs : List α) :
    (xs.map fun x => f x + if p x then 1 else 0).sum = (xs.map f).sum + xs.countP p := by
  induction xs with
  | nil => rfl
  | cons x xs ih =>
      rw [List.map_cons, List.sum_cons, ih, List.map_cons, List.sum_cons, List.countP_cons]
      omega

theorem sum_countP_eq_length {α β : Type} (p : α → β → Bool) (xs : List α) (ys : List β)
    (h : ∀ y ∈ ys, xs.countP (p · y) = 1) : (xs.map fun x => ys.countP (p x)).sum = ys.length := by
  induction ys with
  | nil => simp
  | cons y ys ih =>
      simp only [List.countP_cons]
      rw [sum_map_add_countP (fun x => ys.countP (p x)) (p · y), ih fun z hz => h z (List.mem_cons_of_mem _ hz),
        h y List.mem_cons_self, List.length_cons]

namespace Engine

open EventMetrics.Metric (Life)

variable {e : Engine} {d : Definitions} {o : EngineOptions}

def rows (e : Engine) (id : String) : List Record.Bucket :=
  Record.buckets (e.queue.filter (·.metric = id))

def corridor : Definitions where
  matchers := [⟨"enter", .simple 1 []⟩]
  metrics := [{ id := "visits", measure := .count "enter", bucket := some ⟨10⟩, dimensions := ["room"] }]

def enters (room time : Int) : Call :=
  .process { atom := 1, time, fields := .ofList [("room", .int room)] }

end Engine

end EventMetrics
