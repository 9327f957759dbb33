import EventMetrics.Logic
import Mathlib.Data.List.Basic

namespace EventMetrics

namespace LogicalOp

def Holds : LogicalOp → List Bool → Prop
  | and, bs => ∀ b ∈ bs, b = true
  | or, bs => ∃ b ∈ bs, b = true
  | not, bs => bs = [false]
  | nand, bs => ∃ b ∈ bs, b = false
  | nor, bs => ∀ b ∈ bs, b = false

theorem eval_iff_holds {op : LogicalOp} {bs : List Bool} (harity : op = .not → bs.length = 1) :
    op.eval bs = true ↔ op.Holds bs := by
  cases op with
  | and | or | nand | nor => simp [eval, Holds]
  | not =>
      obtain ⟨b, rfl⟩ := List.length_eq_one_iff.1 (harity rfl)
      simp [eval, Holds]

end LogicalOp

namespace Signal

/-- What is known does not contradict the value. -/
def Admits (s : Signal) (b : Bool) : Prop := s ≠ .unknown → s = .ofBool b

theorem admits_on {b : Bool} : on.Admits b ↔ b = true := by cases b <;> simp [Admits, ofBool]

theorem admits_off {b : Bool} : off.Admits b ↔ b = false := by cases b <;> simp [Admits, ofBool]

variable {ι : Type} {l : List ι} {signal : ι → Signal} {truth : ι → Bool} {s : Signal} {b : Bool}

theorem Admits.negate (h : s.Admits b) : s.negate.Admits (!b) := by
  cases s <;> cases b <;> simp_all [Admits, Signal.negate, ofBool]

theorem negate_negate (s : Signal) : s.negate.negate = s := by cases s <;> rfl

theorem disj_eq_negate (xs : List Signal) : disj xs = (conj (xs.map negate)).negate := by
  have hmem (s : Signal) : s.negate ∈ xs.map negate ↔ s ∈ xs :=
    List.mem_map_of_injective (Function.Involutive.injective negate_negate)
  have hoff : off ∈ xs.map negate ↔ on ∈ xs := hmem on
  have hunknown : unknown ∈ xs.map negate ↔ unknown ∈ xs := hmem unknown
  simp only [conj, disj, hoff, hunknown]
  split
  · rfl
  · split <;> rfl

theorem conj_admits (h : ∀ c ∈ l, (signal c).Admits (truth c)) :
    (conj (l.map signal)).Admits ((l.map truth).all id) := by
  intro hknown
  rw [conj] at hknown ⊢
  split
  next hoff =>
    obtain ⟨c, hc, hs⟩ := List.mem_map.1 hoff
    have hfalse : truth c = false := by
      have := h c hc (by simp [hs])
      cases htruth : truth c <;> simp_all [ofBool]
    have hall : (l.map truth).all id = false := List.all_eq_false.2 ⟨_, List.mem_map_of_mem hc, by simp [hfalse]⟩
    rw [hall]
    rfl
  next hoff =>
    rw [if_neg hoff] at hknown
    split
    next hunknown => exact absurd (if_pos hunknown) hknown
    next hunknown =>
      have hall : (l.map truth).all id = true := by
        simp only [List.all_map, List.all_eq_true]
        intro c hc
        have hs := h c hc fun hs => hunknown (hs ▸ List.mem_map_of_mem hc)
        have hne : signal c ≠ off := fun hs => hoff (hs ▸ List.mem_map_of_mem hc)
        cases htruth : truth c <;> simp_all [ofBool]
      rw [hall]
      rfl

theorem disj_admits (h : ∀ c ∈ l, (signal c).Admits (truth c)) :
    (disj (l.map signal)).Admits ((l.map truth).any id) := by
  have hany : (l.map truth).any id = !((l.map fun c => !truth c).all id) := by
    rw [List.not_all_eq_any_not, List.any_map, List.any_map]
    simp [Function.comp_def]
  rw [disj_eq_negate, hany, List.map_map]
  exact (conj_admits fun c hc => (h c hc).negate).negate

/-- An operator knows of its operands' values what it can, and contradicts none that they may have. -/
theorem combine_admits (op : LogicalOp) (h : ∀ c ∈ l, (signal c).Admits (truth c)) :
    (combine op (l.map signal)).Admits (op.eval (l.map truth)) := by
  cases op with
  | and => exact conj_admits h
  | or => exact disj_admits h
  | nand => exact (conj_admits h).negate
  | nor => exact (disj_admits h).negate
  | not =>
      cases l with
      | nil => exact fun hknown => absurd rfl hknown
      | cons c l => exact (h c List.mem_cons_self).negate

theorem negate_ne_unknown : s.negate ≠ .unknown ↔ s ≠ .unknown := by
  cases s <;> simp [Signal.negate]

theorem combine_ne_unknown (op : LogicalOp) {xs : List Signal} (hsome : xs ≠ []) (h : ∀ s ∈ xs, s ≠ .unknown) :
    combine op xs ≠ .unknown := by
  have hno : unknown ∉ xs := fun hmem => h _ hmem rfl
  have hconj : conj xs ≠ unknown := by
    rw [conj, if_neg hno]
    split <;> simp
  have hdisj : disj xs ≠ unknown := by
    rw [disj, if_neg hno]
    split <;> simp
  cases op with
  | and => exact hconj
  | or => exact hdisj
  | nand => exact negate_ne_unknown.2 hconj
  | nor => exact negate_ne_unknown.2 hdisj
  | not =>
      cases xs with
      | nil => exact absurd rfl hsome
      | cons s xs => exact negate_ne_unknown.2 (h s List.mem_cons_self)

end Signal

end EventMetrics
