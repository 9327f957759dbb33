import EventMetrics.Alert

namespace EventMetrics.Alert.Tracker

variable {α : Type} [Add α] [Sub α] [OfNat α 0] [LE α] [DecidableLE α]

omit [Sub α] in
@[simp] theorem judge_rule (t : Tracker α) (num : Nat) (firedAt : Int) (row : DimensionKey × α) :
    (t.judge num firedAt row).1.rule = t.rule := by
  simp only [judge]
  split
  · rfl
  · split <;> rfl

omit [Sub α] in
@[simp] theorem judgeAll_rule (num : Nat) (firedAt : Int) (rows : List (DimensionKey × α))
    (t : Tracker α) : (judgeAll num firedAt t rows).1.rule = t.rule := by
  induction rows generalizing t with
  | nil => rfl
  | cons row rows ih => exact (ih _).trans (judge_rule t num firedAt row)

omit [LE α] [DecidableLE α] in
@[simp] theorem keep_rule (t : Tracker α) (num : Nat) (rows : List (DimensionKey × α)) :
    (t.keep num rows).rule = t.rule := by
  rw [keep]
  split <;> rfl

@[simp] theorem onBucket_rule (t : Tracker α) (num : Nat) (firedAt : Int)
    (rows : List (DimensionKey × α)) : (t.onBucket num firedAt rows).1.rule = t.rule := by
  simp [onBucket, dropBefore]

omit [Sub α] in
theorem judge_firedAt {num : Nat} {firedAt : Int} {row : DimensionKey × α} {t : Tracker α} :
    ∀ f ∈ (t.judge num firedAt row).2, f.firedAt = firedAt := by
  rw [judge]
  split
  · simp
  · split <;> simp

omit [Sub α] in
theorem judgeAll_firedAt {num : Nat} {firedAt : Int} {rows : List (DimensionKey × α)} {t : Tracker α} :
    ∀ f ∈ (judgeAll num firedAt t rows).2, f.firedAt = firedAt := by
  induction rows generalizing t with
  | nil => simp [judgeAll]
  | cons row rows ih =>
      intro f hf
      rcases List.mem_append.1 hf with hf | hf
      · exact judge_firedAt f hf
      · exact ih f hf

theorem onBucket_firedAt (t : Tracker α) (num : Nat) (firedAt : Int) (rows : List (DimensionKey × α)) :
    ∀ f ∈ (t.onBucket num firedAt rows).2, f.firedAt = firedAt := judgeAll_firedAt

end EventMetrics.Alert.Tracker
