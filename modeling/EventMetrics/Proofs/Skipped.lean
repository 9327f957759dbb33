import EventMetrics.Record

namespace EventMetrics.Record

namespace Skipped

def Joins (s t : Skipped) : Prop := s.stop = t.start ∧ s.reason = t.reason

instance (s t : Skipped) : Decidable (Joins s t) := inferInstanceAs (Decidable (_ ∧ _))

def join (s t : Skipped) : Skipped := { s with stop := t.stop, buckets := s.buckets + t.buckets }

theorem join_assoc (s t w : Skipped) : (s.join t).join w = s.join (t.join w) := by
  simp [join, Nat.add_assoc]

def glue (s : Skipped) : List Skipped → List Skipped
  | [] => [s]
  | t :: rest => if s.Joins t then s.join t :: rest else s :: t :: rest

def merge (ss : List Skipped) : List Skipped := ss.foldr glue []

theorem glue_join {s t : Skipped} (h : s.Joins t) (ws : List Skipped) :
    glue (s.join t) ws = glue s (glue t ws) := by
  cases ws with
  | nil => simp [glue, h]
  | cons w ws =>
      have hleft : (s.join t).Joins w ↔ t.Joins w := by simp [Joins, join, h.2]
      have hright : s.Joins (t.join w) := h
      by_cases htw : t.Joins w
      · simp only [glue, hleft.2 htw, htw, hright, if_true, join_assoc]
      · simp only [glue, mt hleft.1 htw, htw, h, if_true, if_false]

theorem foldr_glue (s : Skipped) (ss ws : List Skipped) :
    (glue s ss).foldr glue ws = glue s (ss.foldr glue ws) := by
  cases ss with
  | nil => rfl
  | cons t ss =>
      rw [glue]
      split
      next h => exact glue_join h _
      next => rfl

theorem foldr_glue_merge (ss ws : List Skipped) : (merge ss).foldr glue ws = ss.foldr glue ws := by
  induction ss with
  | nil => rfl
  | cons s ss ih => exact (foldr_glue s (merge ss) ws).trans (congrArg (glue s) ih)

theorem merge_append_congr {ss ss' ws ws' : List Skipped} (h : merge ss = merge ss')
    (hw : merge ws = merge ws') : merge (ss ++ ws) = merge (ss' ++ ws') := by
  have hfold : ∀ ss ws, merge (ss ++ ws) = ss.foldr glue (merge ws) := fun _ _ => List.foldr_append
  rw [hfold, hfold, hw, ← foldr_glue_merge ss, h, foldr_glue_merge]

end Skipped

def isSkipped : Record → Bool
  | skipped _ => true
  | _ => false

def reports (rs : List Record) : List Record := rs.filter (!·.isSkipped)

def gaps (rs : List Record) : List Skipped :=
  rs.filterMap fun
    | skipped s => some s
    | _ => none

theorem reports_append (rs xs : List Record) : reports (rs ++ xs) = reports rs ++ reports xs :=
  List.filter_append ..

theorem gaps_append (rs xs : List Record) : gaps (rs ++ xs) = gaps rs ++ gaps xs :=
  List.filterMap_append ..

/-- The same reports, and the same gaps once they are merged. -/
def Agree (rs rs' : List Record) : Prop :=
  reports rs = reports rs' ∧ Skipped.merge (gaps rs) = Skipped.merge (gaps rs')

namespace Agree

variable {rs rs' xs xs' ys : List Record}

theorem rfl : Agree rs rs := ⟨Eq.refl _, Eq.refl _⟩

theorem symm (h : Agree rs xs) : Agree xs rs := ⟨h.1.symm, h.2.symm⟩

theorem trans (h : Agree rs xs) (h' : Agree xs ys) : Agree rs ys := ⟨h.1.trans h'.1, h.2.trans h'.2⟩

theorem append (h : Agree rs rs') (hx : Agree xs xs') : Agree (rs ++ xs) (rs' ++ xs') := by
  constructor
  · rw [reports_append, reports_append, h.1, hx.1]
  · rw [gaps_append, gaps_append]
    exact Skipped.merge_append_congr h.2 hx.2

end Agree

end EventMetrics.Record
