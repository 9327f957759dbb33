import EventMetrics.Proofs.Alert
import EventMetrics.Proofs.Table

namespace EventMetrics.Alert

open Keyed

/-- A bucket that has rows, as trackers are fed with it. -/
structure Feeding (α : Type) where
  num : Nat
  firedAt : Int
  rows : List (DimensionKey × α)

variable {α : Type} {fs gs : List (Feeding α)} {f : Feeding α} {k : DimensionKey} {now firedAt : Int}
  {num : Nat} {rows : List (DimensionKey × α)}

def Rising (fs : List (Feeding α)) : Prop := fs.Pairwise fun f g => f.num < g.num

def Apart (rows : List (DimensionKey × α)) : Prop := rows.Pairwise fun a b => text a.1 ≠ text b.1

/-- What a tracker relies on: numbers rise, time does not go back, no key has two rows. -/
structure Orderly (fs : List (Feeding α)) : Prop where
  rising : Rising fs
  later : fs.Pairwise fun f g => f.firedAt ≤ g.firedAt
  apart : ∀ f ∈ fs, Apart f.rows

variable {t : Tracker α} {row : DimensionKey × α}

def Firing.Mutes (a : Firing α) (quiet : Int) (k : DimensionKey) (now : Int) : Prop :=
  text a.key = text k ∧ now < Instant.after a.firedAt quiet

namespace Tracker

def Quiet (t : Tracker α) (k : DimensionKey) (now : Int) : Prop := (t.quietUntil.get? k).any (now < ·)

instance (t : Tracker α) (k : DimensionKey) (now : Int) : Decidable (t.Quiet k now) :=
  inferInstanceAs (Decidable (_ = true))

def mute (t : Tracker α) (k : DimensionKey) (firedAt : Int) : Tracker α :=
  { t with quietUntil := t.quietUntil.insert k (Instant.after firedAt t.rule.quiet) }

theorem quiet_mute (h : ¬ t.Quiet k firedAt) (hnow : firedAt ≤ now) (j : DimensionKey) :
    (t.mute k firedAt).Quiet j now ↔
      t.Quiet j now ∨ text k = text j ∧ now < Instant.after firedAt t.rule.quiet := by
  rw [Quiet, mute, Table.get?_insert]
  by_cases hk : text k = text j
  · have hbefore : ¬ t.Quiet j now := by
      rw [Quiet, ← Table.get?_congr hk]
      rw [Quiet] at h
      cases hend : t.quietUntil.get? k with
      | none => simp
      | some quietEnd =>
          simp only [hend, Option.any_some, decide_eq_true_eq] at h ⊢
          omega
    simp [hk, hbefore]
  · simp [hk, Ne.symm hk, Quiet]

variable [Add α] [OfNat α 0] [LE α] [DecidableLE α]

/-- Whether a row of a bucket fires. -/
def Alarms (t : Tracker α) (firedAt : Int) (row : DimensionKey × α) : Prop :=
  ¬ t.pastSum row.1 + row.2 ≤ t.rule.threshold ∧ ¬ t.Quiet row.1 firedAt

instance (t : Tracker α) (firedAt : Int) (row : DimensionKey × α) : Decidable (t.Alarms firedAt row) :=
  inferInstanceAs (Decidable (_ ∧ _))

def firing (t : Tracker α) (num : Nat) (firedAt : Int) (row : DimensionKey × α) : Firing α :=
  ⟨row.1, num, t.pastSum row.1 + row.2, firedAt⟩

theorem judge_eq (t : Tracker α) (num : Nat) (firedAt : Int) (row : DimensionKey × α) :
    t.judge num firedAt row =
      if t.Alarms firedAt row then (t.mute row.1 firedAt, [t.firing num firedAt row]) else (t, []) := by
  rw [judge]
  split
  next hsum => rw [if_neg fun h => h.1 hsum]
  next hsum =>
    split
    next hquiet => rw [if_neg fun h => h.2 hquiet]
    next hquiet =>
      rw [if_pos ⟨hsum, hquiet⟩]
      rfl

theorem quiet_judge (hnow : firedAt ≤ now) : (t.judge num firedAt row).1.Quiet k now ↔
    t.Quiet k now ∨ ∃ a ∈ (t.judge num firedAt row).2, a.Mutes t.rule.quiet k now := by
  rw [judge_eq]
  split
  next h => simpa [Firing.Mutes, firing] using quiet_mute h.2 hnow k
  · simp

theorem quiet_judgeAll (hnow : firedAt ≤ now) : (judgeAll num firedAt t rows).1.Quiet k now ↔
    t.Quiet k now ∨ ∃ a ∈ (judgeAll num firedAt t rows).2, a.Mutes t.rule.quiet k now := by
  induction rows generalizing t with
  | nil => simp [judgeAll]
  | cons row rows ih =>
      have hrest := ih (t := (t.judge num firedAt row).1)
      rw [judge_rule, quiet_judge hnow] at hrest
      simp only [judgeAll, hrest, List.mem_append, or_and_right, exists_or, or_assoc]

theorem judge_past : (t.judge num firedAt row).1.past = t.past := by
  rw [judge_eq]
  split <;> rfl

theorem judge_sums : (t.judge num firedAt row).1.sums = t.sums := by
  rw [judge_eq]
  split <;> rfl

theorem judge_pastSum (k : DimensionKey) : (t.judge num firedAt row).1.pastSum k = t.pastSum k := by
  rw [pastSum, judge_sums, pastSum]

theorem judgeAll_past : (judgeAll num firedAt t rows).1.past = t.past := by
  induction rows generalizing t with
  | nil => rfl
  | cons row rows ih => exact ih.trans judge_past

theorem judgeAll_sums : (judgeAll num firedAt t rows).1.sums = t.sums := by
  induction rows generalizing t with
  | nil => rfl
  | cons row rows ih => exact ih.trans judge_sums

theorem judge_alarms {other : DimensionKey × α} (h : text row.1 ≠ text other.1) :
    (t.judge num firedAt row).1.Alarms firedAt other ↔ t.Alarms firedAt other := by
  have hquiet : (t.judge num firedAt row).1.Quiet other.1 firedAt ↔ t.Quiet other.1 firedAt := by
    rw [quiet_judge (Int.le_refl firedAt), judge_eq]
    split
    · simp [Firing.Mutes, firing, h]
    · simp
  rw [Alarms, Alarms, judge_pastSum, judge_rule, hquiet]

theorem judgeAll_snd (h : Apart rows) : (judgeAll num firedAt t rows).2 =
    (rows.filter fun row => t.Alarms firedAt row).map (t.firing num firedAt) := by
  induction rows generalizing t with
  | nil => rfl
  | cons row rows ih =>
      obtain ⟨hfirst, hrest⟩ := List.pairwise_cons.1 h
      have hfilter : (rows.filter fun other => (t.judge num firedAt row).1.Alarms firedAt other) =
          rows.filter fun other => t.Alarms firedAt other :=
        List.filter_congr fun other hother => decide_eq_decide.2 (judge_alarms (hfirst other hother))
      have hfiring : (t.judge num firedAt row).1.firing num firedAt = t.firing num firedAt := by
        funext other
        rw [firing, firing, judge_pastSum]
      simp only [judgeAll]
      rw [ih hrest, hfilter, hfiring, judge_eq]
      by_cases hrow : t.Alarms firedAt row <;> simp [hrow]

variable [Sub α]

def feed (t : Tracker α) (f : Feeding α) : Tracker α × List (Firing α) := t.onBucket f.num f.firedAt f.rows

/-- The tracker once it was fed, and all that it fired. -/
def feedAll : Tracker α → List (Feeding α) → Tracker α × List (Firing α)
  | t, [] => (t, [])
  | t, f :: fs => (((t.feed f).1.feedAll fs).1, (t.feed f).2 ++ ((t.feed f).1.feedAll fs).2)

theorem feedAll_singleton (t : Tracker α) (f : Feeding α) : t.feedAll [f] = t.feed f := by
  simp only [feedAll, List.append_nil]

theorem feedAll_append (t : Tracker α) (fs gs : List (Feeding α)) : t.feedAll (fs ++ gs) =
    (((t.feedAll fs).1.feedAll gs).1, (t.feedAll fs).2 ++ ((t.feedAll fs).1.feedAll gs).2) := by
  induction fs generalizing t with
  | nil => rfl
  | cons f fs ih => simp only [List.cons_append, feedAll, ih, List.append_assoc]

@[simp] theorem feed_rule (t : Tracker α) (f : Feeding α) : (t.feed f).1.rule = t.rule :=
  onBucket_rule t f.num f.firedAt f.rows

@[simp] theorem feedAll_rule (t : Tracker α) (fs : List (Feeding α)) : (t.feedAll fs).1.rule = t.rule := by
  induction fs generalizing t with
  | nil => rfl
  | cons f fs ih => exact (ih _).trans (feed_rule t f)

omit [LE α] [DecidableLE α] in
theorem keep_quietUntil (t : Tracker α) (num : Nat) (rows : List (DimensionKey × α)) :
    (t.keep num rows).quietUntil = t.quietUntil := by
  rw [keep]
  split <;> rfl

theorem quiet_feed (hnow : f.firedAt ≤ now) : (t.feed f).1.Quiet k now ↔
    t.Quiet k now ∨ ∃ a ∈ (t.feed f).2, a.Mutes t.rule.quiet k now := by
  rw [feed, onBucket]
  refine Iff.trans ?_ (quiet_judgeAll (t := t.dropBefore (f.num - t.rule.kept)) hnow)
  rw [Quiet, keep_quietUntil, Table.get?_retain, Quiet]
  -- what is left out ended by then
  cases (judgeAll f.num f.firedAt (t.dropBefore (f.num - t.rule.kept)) f.rows).1.quietUntil.get? k with
  | none => rfl
  | some quietEnd =>
      by_cases hend : f.firedAt < quietEnd
      · simp [Option.filter, hend]
      · simp [Option.filter, hend]
        omega

theorem quiet_feedAll (hnow : ∀ f ∈ fs, f.firedAt ≤ now) : (t.feedAll fs).1.Quiet k now ↔
    t.Quiet k now ∨ ∃ a ∈ (t.feedAll fs).2, a.Mutes t.rule.quiet k now := by
  induction fs generalizing t with
  | nil => simp [feedAll]
  | cons f fs ih =>
      have hrest := ih (t := (t.feed f).1) fun g hg => hnow g (List.mem_cons_of_mem f hg)
      rw [feed_rule, quiet_feed (hnow f List.mem_cons_self)] at hrest
      simp only [feedAll, hrest, List.mem_append, or_and_right, exists_or, or_assoc]

end Tracker

end EventMetrics.Alert
