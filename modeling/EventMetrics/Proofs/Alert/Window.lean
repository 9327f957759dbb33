import EventMetrics.Proofs.Alert.Feeding
import EventMetrics.Proofs.Alert.Tallies
import Mathlib.Algebra.Group.Int.Defs
import Mathlib.Data.Int.Order.Basic
import Mathlib.Data.List.Pairwise
import Mathlib.Data.List.TakeWhile
import Mathlib.Order.Lattice

namespace EventMetrics.Alert

open Keyed Tracker

/-- The rule of a definition, with the threshold as a value of another type. -/
def Rule.withThreshold {α : Type} (d : Definition.Alert) (threshold : α) : Rule α :=
  { alert := d.id, metric := d.metric, kept := d.numBuckets - 1, threshold
    quiet := (d.refractory.map Span.toInstant).getD 0 }

theorem Rule.ofDefinition_eq (d : Definition.Alert) : Rule.ofDefinition d = Rule.withThreshold d d.threshold :=
  rfl

variable {α : Type} [AddCommGroup α] {fs before later : List (Feeding α)} {f : Feeding α} {t : Tracker α}
  {k : DimensionKey} {num oldest width : Nat}

/-- The values of a key over the buckets numbered from `num + 1 - width` to `num`. -/
def windowSum (fs : List (Feeding α)) (k : DimensionKey) (num width : Nat) : α :=
  ((fs.filter fun f => num < f.num + width ∧ f.num ≤ num).map fun f => worth k f.rows).sum

def Feeding.bucket (f : Feeding α) : PastBucket α := ⟨f.num, collect f.rows⟩

theorem held_buckets (k : DimensionKey) (fs : List (Feeding α)) :
    (held k (fs.map Feeding.bucket)).sum = (fs.map fun f => worth k f.rows).sum := by
  induction fs with
  | nil => rfl
  | cons f fs ih =>
      rw [List.map_cons, held_cons, List.map_cons, List.sum_cons, ← ih, Feeding.bucket, get?_collect]
      split
      next hnone =>
        split at hnone
        · exact absurd hnone (by simp)
        next h => rw [worth_eq_zero h, zero_add]
      next v hsome =>
        split at hsome
        next => rw [List.sum_cons, Option.some.inj hsome]
        · exact absurd hsome (by simp)

/-- A tracker that was fed keeps the last of the buckets; no later window reaches the others. -/
structure Covers (t : Tracker α) (fs : List (Feeding α)) : Prop where
  tallies : Tallies t.sums t.past
  split : ∃ gone kept, fs = gone ++ kept ∧ t.past = kept.map Feeding.bucket ∧ kept.length ≤ t.rule.kept ∧
    ∀ g ∈ gone, ∀ num, (∀ f ∈ fs, f.num < num) → g.num + t.rule.kept < num

theorem Covers.fresh (r : Rule α) : Covers { rule := r } [] :=
  ⟨Tallies.nil, [], [], rfl, rfl, Nat.zero_le _, by simp⟩

omit [AddCommGroup α] in
theorem le_num_of_mem_dropWhile (h : Rising fs) :
    ∀ f ∈ fs.dropWhile (·.num < oldest), oldest ≤ f.num := by
  induction fs with
  | nil => simp
  | cons g fs ih =>
      obtain ⟨hfirst, hrest⟩ := List.pairwise_cons.1 h
      intro f hf
      by_cases hg : g.num < oldest
      · rw [List.dropWhile_cons_of_pos (by simpa using hg)] at hf
        exact ih hrest f hf
      · rw [List.dropWhile_cons_of_neg (by simpa using hg)] at hf
        rcases List.mem_cons.1 hf with rfl | hf
        · omega
        · have := hfirst f hf
          omega

omit [AddCommGroup α] in
theorem num_of_mem_takeWhile {g : Feeding α} (hg : g ∈ fs.takeWhile (·.num < oldest)) : g.num < oldest := by
  simpa using List.mem_takeWhile_imp hg

/-- A tracker that keeps those buckets that are in the window of `num` and no others. -/
structure Trimmed (t : Tracker α) (fs : List (Feeding α)) (num : Nat) : Prop where
  tallies : Tallies t.sums t.past
  split : ∃ gone kept, fs = gone ++ kept ∧ t.past = kept.map Feeding.bucket ∧ kept.length ≤ t.rule.kept ∧
    (∀ g ∈ gone, g.num + t.rule.kept < num) ∧ ∀ g ∈ kept, num ≤ g.num + t.rule.kept

theorem Covers.dropBefore (h : Covers t fs) (hrise : Rising fs) (hnum : ∀ f ∈ fs, f.num < num) :
    Trimmed (t.dropBefore (num - t.rule.kept)) fs num := by
  obtain ⟨gone, kept, rfl, hpast, hlength, hgone⟩ := h.split
  refine ⟨dropBefore_tallies h.tallies _, gone ++ kept.takeWhile (·.num < num - t.rule.kept),
    kept.dropWhile (·.num < num - t.rule.kept), ?_, ?_, ?_, fun g hg => ?_, fun g hg => ?_⟩
  · rw [List.append_assoc, List.takeWhile_append_dropWhile]
  · rw [Tracker.dropBefore, hpast, List.dropWhile_map]
    rfl
  · exact Nat.le_trans (List.dropWhile_sublist _).length_le hlength
  · rcases List.mem_append.1 hg with hg | hg
    · exact hgone g hg num hnum
    · have : g.num < num - t.rule.kept := num_of_mem_takeWhile hg
      exact Nat.add_lt_of_lt_sub this
  · have : num - t.rule.kept ≤ g.num := le_num_of_mem_dropWhile (List.pairwise_append.1 hrise).2.1 g hg
    exact Nat.sub_le_iff_le_add.1 this

theorem Trimmed.congr {t' : Tracker α} (h : Trimmed t fs num) (hrule : t'.rule = t.rule)
    (hpast : t'.past = t.past) (hsums : t'.sums = t.sums) : Trimmed t' fs num := by
  obtain ⟨htallies, hsplit⟩ := h
  rw [← hpast, ← hsums] at htallies
  rw [← hpast, ← hrule] at hsplit
  exact ⟨htallies, hsplit⟩

theorem windowSum_eq {gone kept : List (Feeding α)} (hgone : ∀ g ∈ gone, g.num + width ≤ num)
    (hkept : ∀ g ∈ kept, num < g.num + width ∧ g.num ≤ num) (hlater : ∀ g ∈ later, num < g.num) :
    windowSum (gone ++ kept ++ later) k num width = (kept.map fun f => worth k f.rows).sum := by
  have hg : (gone.filter fun f => num < f.num + width ∧ f.num ≤ num) = [] :=
    List.filter_eq_nil_iff.2 fun g h => by have := hgone g h; simp; omega
  have hk : (kept.filter fun f => num < f.num + width ∧ f.num ≤ num) = kept :=
    List.filter_eq_self.2 fun g h => by simpa using hkept g h
  have hl : (later.filter fun f => num < f.num + width ∧ f.num ≤ num) = [] :=
    List.filter_eq_nil_iff.2 fun g h => by have := hlater g h; simp; omega
  rw [windowSum, List.filter_append, List.filter_append, hg, hk, hl, List.nil_append, List.append_nil]

/-- The past of a tracker and the bucket that is fed make up the window. -/
theorem Trimmed.pastSum_add (h : Trimmed t before f.num) (hrise : Rising (before ++ f :: later))
    (k : DimensionKey) : t.pastSum k + worth k f.rows =
      windowSum (before ++ f :: later) k f.num (t.rule.kept + 1) := by
  obtain ⟨-, hafter, hcross⟩ := List.pairwise_append.1 hrise
  obtain ⟨gone, kept, rfl, hpast, -, hgone, hkept⟩ := h.split
  have hwindow : windowSum (gone ++ (kept ++ [f]) ++ later) k f.num (t.rule.kept + 1) =
      ((kept ++ [f]).map fun f => worth k f.rows).sum := by
    refine windowSum_eq (fun g hg => ?_) (fun g hg => ?_) (List.pairwise_cons.1 hafter).1
    · have := hgone g hg
      omega
    · rcases List.mem_append.1 hg with hg | hg
      · have := hkept g hg
        have := hcross g (List.mem_append_right gone hg) f List.mem_cons_self
        omega
      · rw [List.mem_singleton.1 hg]
        omega
  rw [pastSum_eq h.tallies, hpast, held_buckets]
  simpa using hwindow.symm

omit [AddCommGroup α] in
theorem num_add_length_le {g : Feeding α} (h : Rising (fs ++ [f])) (hg : (fs ++ [f]).head? = some g) :
    g.num + fs.length ≤ f.num := by
  induction fs generalizing g with
  | nil =>
      obtain rfl : f = g := by simpa using hg
      simp
  | cons g' fs ih =>
      obtain rfl : g' = g := by simpa using hg
      obtain ⟨hfirst, hrest⟩ := List.pairwise_cons.1 h
      obtain ⟨next, hnext⟩ : ∃ next, (fs ++ [f]).head? = some next := by cases fs <;> simp
      have hlt := hfirst next (List.mem_of_mem_head? hnext)
      have hle := ih hrest hnext
      rw [List.length_cons]
      omega

omit [AddCommGroup α] in
theorem num_of_mem_excess {g : Feeding α} (h : Rising (fs ++ [f])) (hlength : fs.length ≤ width)
    (hg : g ∈ (fs ++ [f]).take (fs.length + 1 - width)) : g.num + width ≤ f.num := by
  rcases Nat.lt_or_eq_of_le hlength with hlt | rfl
  · rw [Nat.sub_eq_zero_of_le hlt] at hg
    simp at hg
  · rw [Nat.add_sub_cancel_left, List.take_one] at hg
    exact num_add_length_le h (by simpa [eq_comm] using hg)

theorem keep_past {kept : List (Feeding α)} (hpast : t.past = kept.map Feeding.bucket)
    (hlength : kept.length ≤ t.rule.kept) : (t.keep f.num f.rows).past =
      ((kept ++ [f]).drop (kept.length + 1 - t.rule.kept)).map Feeding.bucket := by
  rw [Tracker.keep]
  split
  next hzero =>
    obtain rfl : kept = [] := List.length_eq_zero_iff.1 (by omega)
    simp [hpast, hzero]
  next =>
    rw [dropExcess]
    simp [hpast, Feeding.bucket]

theorem Trimmed.keep (h : Trimmed t fs f.num) (hrise : Rising (fs ++ [f])) :
    Covers (t.keep f.num f.rows) (fs ++ [f]) := by
  refine ⟨keep_tallies h.tallies f.num f.rows, ?_⟩
  obtain ⟨gone, kept, rfl, hpast, hlength, hgone, -⟩ := h.split
  rw [List.append_assoc] at hrise ⊢
  refine ⟨gone ++ (kept ++ [f]).take (kept.length + 1 - t.rule.kept), _, ?_, keep_past hpast hlength, ?_, ?_⟩
  · rw [List.append_assoc, List.take_append_drop]
  · rw [keep_rule, List.length_drop, List.length_append, List.length_singleton]
    omega
  · intro g hg num hbelow
    have hf := hbelow f (by simp)
    rw [keep_rule]
    rcases List.mem_append.1 hg with hg | hg
    · exact Nat.lt_trans (hgone g hg) hf
    · exact Nat.lt_of_le_of_lt (num_of_mem_excess (List.pairwise_append.1 hrise).2.1 hlength hg) hf

variable [LinearOrder α] {row : DimensionKey × α}

theorem Covers.feed (h : Covers t fs) (hrise : Rising (fs ++ [f])) : Covers (t.feed f).1 (fs ++ [f]) := by
  obtain ⟨hfs, -, hcross⟩ := List.pairwise_append.1 hrise
  have htrim := h.dropBefore hfs fun g hg => hcross g hg f (List.mem_singleton_self f)
  refine Trimmed.keep ?_ hrise
  exact htrim.congr (judgeAll_rule ..) judgeAll_past judgeAll_sums

theorem Covers.feedAll (h : Covers t before) (hrise : Rising (before ++ fs)) :
    Covers (t.feedAll fs).1 (before ++ fs) := by
  induction fs generalizing t before with
  | nil => simpa [Tracker.feedAll] using h
  | cons f fs ih =>
      rw [List.append_cons] at hrise ⊢
      exact ih (h.feed (List.pairwise_append.1 hrise).1) hrise

/-- What a bucket fires: the rows whose window exceeds the threshold, if their key is not quiet. -/
theorem feed_snd (t : Tracker α) (h : Apart f.rows) : (t.feed f).2 =
    (f.rows.filter fun row => (t.dropBefore (f.num - t.rule.kept)).Alarms f.firedAt row).map
      ((t.dropBefore (f.num - t.rule.kept)).firing f.num f.firedAt) := judgeAll_snd h

section Window

variable {r : Rule α}

omit [AddCommGroup α] [LinearOrder α] in
theorem Apart.eq_of_mem {rows : List (DimensionKey × α)} {a b : DimensionKey × α} (h : Apart rows)
    (ha : a ∈ rows) (hb : b ∈ rows) (hkey : text a.1 = text b.1) : a = b := by
  have hsymm : Std.Symm fun a b : DimensionKey × α => text a.1 ≠ text b.1 := ⟨fun _ _ h => Ne.symm h⟩
  by_contra hne
  exact h.forall ha hb hne hkey

theorem window_row (ho : Orderly (before ++ f :: later)) (hrow : row ∈ f.rows) :
    let t := (feedAll { rule := r } before).1
    (t.dropBefore (f.num - r.kept)).pastSum row.1 + row.2 =
      windowSum (before ++ f :: later) row.1 f.num (r.kept + 1) := by
  intro t
  obtain ⟨hbefore, -, hcross⟩ := List.pairwise_append.1 ho.rising
  have hcovers : Covers t ([] ++ before) := (Covers.fresh r).feedAll hbefore
  have hrule : t.rule = r := feedAll_rule _ _
  have htrim := hcovers.dropBefore hbefore fun g hg => hcross g hg f List.mem_cons_self
  rw [hrule] at htrim
  have hworth := worth_of_mem (ho.apart f (by simp)) hrow
  rw [← hworth, htrim.pastSum_add ho.rising, show (t.dropBefore (f.num - r.kept)).rule = t.rule from rfl, hrule]
  rfl

theorem alarms_iff (ho : Orderly (before ++ f :: later)) (hrow : row ∈ f.rows) :
    ((feedAll { rule := r } before).1.dropBefore (f.num - r.kept)).Alarms f.firedAt row ↔
      r.threshold < windowSum (before ++ f :: later) row.1 f.num (r.kept + 1) ∧
      ∀ a ∈ (feedAll { rule := r } before).2, ¬ a.Mutes r.quiet row.1 f.firedAt := by
  have hlater : ∀ g ∈ before, g.firedAt ≤ f.firedAt :=
    fun g hg => (List.pairwise_append.1 ho.later).2.2 g hg f List.mem_cons_self
  have hfresh : ¬ Quiet ({ rule := r } : Tracker α) row.1 f.firedAt := by simp [Quiet, Table.get?_empty]
  have hquiet := (quiet_feedAll (t := { rule := r }) (k := row.1) hlater).trans (or_iff_right hfresh)
  have hrule : (feedAll { rule := r } before).1.rule = r := feedAll_rule _ _
  have hthreshold : ((feedAll { rule := r } before).1.dropBefore (f.num - r.kept)).rule = r := hrule
  rw [Alarms, window_row ho hrow, hthreshold, not_le]
  refine and_congr_right fun _ => (not_congr hquiet).trans ?_
  simp only [not_exists, not_and]

/-- An alert over `numBuckets` buckets fires for a row just when the sum over its window exceeds the
threshold and no earlier firing of its key is still in force; it reports that sum, once a bucket. -/
theorem feed_fires_iff_window (d : Definition.Alert) (threshold : α) (hd : 1 ≤ d.numBuckets)
    (ho : Orderly (before ++ f :: later)) :
    let r := Rule.withThreshold d threshold
    let fed := feedAll { rule := r } before
    let fired := (fed.1.feed f).2
    (∀ row ∈ f.rows, (∃ a ∈ fired, text a.key = text row.1) ↔
      threshold < windowSum (before ++ f :: later) row.1 f.num d.numBuckets ∧
      ∀ a ∈ fed.2, text a.key = text row.1 → ¬ f.firedAt < Instant.after a.firedAt r.quiet) ∧
    (∀ a ∈ fired, (∃ row ∈ f.rows, a.key = row.1) ∧ a.bucketNum = f.num ∧ a.firedAt = f.firedAt ∧
      a.windowSum = windowSum (before ++ f :: later) a.key f.num d.numBuckets) ∧
    fired.Pairwise fun a b => text a.key ≠ text b.key := by
  intro r fed fired
  have hapart : Apart f.rows := ho.apart f (by simp)
  have hrule : fed.1.rule = r := feedAll_rule _ _
  have hwidth : r.kept + 1 = d.numBuckets := Nat.sub_add_cancel hd
  have hfired : fired = (f.rows.filter fun row => (fed.1.dropBefore (f.num - r.kept)).Alarms f.firedAt row).map
      ((fed.1.dropBefore (f.num - r.kept)).firing f.num f.firedAt) := by rw [← hrule]; exact feed_snd fed.1 hapart
  rw [hfired, ← hwidth]
  refine ⟨fun row hrow => ?_, fun a ha => ?_, ?_⟩
  · have halarms := alarms_iff (r := r) ho hrow
    simp only [Firing.Mutes, not_and] at halarms
    refine Iff.trans ⟨?_, fun h => ?_⟩ halarms
    · rintro ⟨a, ha, hkey⟩
      obtain ⟨other, hother, rfl⟩ := List.mem_map.1 ha
      obtain ⟨hmem, hfires⟩ := List.mem_filter.1 hother
      -- distinct keys: the row that fired is this one
      obtain rfl : other = row := hapart.eq_of_mem hmem hrow hkey
      exact of_decide_eq_true hfires
    · exact ⟨_, List.mem_map_of_mem (List.mem_filter.2 ⟨hrow, decide_eq_true h⟩), rfl⟩
  · obtain ⟨row, hrow, rfl⟩ := List.mem_map.1 ha
    have hmem := (List.mem_filter.1 hrow).1
    exact ⟨⟨row, hmem, rfl⟩, rfl, rfl, window_row ho hmem⟩
  · rw [List.pairwise_map]
    exact hapart.filter _

/-- Two buckets with values three and four, for an alert over two buckets with threshold five. -/
theorem feed_fires_iff_window_second :
    let d : Definition.Alert := { id := "busy", metric := "load", numBuckets := 2, threshold := 5 }
    let before : List (Feeding ℤ) := [⟨0, 10, [(.empty, 3)]⟩]
    let f : Feeding ℤ := ⟨1, 20, [(.empty, 4)]⟩
    Orderly (before ++ [f]) ∧ ∃ a ∈ ((feedAll { rule := Rule.withThreshold d (5 : ℤ) } before).1.feed f).2,
      text a.key = text DimensionKey.empty := by
  intro d before f
  have ho : Orderly (before ++ [f]) := ⟨by simp [before, f, Rising], by decide, by simp [before, f, Apart]⟩
  refine ⟨ho, ((feed_fires_iff_window d 5 (by decide) ho).1 (.empty, 4) (List.mem_singleton_self _)).2 ⟨?_, ?_⟩⟩
  · decide
  · decide

end Window

end EventMetrics.Alert
