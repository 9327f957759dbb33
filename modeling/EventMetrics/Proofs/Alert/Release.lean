import EventMetrics.Proofs.Alert.Window
import Mathlib.Data.List.DropRight

namespace EventMetrics.Alert

open Keyed Tracker

variable {α : Type} {fs before gs : List (Feeding α)} {f g : Feeding α} {t : Tracker α} {k : DimensionKey}
  {num width : Nat}

def Feeding.Carries (g : Feeding α) (k : DimensionKey) : Prop := ∃ row ∈ g.rows, text row.1 = text k

instance (g : Feeding α) (k : DimensionKey) : Decidable (g.Carries k) :=
  inferInstanceAs (Decidable (∃ row ∈ g.rows, text row.1 = text k))

/-- The last `width` of the buckets that reach `num`. -/
def reaching (fs : List (Feeding α)) (num width : Nat) : List (Feeding α) :=
  (fs.filter fun g => num ≤ g.num + width).rtake width

theorem reaching_subset (hg : g ∈ reaching fs num width) : g ∈ fs ∧ num ≤ g.num + width := by
  have hmem := (List.drop_sublist _ _).mem hg
  exact ⟨List.mem_of_mem_filter hmem, by simpa using (List.mem_filter.1 hmem).2⟩

theorem reaching_length (fs : List (Feeding α)) (num width : Nat) : (reaching fs num width).length ≤ width := by
  rw [reaching, List.rtake, List.length_drop]
  omega

theorem reaching_rising (h : Rising fs) : Rising (reaching fs num width) :=
  (h.filter _).sublist (List.drop_sublist _ _)

/-- The end of the silence that the latest firing of the key began. -/
def silence (quiet : Int) (k : DimensionKey) (fired : List (Firing α)) : Option Int :=
  (fired.filter fun a => text a.key = text k).getLast?.map fun a => Instant.after a.firedAt quiet

theorem silence_append (quiet : Int) (k : DimensionKey) (as bs : List (Firing α)) :
    silence quiet k (as ++ bs) = (silence quiet k bs).or (silence quiet k as) := by
  rw [silence, List.filter_append, List.getLast?_append, Option.map_or]
  rfl

theorem silence_singleton (quiet : Int) (k : DimensionKey) (a : Firing α) :
    silence quiet k [a] = if text a.key = text k then some (Instant.after a.firedAt quiet) else none := by
  by_cases h : text a.key = text k <;> simp [silence, h]

theorem filter_or_filter {now later : Int} (h : now ≤ later) (x y : Option Int) :
    (x.or (y.filter (now < ·))).filter (later < ·) = (x.or y).filter (later < ·) := by
  cases x with
  | some a => rfl
  | none =>
      cases y with
      | none => rfl
      | some b =>
          by_cases hb : now < b
          · simp [Option.filter, hb]
          · have hlater : ¬ later < b := by omega
            simp [Option.filter, hb, hlater]

section Silence

variable [Add α] [OfNat α 0] [LE α] [DecidableLE α] {firedAt : Int} {row : DimensionKey × α}
  {rows : List (DimensionKey × α)}

theorem judge_silence : (t.judge num firedAt row).1.quietUntil.get? k =
    (silence t.rule.quiet k (t.judge num firedAt row).2).or (t.quietUntil.get? k) := by
  rw [judge_eq]
  split
  · rw [silence_singleton, mute, Table.get?_insert, firing]
    by_cases h : text k = text row.1
    · rw [if_pos h, if_pos h.symm, Option.some_or]
    · rw [if_neg h, if_neg (Ne.symm h), Option.none_or]
  · rfl

theorem judgeAll_silence : (judgeAll num firedAt t rows).1.quietUntil.get? k =
    (silence t.rule.quiet k (judgeAll num firedAt t rows).2).or (t.quietUntil.get? k) := by
  induction rows generalizing t with
  | nil => rfl
  | cons row rows ih =>
      simp only [judgeAll]
      rw [ih, judge_rule, judge_silence, silence_append, Option.or_assoc]

variable [Sub α]

theorem feed_silence (t : Tracker α) (f : Feeding α) : (t.feed f).1.quietUntil.get? k =
    ((silence t.rule.quiet k (t.feed f).2).or (t.quietUntil.get? k)).filter (f.firedAt < ·) := by
  rw [feed, onBucket]
  refine (congrArg (Table.get? · k) (keep_quietUntil ..)).trans ?_
  rw [Table.get?_retain, judgeAll_silence]
  rfl

theorem feedAll_silence (h : ∀ g ∈ fs, g.firedAt ≤ f.firedAt) :
    (t.feedAll (fs ++ [f])).1.quietUntil.get? k =
      ((silence t.rule.quiet k (t.feedAll (fs ++ [f])).2).or (t.quietUntil.get? k)).filter (f.firedAt < ·) := by
  induction fs generalizing t with
  | nil => simpa [feedAll_singleton] using feed_silence t f
  | cons g fs ih =>
      have hrest := ih (t := (t.feed g).1) fun g hg => h g (List.mem_cons_of_mem _ hg)
      have hg := h g List.mem_cons_self
      rw [feed_rule, feed_silence t g, filter_or_filter hg] at hrest
      simp only [List.cons_append, feedAll]
      rw [hrest, silence_append, Option.or_assoc]

end Silence

variable [AddCommGroup α]

theorem Trimmed.past_eq (h : Trimmed t fs num) :
    t.past = (fs.filter fun g => num ≤ g.num + t.rule.kept).map Feeding.bucket ∧
    (fs.filter fun g => num ≤ g.num + t.rule.kept).length ≤ t.rule.kept := by
  obtain ⟨gone, kept, rfl, hpast, hlength, hgone, hkept⟩ := h.split
  have hfilter : ((gone ++ kept).filter fun g => num ≤ g.num + t.rule.kept) = kept := by
    rw [List.filter_append, List.filter_eq_nil_iff.2 fun g hg => by simpa using hgone g hg,
      List.filter_eq_self.2 fun g hg => by simpa using hkept g hg, List.nil_append]
  rw [hfilter]
  exact ⟨hpast, hlength⟩

theorem Trimmed.keep_reaching (h : Trimmed t fs f.num) :
    (t.keep f.num f.rows).past = (reaching (fs ++ [f]) f.num t.rule.kept).map Feeding.bucket := by
  obtain ⟨hpast, hlength⟩ := h.past_eq
  rw [keep_past hpast hlength, reaching, List.rtake, List.filter_append]
  simp

theorem get?_bucket (g : Feeding α) (k : DimensionKey) :
    g.bucket.values.get? k = if g.Carries k then some (worth k g.rows) else none := get?_collect g.rows k

theorem held_length (k : DimensionKey) (gs : List (Feeding α)) :
    (held k (gs.map Feeding.bucket)).length = gs.countP (·.Carries k) := by
  rw [held, List.filterMap_map, List.length_filterMap_eq_countP]
  refine List.countP_congr fun g _ => ?_
  rw [Function.comp, get?_bucket]
  by_cases h : g.Carries k <;> simp [h]

theorem tally_held (k : DimensionKey) (gs : List (Feeding α)) :
    tally (held k (gs.map Feeding.bucket)) = if ∃ g ∈ gs, g.Carries k then
      some ((gs.map fun g => worth k g.rows).sum, gs.countP (·.Carries k)) else none := by
  have hcount := held_length k gs
  have hsum := held_buckets k gs
  rcases hheld : held k (gs.map Feeding.bucket) with _ | ⟨v, vs⟩
  · rw [hheld, List.length_nil, eq_comm, List.countP_eq_zero] at hcount
    rw [if_neg (by simpa using hcount), tally]
  · rw [hheld] at hcount hsum
    have hpos : 0 < gs.countP (·.Carries k) := by simp [← hcount]
    have hcarried : ∃ g ∈ gs, g.Carries k := by simpa using List.countP_pos_iff.1 hpos
    rw [if_pos hcarried, tally, hsum, hcount]

variable [LinearOrder α]

theorem Covers.feed_past (h : Covers t fs) (hrise : Rising (fs ++ [f])) :
    (t.feed f).1.past = (reaching (fs ++ [f]) f.num t.rule.kept).map Feeding.bucket := by
  obtain ⟨hfs, -, hcross⟩ := List.pairwise_append.1 hrise
  have htrim := h.dropBefore hfs fun g hg => hcross g hg f (List.mem_singleton_self f)
  have hrule : (judgeAll f.num f.firedAt (t.dropBefore (f.num - t.rule.kept)) f.rows).1.rule = t.rule :=
    judgeAll_rule ..
  have hjudged := htrim.congr hrule judgeAll_past judgeAll_sums
  rw [← hrule]
  exact Trimmed.keep_reaching (hjudged.congr rfl rfl rfl)

theorem feedAll_past {r : Rule α} (h : Rising (before ++ [f])) :
    (feedAll { rule := r } (before ++ [f])).1.past =
      (reaching (before ++ [f]) f.num r.kept).map Feeding.bucket := by
  have hcovers : Covers (feedAll { rule := r } before).1 ([] ++ before) :=
    (Covers.fresh r).feedAll (List.pairwise_append.1 h).1
  have hrule : (feedAll { rule := r } before).1.rule = r := feedAll_rule _ _
  rw [feedAll_append, feedAll_singleton, hcovers.feed_past h, hrule, List.nil_append]

theorem feedAll_sums {r : Rule α} (h : Rising fs) (k : DimensionKey) :
    (feedAll { rule := r } fs).1.sums.get? k = tally (held k (feedAll { rule := r } fs).1.past) := by
  have hcovers : Covers (feedAll { rule := r } fs).1 ([] ++ fs) := (Covers.fresh r).feedAll h
  exact hcovers.tallies k

/-- After each bucket an alert over `numBuckets` buckets keeps fewer buckets than that, the last of those
in its reach; a sum and a count for just the keys that one of them carries; and the silence of just the
keys whose latest firing is still in force. -/
theorem feedAll_retains (d : Definition.Alert) (threshold : α) (hd : 1 ≤ d.numBuckets)
    (ho : Orderly (before ++ [f])) :
    let r := Rule.withThreshold d threshold
    let fed := feedAll { rule := r } (before ++ [f])
    let retained := reaching (before ++ [f]) f.num (d.numBuckets - 1)
    fed.1.past = retained.map Feeding.bucket ∧ fed.1.past.length < d.numBuckets ∧
    (fed.1.past.Pairwise fun a b => a.num < b.num) ∧
    (∀ b ∈ fed.1.past, b.num ≤ f.num ∧ f.num < b.num + d.numBuckets) ∧
    (∀ k, fed.1.sums.get? k = if ∃ g ∈ retained, g.Carries k then
      some ((retained.map fun g => worth k g.rows).sum, retained.countP (·.Carries k)) else none) ∧
    ∀ k, fed.1.quietUntil.get? k = (silence r.quiet k fed.2).filter (f.firedAt < ·) := by
  intro r fed retained
  have hpast : fed.1.past = retained.map Feeding.bucket := feedAll_past ho.rising
  have hlength : retained.length ≤ d.numBuckets - 1 := reaching_length ..
  have hrising : Rising retained := reaching_rising ho.rising
  refine ⟨hpast, ?_, ?_, fun b hb => ?_, fun k => ?_, fun k => ?_⟩
  · rw [hpast, List.length_map]
    omega
  · rw [hpast, List.pairwise_map]
    exact hrising
  · rw [hpast] at hb
    obtain ⟨g, hg, rfl⟩ := List.mem_map.1 hb
    obtain ⟨hmem, hreach⟩ := reaching_subset hg
    have hle : g.num ≤ f.num := by
      rcases List.mem_append.1 hmem with hmem | hmem
      · exact Nat.le_of_lt ((List.pairwise_append.1 ho.rising).2.2 g hmem f (List.mem_singleton_self f))
      · rw [List.mem_singleton.1 hmem]
    have hnum : g.bucket.num = g.num := rfl
    omega
  · rw [feedAll_sums ho.rising, hpast, tally_held]
  · have hlater : ∀ g ∈ before, g.firedAt ≤ f.firedAt :=
      fun g hg => (List.pairwise_append.1 ho.later).2.2 g hg f (List.mem_singleton_self f)
    have hquiet := feedAll_silence (t := { rule := r }) (k := k) hlater
    rwa [Table.get?_empty, Option.or_none] at hquiet

/-- A key that fired in the first bucket is forgotten once the third is fed; another takes its place. -/
theorem feedAll_retains_departed :
    let d : Definition.Alert :=
      { id := "busy", metric := "load", numBuckets := 2, threshold := 100, refractory := some ⟨1000000000⟩ }
    let hall : DimensionKey := ⟨[("room", .text "hall")]⟩
    let before : List (Feeding ℤ) := [⟨0, 1000000000, [(.empty, 200), (hall, 3)]⟩, ⟨1, 2000000000, [(hall, 4)]⟩]
    let f : Feeding ℤ := ⟨2, 3000000000, [(hall, 5)]⟩
    let fed := feedAll { rule := Rule.withThreshold d (100 : ℤ) } (before ++ [f])
    1 ≤ d.numBuckets ∧ Orderly (before ++ [f]) ∧ fed.2.length = 1 ∧
      fed.1.past.length = 1 ∧ fed.1.sums.get? hall = some (5, 1) ∧
      fed.1.sums.get? .empty = none ∧ fed.1.quietUntil.get? .empty = none := by
  intro d hall before f fed
  have hne : text DimensionKey.empty ≠ text hall := by decide +kernel
  have ho : Orderly (before ++ [f]) :=
    ⟨by simp [before, f, Rising], by decide +kernel, by simpa [before, f, Apart] using hne⟩
  obtain ⟨hpast, -, -, -, hsums, hquiet⟩ := feedAll_retains d 100 (by decide) ho
  refine ⟨by decide, ho, ?_, ?_, ?_, ?_, ?_⟩
  · decide +kernel
  · rw [hpast]
    rfl
  · rw [hsums]
    decide +kernel
  · rw [hsums]
    decide +kernel
  · rw [hquiet]
    decide +kernel

end EventMetrics.Alert
