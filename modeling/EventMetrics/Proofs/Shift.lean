import EventMetrics.Proofs.Activation
import EventMetrics.Proofs.Alert
import EventMetrics.Proofs.Bounded
import EventMetrics.Proofs.Table

namespace EventMetrics

namespace Instant

variable {c t d : Int}

/-- What is some length after an instant moves with it: no end of the range is in the way. -/
def Carries (c t d : Int) : Prop := after (t + c) d = after t d + c

def Ample (lengths : List Int) (t : Int) : Prop := InRange t ∧ ∀ d ∈ lengths, InRange (t + d)

instance (lengths : List Int) (t : Int) : Decidable (Ample lengths t) :=
  inferInstanceAs (Decidable (_ ∧ ∀ d ∈ lengths, _))

def Movable (c : Int) (lengths : List Int) (t : Int) : Prop := Ample lengths t ∧ Ample lengths (t + c)

instance (c : Int) (lengths : List Int) (t : Int) : Decidable (Movable c lengths t) :=
  inferInstanceAs (Decidable (_ ∧ _))

theorem Movable.max {lengths : List Int} {s : Int} (hs : Movable c lengths s) (ht : Movable c lengths t) :
    Movable c lengths (Max.max s t) := by
  rcases Int.le_total s t with hle | hle
  · rwa [Int.max_eq_right hle]
  · rwa [Int.max_eq_left hle]

theorem Movable.carries_self {lengths : List Int} (h : Movable c lengths t) (hd : d ∈ lengths) : Carries c t d := by
  rw [Carries, after, after, clamp_of_inRange (h.1.2 d hd), clamp_of_inRange (h.2.2 d hd)]
  omega

theorem Movable.carries {lengths : List Int} {limit : Int} (h : Movable c lengths limit) (hd : d ∈ lengths)
    (hnonneg : 0 ≤ d) (hle : t ≤ limit) (ht : first ≤ t) (htc : first ≤ t + c) : Carries c t d := by
  have hhere := (h.1.2 d hd).2
  have hthere := (h.2.2 d hd).2
  simp only [Carries, after, clamp, first, last] at *
  omega

end Instant

open Instant (Carries)

def Slot.shift (c : Int) (s : Slot) : Slot := { s with start := s.start + c, stop := s.stop + c }

def Grid.shift (c : Int) (g : Grid) : Grid :=
  { g with current := g.current.map (·.shift c), last := g.last.map (·.shift c) }

def Activation.shift (c : Int) (a : Activation) : Activation := { a with expiry := a.expiry.map (· + c) }

def Activations.shift (c : Int) (as : Activations) : Activations := as.map (·.shift c)

def Interval.shift (c : Int) (iv : Interval) : Interval := { iv with since := iv.since.map (· + c) }

def Intervals.shift (c : Int) (is : Intervals) : Intervals :=
  { is with opened := is.opened.mapValues fun _ iv => iv.shift c }

def Alert.Tracker.shift {α : Type} (c : Int) (t : Alert.Tracker α) : Alert.Tracker α :=
  { t with quietUntil := t.quietUntil.mapValues fun _ quietEnd => quietEnd + c }

def Alert.Firing.shift {α : Type} (c : Int) (f : Alert.Firing α) : Alert.Firing α :=
  { f with firedAt := f.firedAt + c }

namespace Record

def Bucket.shift (c : Int) (r : Bucket) : Bucket := { r with start := r.start + c, stop := r.stop + c }

def Skipped.shift (c : Int) (r : Skipped) : Skipped := { r with start := r.start + c, stop := r.stop + c }

def Alert.shift (c : Int) (r : Alert) : Alert :=
  { r with firedAt := r.firedAt + c, firedAtText := Calendar.render (r.firedAt + c) }

def Event.shift (c : Int) (r : Record.Event) : Record.Event := { r with time := r.time + c }

def shift (c : Int) : Record → Record
  | bucket r => bucket (r.shift c)
  | skipped r => skipped (r.shift c)
  | alert r => alert (r.shift c)
  | event r => event (r.shift c)

end Record

def Event.shift (c : Int) (e : Event) : Event := { e with time := e.time + c }

def Metric.shift (c : Int) (m : Metric) : Metric :=
  { m with
    grid := m.grid.shift c
    windows := m.windows.shift c
    pending := m.pending.map (·.shift c)
    intervals := m.intervals.shift c
    trackers := m.trackers.map (·.shift c) }

namespace Grid

variable {c t : Int} {g : Grid}

theorem numberAt_shift (c : Int) (g : Grid) (t : Int) : (g.shift c).numberAt (t + c) = g.numberAt t := by
  rw [numberAt, numberAt, shift]
  cases g.last with
  | none => rfl
  | some l => simp only [Option.map_some, Slot.shift, Int.add_sub_add_right, Int.add_le_add_iff_right]

theorem openAt_shift (h : Carries c t g.size) : (g.shift c).openAt (t + c) = (g.openAt t).shift c := by
  have hstop : Instant.after (t + c) (g.shift c).size = Instant.after t g.size + c := h
  rw [openAt, hstop, numberAt_shift]
  rfl

theorem close_shift (c : Int) (g : Grid) : (g.shift c).close = g.close.shift c := by
  obtain ⟨size, current, l⟩ := g
  cases current <;> rfl

theorem roll_shift (h : ∀ slot, g.current = some slot → Carries c slot.stop g.size) :
    (g.shift c).roll = g.roll.shift c := by
  obtain ⟨size, current, l⟩ := g
  cases current with
  | none => rfl
  | some slot =>
      have hstop : Instant.after (slot.stop + c) size = Instant.after slot.stop size + c := h slot rfl
      simp only [roll, shift, Option.map_some, next, Slot.shift, hstop]

end Grid

theorem later_shift (c : Int) (a b : Option Int) :
    later (a.map (· + c)) (b.map (· + c)) = (later a b).map (· + c) := by
  cases a <;> cases b <;> simp only [later, Option.map_some, Option.map_none]
  congr 1
  omega

namespace Activations

variable {c t : Int} {as : Activations}

theorem onEvent_shift (h : ∀ a ∈ as, Carries c t a.ttl) (hits : Hits) :
    (as.shift c).onEvent (t + c) hits = (as.onEvent t hits).shift c := by
  simp only [onEvent, shift, List.map_map]
  refine List.map_congr_left fun a ha => ?_
  have hafter : Instant.after (t + c) a.ttl = Instant.after t a.ttl + c := h a ha
  have hopened := later_shift c a.expiry (some (Instant.after t a.ttl))
  rw [Option.map_some] at hopened
  simp only [Function.comp_apply, Activation.onEvent, Activation.shift, hafter, hopened]
  split
  · rfl
  · split <;> rfl

theorem isActive_shift (c : Int) (as : Activations) (t : Int) : (as.shift c).isActive (t + c) = as.isActive t := by
  have hopen : (fun a : Activation => (a.shift c).isOpen (t + c)) = fun a => a.isOpen t := by
    funext a
    cases ha : a.expiry <;> simp [Activation.isOpen, Activation.shift, ha]
  simp only [isActive, shift, List.isEmpty_map, List.any_map, Function.comp_def, hopen]

theorem expires_shift {d now : Int} : Expires (as.shift c) now (d + c) ↔ ∃ a ∈ as, a.expiry = some d ∧ now < d + c := by
  have hexpiry : ∀ a : Activation, (a.shift c).expiry = some (d + c) ↔ a.expiry = some d := by
    intro a
    simp only [Activation.shift, Option.map_eq_some_iff, Int.add_left_inj, exists_eq_right]
  constructor
  · rintro ⟨_, hmem, hd, hlt⟩
    obtain ⟨a, ha, rfl⟩ := List.mem_map.1 hmem
    exact ⟨a, ha, (hexpiry a).1 hd, hlt⟩
  · rintro ⟨a, ha, hd, hlt⟩
    exact ⟨a.shift c, List.mem_map_of_mem ha, (hexpiry a).2 hd, hlt⟩

theorem endsAt_shift {x y : Int} (hx : as.endsAt Instant.first = some x)
    (hy : (as.shift c).endsAt Instant.first = some y) : y = x + c := by
  obtain ⟨⟨a, ha, hax, hfirst⟩, hmost⟩ := endsAt_eq_some hx
  obtain ⟨hexpires, hmost'⟩ := endsAt_eq_some hy
  obtain ⟨y, rfl⟩ : ∃ z, y = z + c := ⟨y - c, by omega⟩
  obtain ⟨b, hb, hby, hfirst'⟩ := expires_shift.1 hexpires
  have hle : y ≤ x := by
    by_cases hlt : Instant.first < y
    · exact hmost y ⟨b, hb, hby, hlt⟩
    · omega
  have hge : x + c ≤ y + c := by
    by_cases hlt : Instant.first < x + c
    · exact hmost' (x + c) (expires_shift.2 ⟨a, ha, hax, hlt⟩)
    · omega
  omega

end Activations

namespace Intervals

open Definition (DurationAggregation)

variable (c : Int) (is : Intervals) (agg : DurationAggregation) (t : Int)

theorem cut_shift (next : Option Int) (iv : Interval) : cut agg (t + c) (next.map (· + c)) (iv.shift c) =
    ((cut agg t next iv).1.shift c, (cut agg t next iv).2) := by
  obtain ⟨nesting, since, link, lifetime⟩ := iv
  cases agg <;> cases since <;>
    simp only [cut, Interval.shift, Option.map_none, Option.map_some, Int.add_sub_add_right]

variable {c} in
theorem sweep_shift {f g : DimensionKey → Interval → Interval × Int}
    (h : ∀ k iv, g k (iv.shift c) = ((f k iv).1.shift c, (f k iv).2)) :
    (is.shift c).sweep g = (is.sweep f).shift c := by
  simp only [sweep, shift, Table.mapValues, List.map_map, List.foldl_map, Function.comp_def, h]

theorem regateOne_shift (isOpen : Bool) (iv : Interval) : regateOne agg (t + c) isOpen (iv.shift c) =
    ((regateOne agg t isOpen iv).1.shift c, (regateOne agg t isOpen iv).2) := by
  have hcut := cut_shift c agg t none iv
  obtain ⟨nesting, since, link, lifetime⟩ := iv
  cases isOpen <;> cases since <;> first | rfl | exact hcut

theorem regate_shift (gate : Option DimensionKey → Bool) :
    (is.shift c).regate agg (t + c) gate = (is.regate agg t gate).shift c :=
  sweep_shift is fun _ iv => regateOne_shift c agg t (gate iv.link) iv

theorem accrueTo_shift : (is.shift c).accrueTo agg (t + c) = (is.accrueTo agg t).shift c := by
  refine sweep_shift is fun _ iv => ?_
  have hcut := cut_shift c agg t (some t) iv
  obtain ⟨nesting, since, link, lifetime⟩ := iv
  cases since <;> first | rfl | exact hcut

theorem endOne_shift (ts : Totals) (k : DimensionKey) (iv : Interval) :
    endOne agg (t + c) ts k (iv.shift c) = endOne agg t ts k iv := by
  have hcut := cut_shift c agg t none iv
  rw [Option.map_none] at hcut
  rw [endOne, endOne, hcut]
  cases agg <;> rfl

theorem start_shift (nested : Bool) (limit : Nat) (isOpen : Bool) (k : DimensionKey) (link : Option DimensionKey) :
    (is.shift c).start nested limit (t + c) isOpen k link =
      (is.start nested limit t isOpen k link).map (·.shift c) := by
  have hinsert : ∀ iv : Interval, (is.shift c).opened.insert k (iv.shift c) =
      (is.opened.insert k iv).mapValues fun _ iv => iv.shift c := Table.insert_mapValues _ _ _
  have hget : (is.shift c).opened.get? k = (is.opened.get? k).map (·.shift c) := Table.get?_mapValues _ _ _
  have hsize : (is.shift c).opened.size = is.opened.size := by simp [shift, Table.size, Table.mapValues]
  rw [start, start, hget, hsize]
  cases is.opened.get? k with
  | some iv =>
      have hiv := hinsert { iv with
        nesting := if nested then iv.nesting + 1 else 1
        since := if isOpen ∧ iv.since.isNone then some t else iv.since }
      simp only [Option.map_some, Except.map, shift, ← hiv]
      cases isOpen <;> cases hs : iv.since <;> simp [Interval.shift, hs]
  | none =>
      have hiv := hinsert { nesting := 1, since := if isOpen then some t else none, link }
      by_cases hroom : limit ≤ is.opened.size
      · simp only [Option.map_none, if_pos hroom, Except.map]
      · simp only [Option.map_none, if_neg hroom, Except.map, shift, ← hiv]
        cases isOpen <;> rfl

theorem stop_shift (nested : Bool) (k : DimensionKey) :
    (is.shift c).stop agg nested (t + c) k = (is.stop agg nested t k).shift c := by
  have hget : (is.shift c).opened.get? k = (is.opened.get? k).map (·.shift c) := Table.get?_mapValues _ _ _
  rw [stop, stop, hget]
  cases is.opened.get? k with
  | none => rfl
  | some iv =>
      have hstop : ∀ nesting : Nat, (if 0 < nesting then
            { is.shift c with opened := (is.shift c).opened.insert k ({ iv with nesting }.shift c) }
          else ⟨(is.shift c).opened.erase k, endOne agg (t + c) is.totals k (iv.shift c)⟩) =
          (if 0 < nesting then { is with opened := is.opened.insert k { iv with nesting } }
          else ⟨is.opened.erase k, endOne agg t is.totals k iv⟩).shift c := by
        intro nesting
        split
        · exact congrArg (Intervals.mk · is.totals) (Table.insert_mapValues (Interval.shift c) _ _ _)
        · rw [endOne_shift]
          exact congrArg (Intervals.mk · _) (Table.erase_mapValues (Interval.shift c) _ _)
      exact hstop _

theorem stopAll_shift : (is.shift c).stopAll agg (t + c) = (is.stopAll agg t).shift c := by
  simp only [stopAll, shift, Table.mapValues, List.foldl_map, endOne_shift]
  rfl

theorem settle_shift : (is.shift c).settle agg (t + c) = (is.settle agg t).shift c := by
  have haccrue := accrueTo_shift c is agg t
  cases agg with
  | sum => exact haccrue
  | maxSparse =>
      simp only [settle, haccrue]
      simp only [shift, Table.mapValues, List.foldl_map]
      rfl

end Intervals

namespace Alert.Tracker

variable {α : Type} {c t : Int} {tr : Tracker α}

variable [Add α] [OfNat α 0] [LE α] [DecidableLE α]

theorem judge_shift (h : Carries c t tr.rule.quiet) (num : Nat) (row : DimensionKey × α) :
    (tr.shift c).judge num (t + c) row = ((tr.judge num t row).1.shift c, (tr.judge num t row).2.map (·.shift c)) := by
  have hquiet : ((tr.shift c).quietUntil.get? row.1).any (t + c < ·) = (tr.quietUntil.get? row.1).any (t < ·) := by
    rw [shift, Table.get?_mapValues, Option.any_map]
    exact congrArg (Option.any · _) (funext fun q => by simp)
  have hafter : (tr.shift c).quietUntil.insert row.1 (Instant.after (t + c) tr.rule.quiet) =
      (tr.quietUntil.insert row.1 (Instant.after t tr.rule.quiet)).mapValues fun _ quietEnd => quietEnd + c := by
    rw [show Instant.after (t + c) tr.rule.quiet = _ from h]
    exact Table.insert_mapValues (· + c) _ _ _
  change (if tr.pastSum row.1 + row.2 ≤ tr.rule.threshold then (tr.shift c, [])
    else if ((tr.shift c).quietUntil.get? row.1).any (t + c < ·) then (tr.shift c, [])
    else ({ tr.shift c with quietUntil := (tr.shift c).quietUntil.insert row.1 (Instant.after (t + c) tr.rule.quiet) },
      [Firing.mk row.1 num (tr.pastSum row.1 + row.2) (t + c)])) = _
  rw [hquiet, hafter, judge]
  split
  · rfl
  · split <;> rfl

theorem judgeAll_shift (h : Carries c t tr.rule.quiet) (num : Nat) (rows : List (DimensionKey × α)) :
    judgeAll num (t + c) (tr.shift c) rows =
      ((judgeAll num t tr rows).1.shift c, (judgeAll num t tr rows).2.map (·.shift c)) := by
  induction rows generalizing tr with
  | nil => rfl
  | cons row rest ih =>
      have hrest := @ih (tr.judge num t row).1 (by rwa [judge_rule])
      simp only [judgeAll, judge_shift h, hrest, List.map_append]

variable [Sub α]

theorem onBucket_shift (h : Carries c t tr.rule.quiet) (num : Nat) (rows : List (DimensionKey × α)) :
    (tr.shift c).onBucket num (t + c) rows =
      ((tr.onBucket num t rows).1.shift c, (tr.onBucket num t rows).2.map (·.shift c)) := by
  have hkeep : ∀ u : Tracker α, (u.shift c).keep num rows = (u.keep num rows).shift c := by
    intro u
    change (if u.rule.kept = 0 then u.shift c else _) = (ite (u.rule.kept = 0) u _).shift c
    split <;> rfl
  have hsame : ∀ (k : DimensionKey) (quietEnd : Int), decide (t + c < quietEnd + c) = decide (t < quietEnd) := by simp
  have hretain : ∀ u : Tracker α, { u.shift c with
        quietUntil := (u.shift c).quietUntil.retain fun _ quietEnd => t + c < quietEnd } =
      { u with quietUntil := u.quietUntil.retain fun _ quietEnd => t < quietEnd }.shift c := by
    intro u
    rw [shift, shift, Table.retain_mapValues hsame]
  have hdropped : Carries c t (tr.dropBefore (num - tr.rule.kept)).rule.quiet := h
  have hjudge := judgeAll_shift hdropped num rows
  simp only [onBucket, ← hkeep, ← hretain]
  exact congrArg (fun r : Tracker α × List (Firing α) => (keep { r.1 with
    quietUntil := r.1.quietUntil.retain fun _ quietEnd => t + c < quietEnd } num rows, r.2)) hjudge

end Alert.Tracker

end EventMetrics
