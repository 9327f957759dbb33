import EventMetrics.Proofs.Metric.Uptime

namespace EventMetrics

/-- A key is open, as deep as it was started without a stop. -/
structure Spell where
  depth : Nat
  start : Int
  link : Option DimensionKey

/-- The end of a spell, and how much of its time counts. -/
structure Ending where
  time : Int
  nanos : Int
deriving DecidableEq

/-- What the events make of a key: the spell that is open, and those before it with their ends. -/
structure Course where
  current : Option Spell := none
  ended : List (Spell × Int) := []
  /-- No start within a spell named another link. -/
  steady : Bool := true

namespace Course

def finish (c : Course) (time : Int) : Course :=
  { c with current := none, ended := c.ended ++ c.current.toList.map (·, time) }

def enter (c : Course) (nested : Bool) (time : Int) (link : Option DimensionKey) : Course :=
  match c.current with
  | none => { c with current := some ⟨1, time, link⟩ }
  | some sp =>
    { c with
      current := some { sp with depth := if nested then sp.depth + 1 else 1 }
      steady := c.steady && decide (link.map DimensionKey.canonical = sp.link.map DimensionKey.canonical) }

def leave (c : Course) (nested : Bool) (time : Int) : Course :=
  match c.current with
  | none => c
  | some sp =>
    if nested ∧ 1 < sp.depth then { c with current := some { sp with depth := sp.depth - 1 } }
    else c.finish time

def turn (c : Course) (t : Timing) (hits : Hits) (isAtKey isAccepted : Bool) (time : Int)
    (link : Option DimensionKey) : Course :=
  match hits.get t.start, hits.get t.stop with
  | true, false => if isAtKey && isAccepted then c.enter t.nested time link else c
  | false, true => if isAtKey then c.leave t.nested time else c
  | _, _ => c

def follow (c : Course) (t : Timing) (hits : Hits) (isAtKey isAccepted : Bool) (time : Int)
    (link : Option DimensionKey) : Course :=
  (if t.stopAll.any hits.get then c.finish time else c).turn t hits isAtKey isAccepted time link

/-- The spells for which some time counts, where `on` tells which instants count at a link. -/
def endings (c : Course) (on : Option DimensionKey → Int → Bool) : List Ending :=
  (c.ended.map fun x => ⟨x.2, Instant.count (on x.1.link) x.1.start x.2⟩).filter (0 < ·.nanos)

def still (c : Course) (on : Option DimensionKey → Int → Bool) (time : Int) : List Ending :=
  (c.current.toList.map fun sp => ⟨time, Instant.count (on sp.link) sp.start time⟩).filter (0 < ·.nanos)

theorem pos_of_mem_endings {c : Course} {on : Option DimensionKey → Int → Bool} {x : Ending}
    (hx : x ∈ c.endings on) : 0 < x.nanos :=
  of_decide_eq_true (List.mem_filter.1 hx).2

theorem pos_of_mem_still {c : Course} {on : Option DimensionKey → Int → Bool} {time : Int} {x : Ending}
    (hx : x ∈ c.still on time) : 0 < x.nanos :=
  of_decide_eq_true (List.mem_filter.1 hx).2

theorem time_of_mem_still {c : Course} {on : Option DimensionKey → Int → Bool} {time : Int} {x : Ending}
    (hx : x ∈ c.still on time) : x.time = time := by
  obtain ⟨sp, -, rfl⟩ := List.mem_map.1 (List.mem_filter.1 hx).1
  rfl

variable (c : Course) (on : Option DimensionKey → Int → Bool) (time : Int)

theorem endings_finish : (c.finish time).endings on = c.endings on ++ c.still on time := by
  simp only [endings, still, finish, List.map_append, List.filter_append, List.map_map]
  rfl

theorem endings_enter (nested : Bool) (link : Option DimensionKey) :
    (c.enter nested time link).endings on = c.endings on := by
  rw [enter]
  split <;> rfl

theorem endings_leave (nested : Bool) :
    (c.leave nested time).endings on = c.endings on ∨
      (c.leave nested time).endings on = c.endings on ++ c.still on time := by
  rw [leave]
  split
  · exact .inl rfl
  · split
    · exact .inl rfl
    · exact .inr (c.endings_finish on time)

theorem turn_cases (t : Timing) (hits : Hits) (isAtKey isAccepted : Bool) (link : Option DimensionKey) :
    c.turn t hits isAtKey isAccepted time link = c ∨
      c.turn t hits isAtKey isAccepted time link = c.enter t.nested time link ∨
      c.turn t hits isAtKey isAccepted time link = c.leave t.nested time := by
  unfold turn
  split
  · split
    · exact .inr (.inl rfl)
    · exact .inl rfl
  · split
    · exact .inr (.inr rfl)
    · exact .inl rfl
  · exact .inl rfl

theorem endings_follow (t : Timing) (hits : Hits) (isAtKey isAccepted : Bool) (link : Option DimensionKey) :
    ∃ new, (c.follow t hits isAtKey isAccepted time link).endings on = c.endings on ++ new ∧
      ∀ x ∈ new, x.time = time := by
  have hturn : ∀ c : Course, ∃ new, (c.turn t hits isAtKey isAccepted time link).endings on =
      c.endings on ++ new ∧ ∀ x ∈ new, x.time = time := by
    intro c
    have hsame : ∃ new, c.endings on = c.endings on ++ new ∧ ∀ x ∈ new, x.time = time :=
      ⟨[], (List.append_nil _).symm, by simp⟩
    rcases c.turn_cases time t hits isAtKey isAccepted link with h | h | h <;> rw [h]
    · exact hsame
    · exact (c.endings_enter on time t.nested link).symm ▸ hsame
    · rcases c.endings_leave on time t.nested with h | h <;> rw [h]
      · exact hsame
      · exact ⟨_, rfl, fun x => time_of_mem_still⟩
  rw [follow]
  split
  · obtain ⟨new, hnew, htime⟩ := hturn (c.finish time)
    refine ⟨c.still on time ++ new, ?_, fun x hx => ?_⟩
    · rw [hnew, c.endings_finish on time, List.append_assoc]
    · exact (List.mem_append.1 hx).elim time_of_mem_still (htime x)
  · exact hturn c

theorem steady_of_follow {c : Course} {t : Timing} {hits : Hits} {isAtKey isAccepted : Bool} {time : Int}
    {link : Option DimensionKey} (h : (c.follow t hits isAtKey isAccepted time link).steady = true) :
    c.steady = true := by
  have henter : ∀ c : Course, (c.enter t.nested time link).steady = true → c.steady = true := by
    intro c hc
    rw [enter] at hc
    split at hc
    · exact hc
    · exact (Bool.and_eq_true_iff.1 hc).1
  have hleave : ∀ c : Course, (c.leave t.nested time).steady = c.steady := by
    intro c
    rw [leave]
    split
    · rfl
    · split <;> rfl
  have hturn : ∀ c : Course, (c.turn t hits isAtKey isAccepted time link).steady = true → c.steady = true := by
    intro c hc
    rcases c.turn_cases time t hits isAtKey isAccepted link with h | h | h <;> rw [h] at hc
    · exact hc
    · exact henter c hc
    · exact hleave c ▸ hc
  rw [follow] at h
  split at h
  · exact hturn (c.finish time) h
  · exact hturn c h

theorem link_of_steady {c : Course} {sp : Spell} {nested : Bool} {time : Int} {link : Option DimensionKey}
    (hsp : c.current = some sp) (h : (c.enter nested time link).steady = true) :
    link.map DimensionKey.canonical = sp.link.map DimensionKey.canonical := by
  rw [enter, hsp] at h
  exact of_decide_eq_true (Bool.and_eq_true_iff.1 h).2

/-- No spell has a link, so that none could be changed. -/
structure Plain (c : Course) : Prop where
  steady : c.steady = true
  link : ∀ sp, c.current = some sp → sp.link = none

namespace Plain

variable {c : Course} {t : Timing} {nested : Bool} {time : Int}

theorem finish (h : c.Plain) : (c.finish time).Plain := ⟨h.steady, fun _ hsp => by cases hsp⟩

theorem enter (h : c.Plain) : (c.enter nested time none).Plain := by
  rw [Course.enter]
  split
  next =>
    refine ⟨h.steady, fun sp hsp => ?_⟩
    cases hsp
    rfl
  next sp hc =>
    refine ⟨by simp [h.steady, h.link sp hc], fun sp' hsp => ?_⟩
    cases hsp
    exact h.link sp hc

theorem leave (h : c.Plain) : (c.leave nested time).Plain := by
  rw [Course.leave]
  split
  · exact h
  next sp hc =>
    split
    · refine ⟨h.steady, fun sp' hsp => ?_⟩
      cases hsp
      exact h.link sp hc
    · exact h.finish

theorem follow (h : c.Plain) (hits : Hits) (isAtKey isAccepted : Bool) :
    (c.follow t hits isAtKey isAccepted time none).Plain := by
  have hturn : ∀ c : Course, c.Plain → (c.turn t hits isAtKey isAccepted time none).Plain := by
    intro c hc
    rcases c.turn_cases time t hits isAtKey isAccepted none with h | h | h <;> rw [h]
    · exact hc
    · exact hc.enter
    · exact hc.leave
  rw [Course.follow]
  split
  · exact hturn _ h.finish
  · exact hturn c h

end Plain

end Course

namespace Metric

def linkOf (m : Metric) (ev : Event) : Option DimensionKey := (m.intervalLink ev).toOption.join

def course (m : Metric) (t : Timing) (ms : Matchers) (H : History) (k : DimensionKey) : Course :=
  H.foldl (fun c x => c.follow t (ms.judge x.1) (m.plan.isAt x.1 k) x.2 x.1.time (m.linkOf x.1)) {}

/-- Whether a metric is active at an instant and its condition, if it has one, is on at a link. -/
def isOn (m : Metric) (ms : Matchers) (cs : Conditions) (H : History) (link : Option DimensionKey) (i : Int) :
    Bool :=
  (m.windows.after ms (H.until i)).isActive i &&
    m.plan.gate.all fun g => ((cs.after ms (H.until i)).query g.condition link).isOn

variable {m : Metric} {ms : Matchers} {cs : Conditions} {H : History} {link : Option DimensionKey} {i τ : Int}

theorem intervalLink_congr {n : Metric} (h : n.plan = m.plan) (ev : Event) : n.intervalLink ev = m.intervalLink ev := by
  rw [intervalLink, h, ← intervalLink]

theorem linkOf_congr {n : Metric} (h : n.plan = m.plan) (ev : Event) : n.linkOf ev = m.linkOf ev := by
  rw [linkOf, linkOf, intervalLink_congr h]

theorem linkOf_eq {ev : Event} (h : m.intervalLink ev = .ok link) : m.linkOf ev = link := by
  rw [linkOf, h]
  rfl

theorem isOn_append {x : Event × Bool} (hi : i < x.1.time) :
    m.isOn ms cs (H ++ [x]) link i = m.isOn ms cs H link i := by
  rw [isOn, isOn, until_append hi]

theorem isOn_of_le (h : ∀ x ∈ H, x.1.time ≤ τ) (hi : τ ≤ i) : m.isOn ms cs H link i =
    ((m.windows.after ms H).isActive i &&
      m.plan.gate.all fun g => ((cs.after ms H).query g.condition link).isOn) := by
  rw [isOn, until_of_le h hi]

theorem course_append (m : Metric) (t : Timing) (ms : Matchers) (H : History) (x : Event × Bool)
    (k : DimensionKey) : m.course t ms (H ++ [x]) k =
      (m.course t ms H k).follow t (ms.judge x.1) (m.plan.isAt x.1 k) x.2 x.1.time (m.linkOf x.1) :=
  List.foldl_append

end Metric

end EventMetrics
