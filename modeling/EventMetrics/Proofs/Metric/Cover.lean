import EventMetrics.Proofs.Engine.Compiling
import EventMetrics.Proofs.Metric.Uptime

namespace EventMetrics

open Instant (last)

namespace Activation

variable {a : Activation} {ms : Matchers} {H earlier later : History} {i j : Int}

def opens (a : Activation) (ms : Matchers) (ev : Event) : Bool := (ms.judge ev).get a.trigger

def closes (a : Activation) (ms : Matchers) (ev : Event) : Bool := a.deactivate.any (ms.judge ev).get

/-- An event opened a window that lasts beyond the instant, and neither it nor a later one closed it. -/
def Covers (a : Activation) (ms : Matchers) (H : History) (i : Int) : Prop :=
  ∃ earlier x later, H = earlier ++ x :: later ∧ a.opens ms x.1 = true ∧ i < Instant.after x.1.time a.ttl ∧
    ∀ y ∈ x :: later, a.closes ms y.1 = false

theorem covers_nil (a : Activation) (ms : Matchers) (i : Int) : ¬ a.Covers ms [] i := by
  rintro ⟨earlier, x, later, h, -⟩
  simp at h

theorem covers_cons {x : Event × Bool} : a.Covers ms (x :: H) i ↔ a.Covers ms H i ∨
    a.opens ms x.1 = true ∧ i < Instant.after x.1.time a.ttl ∧ ∀ y ∈ x :: H, a.closes ms y.1 = false := by
  constructor
  · rintro ⟨earlier, y, later, h, hopens, hlt, hclosed⟩
    cases earlier with
    | nil =>
        cases h
        exact .inr ⟨hopens, hlt, hclosed⟩
    | cons z earlier =>
        cases h
        exact .inl ⟨earlier, y, later, rfl, hopens, hlt, hclosed⟩
  · rintro (⟨earlier, y, later, rfl, h⟩ | h)
    · exact ⟨x :: earlier, y, later, rfl, h⟩
    · exact ⟨[], x, H, rfl, h⟩

theorem Covers.anti (h : a.Covers ms H i) (hle : j ≤ i) : a.Covers ms H j := by
  obtain ⟨earlier, x, later, hH, hopens, hlt, hclosed⟩ := h
  exact ⟨earlier, x, later, hH, hopens, Int.lt_of_le_of_lt hle hlt, hclosed⟩

theorem Covers.lt_last (h : a.Covers ms H i) : i < last := by
  obtain ⟨earlier, x, later, -, -, hlt, -⟩ := h
  exact Int.lt_of_lt_of_le hlt (Instant.clamp_inRange _).2

theorem Covers.of_append (h : a.Covers ms (earlier ++ later) i) :
    (∃ x ∈ later, a.opens ms x.1 = true) ∨ a.Covers ms earlier i := by
  induction earlier with
  | nil =>
      obtain ⟨earlier, x, later, rfl, hopens, -⟩ := h
      exact .inl ⟨x, by simp, hopens⟩
  | cons y earlier ih =>
      rw [List.cons_append, covers_cons] at h
      rw [covers_cons]
      rcases h with h | ⟨hopens, hlt, hclosed⟩
      · exact (ih h).imp_right .inl
      · exact .inr (.inr ⟨hopens, hlt, fun z hz => hclosed z (List.mem_append_left later hz)⟩)

def after (a : Activation) (ms : Matchers) (H : History) : Activation :=
  H.foldl (fun a x => a.onEvent x.1.time (ms.judge x.1)) a

theorem isOpen_onEvent (x : Event × Bool) : (a.onEvent x.1.time (ms.judge x.1)).isOpen i = true ↔
    a.closes ms x.1 = false ∧ (a.opens ms x.1 = true ∧ i < Instant.after x.1.time a.ttl ∨ a.isOpen i = true) := by
  have hlater : ∀ b : Option Int, (later a.expiry b).any (i < ·) = (a.expiry.any (i < ·) || b.any (i < ·)) := by
    intro b
    cases a.expiry <;> cases b <;> grind [later]
  simp only [onEvent, isOpen, closes, opens]
  split
  next hclosed => simp [hclosed]
  next hclosed =>
    split
    next hopens => simp [hclosed, hopens, hlater, or_comm]
    next hopens => simp [hclosed, hopens]

theorem isOpen_after : (a.after ms H).isOpen i = true ↔
    a.Covers ms H i ∨ a.isOpen i = true ∧ ∀ x ∈ H, a.closes ms x.1 = false := by
  induction H generalizing a with
  | nil => simp [after, covers_nil]
  | cons x H ih =>
      -- an event changes nothing of a window but when it ends
      have hcovers : (a.onEvent x.1.time (ms.judge x.1)).Covers ms H i ↔ a.Covers ms H i := Iff.rfl
      have hcloses : ∀ ev, (a.onEvent x.1.time (ms.judge x.1)).closes ms ev = a.closes ms ev := fun _ => rfl
      rw [after, List.foldl_cons, ← after, ih, hcovers, isOpen_onEvent, covers_cons]
      simp only [hcloses, List.forall_mem_cons]
      grind

end Activation

namespace Activations

variable {as : Activations} {ms : Matchers} {H : History} {i : Int}

theorem after_eq_map (as : Activations) (ms : Matchers) (H : History) : as.after ms H = as.map (·.after ms H) := by
  induction H generalizing as with
  | nil => simp [after, Activation.after]
  | cons x H ih =>
      rw [after, List.foldl_cons, ← after, ih, onEvent, List.map_map]
      rfl

theorem isActive_after (hne : as ≠ []) (hnew : ∀ a ∈ as, a.expiry = none) :
    (as.after ms H).isActive i = true ↔ ∃ a ∈ as, a.Covers ms H i := by
  have hshut : ∀ a ∈ as, a.isOpen i = false := fun a ha => by rw [Activation.isOpen, hnew a ha]; rfl
  rw [after_eq_map, isActive, Bool.or_eq_true, List.isEmpty_iff, List.map_eq_nil_iff, List.any_map, List.any_eq_true]
  constructor
  · rintro (h | ⟨a, ha, hopen⟩)
    · exact absurd h hne
    · refine ⟨a, ha, (Activation.isOpen_after.1 hopen).resolve_right fun h => ?_⟩
      rw [hshut a ha] at h
      exact Bool.noConfusion h.1
  · rintro ⟨a, ha, hcovers⟩
    exact .inr ⟨a, ha, Activation.isOpen_after.2 (.inl hcovers)⟩

/-- A metric with windows records exactly while some event holds one of them open, and it names the first
instant at which it no longer does. -/
theorem active_of_history {id : String} {defs : List Definition.Activation} (h : compile ms id defs = .ok as)
    (hne : defs ≠ []) (H : History) (now : Int) :
    ((as.after ms H).isActive now = true ↔ ∃ a ∈ as, a.Covers ms H now) ∧
    (((as.after ms H).endsAt now).isSome = true ↔ (as.after ms H).isActive now = true) ∧
    ∀ d, (as.after ms H).endsAt now = some d →
      IsLeast {t | now < t ∧ (as.after ms H).isActive t = false} d := by
  have hwindows : as ≠ [] := by
    have hlength := (Check.mapM_eq_ok.1 h).length_eq
    rw [← List.length_pos_iff] at hne ⊢
    omega
  have hafter : as.after ms H ≠ [] := by
    rw [after_eq_map]
    simpa using hwindows
  exact ⟨isActive_after hwindows (compile_expiry h), isSome_endsAt hafter, fun d => isLeast_endsAt hafter⟩

/-- A start holds for nine and a visit for two; the visit at 3 outlasts the stop at 4, which ends only what
the start held. -/
theorem active_of_history_visit :
    let defs : List Definition.Activation := [⟨"start", ⟨9⟩, some "stop"⟩, ⟨"visit", ⟨2⟩, none⟩]
    let H : History := [({ atom := 1, time := 0 }, false), ({ atom := 2, time := 3 }, false),
      ({ atom := 3, time := 4 }, false)]
    ∃ ms as, Matchers.compile [⟨"start", .simple 1 []⟩, ⟨"visit", .simple 2 []⟩, ⟨"stop", .simple 3 []⟩] = .ok ms ∧
      compile ms "gated" defs = .ok as ∧ defs ≠ [] ∧
      (∃ a ∈ as, a.Covers ms H 4) ∧ (¬ ∃ a ∈ as, a.Covers ms H 5) ∧
      IsLeast {t | 4 < t ∧ (as.after ms H).isActive t = false} 5 := by
  intro defs H
  obtain ⟨ms, as, hms, has, hopen, hclosed, hends⟩ : ∃ ms as,
      Matchers.compile [⟨"start", .simple 1 []⟩, ⟨"visit", .simple 2 []⟩, ⟨"stop", .simple 3 []⟩] = .ok ms ∧
      compile ms "gated" defs = .ok as ∧ (as.after ms H).isActive 4 = true ∧ (as.after ms H).isActive 5 = false ∧
      (as.after ms H).endsAt 4 = some 5 :=
    ⟨_, _, rfl, rfl, by decide +kernel, by decide +kernel, by decide +kernel⟩
  have hne : defs ≠ [] := List.cons_ne_nil _ _
  obtain ⟨hheld, -, hleast⟩ := active_of_history has hne H 4
  have hlater := (active_of_history has hne H 5).1
  exact ⟨ms, as, hms, has, hne, hheld.1 hopen, mt hlater.2 (by simp [hclosed]), hleast 5 hends⟩

end Activations

/-- A history as it stood at an instant: all events before it had come, and of those at it some. -/
structure History.Stands (H : History) (i : Int) (before rest : History) : Prop where
  eq : H = before ++ rest
  before : ∀ x ∈ before, x.1.time ≤ i
  rest : ∀ x ∈ rest, i ≤ x.1.time

theorem History.Stands.append {H before rest more : History} {i : Int} (h : H.Stands i before rest)
    (hmore : ∀ x ∈ more, i ≤ x.1.time) : History.Stands (H ++ more) i before (rest ++ more) where
  eq := by rw [h.eq, List.append_assoc]
  before := h.before
  rest x hx := (List.mem_append.1 hx).elim (h.rest x) (hmore x)

namespace Metric

variable {m : Metric} {ms : Matchers} {H more earlier later : History} {i t : Int}

def Covered (m : Metric) (ms : Matchers) (H : History) (i : Int) : Prop := ∃ a ∈ m.windows, a.Covers ms H i

def CoveredAt (m : Metric) (ms : Matchers) (H : History) (i : Int) : Prop :=
  ∃ before rest, H.Stands i before rest ∧ m.Covered ms before i

/-- An event at an instant is the one by which the windows of the metric hold it. -/
def ReopenedAt (m : Metric) (ms : Matchers) (H : History) (i : Int) : Prop :=
  ∃ before x rest, H = before ++ x :: rest ∧ x.1.time = i ∧ ¬ m.Covered ms before i ∧ m.Covered ms (before ++ [x]) i

theorem Covered.lt_last (h : m.Covered ms H i) : i < last := by
  obtain ⟨a, -, hcovers⟩ := h
  exact hcovers.lt_last

theorem CoveredAt.lt_last (h : m.CoveredAt ms H i) : i < last := by
  obtain ⟨before, rest, -, hcovered⟩ := h
  exact hcovered.lt_last

theorem CoveredAt.append (h : m.CoveredAt ms H i) (hmore : ∀ x ∈ more, i ≤ x.1.time) :
    m.CoveredAt ms (H ++ more) i := by
  obtain ⟨before, rest, hstands, hcovered⟩ := h
  exact ⟨before, rest ++ more, hstands.append hmore, hcovered⟩

theorem ReopenedAt.append (h : m.ReopenedAt ms H i) (more : History) : m.ReopenedAt ms (H ++ more) i := by
  obtain ⟨before, x, rest, rfl, h⟩ := h
  exact ⟨before, x, rest ++ more, by simp, h⟩

theorem CoveredAt.opened (h : m.CoveredAt ms (earlier ++ later) i) (hearlier : ∀ x ∈ earlier, x.1.time ≤ t)
    (hidle : ¬ m.Covered ms earlier t) (hlt : t < i) :
    ∃ x ∈ later, x.1.time ≤ i ∧ ∃ a ∈ m.windows, a.opens ms x.1 = true := by
  obtain ⟨before, rest, hstands, a, ha, hcovers⟩ := h
  rcases List.append_eq_append_iff.1 hstands.eq with ⟨more, rfl, rfl⟩ | ⟨more, rfl, rfl⟩
  · rcases hcovers.of_append with ⟨x, hx, hopens⟩ | hcovers
    · exact ⟨x, List.mem_append_left _ hx, hstands.before x (List.mem_append_right _ hx), a, ha, hopens⟩
    · exact absurd ⟨a, ha, hcovers.anti (Int.le_of_lt hlt)⟩ hidle
  · -- what came up to `t` came before `i`
    cases more with
    | nil =>
        rw [List.append_nil] at hidle
        exact absurd ⟨a, ha, hcovers.anti (Int.le_of_lt hlt)⟩ hidle
    | cons x more =>
        have hlate := hstands.rest x (by simp)
        have hearly := hearlier x (by simp)
        omega

end Metric

end EventMetrics
