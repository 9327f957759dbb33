import EventMetrics.Proofs.Engine.Accepting
import EventMetrics.Proofs.Keys
import Mathlib.Data.List.Perm.Subperm

namespace EventMetrics

open Definition (Referrer Link)

namespace DimensionKey

/-- Two events carry the same values in paired fields. -/
def Alike (bound : List (String × String)) (e e' : Event) : Prop := ∀ b ∈ bound, e.field? b.1 = e'.field? b.2

theorem linked?_eq_extract? {bound : List (String × String)} {e e' : Event} (h : Alike bound e e') :
    linked? e bound = extract? e' (bound.map (·.2)) := by
  rw [extract?, linked?, linked?, List.map_map, List.mapM_map]
  refine congrArg (Option.map mk) ?_
  induction bound with
  | nil => rfl
  | cons b bound ih =>
      obtain ⟨hb, hrest⟩ := List.forall_mem_cons.1 h
      rw [List.mapM_cons, List.mapM_cons, ih hrest, hb]
      rfl

end DimensionKey

namespace MetricPlan

open Check DimensionKey

variable {referrer : Referrer} {links links' : List Link} {dims : List String} {bound : List (String × String)}

theorem bindLinks_eq_ok (hne : links ≠ []) : bindLinks referrer links dims = .ok bound ↔
    dims ≠ [] ∧ links.length = dims.length ∧
    List.Forall₂ (fun d b => ∃ l, links.find? (·.condition = d) = some l ∧ b = (l.what, d)) dims bound := by
  rw [bindLinks]
  by_cases hdims : dims = []
  · simp [hne, hdims]
  by_cases hlength : links.length = dims.length
  · simp only [List.isEmpty_iff, hne, hdims, hlength, if_false, ne_eq, not_true_eq_false, mapM_eq_ok,
      not_false_eq_true, true_and]
    refine Iff.of_eq (congrArg (List.Forall₂ · dims bound) ?_)
    funext d b
    cases links.find? (·.condition = d) <;> simp [eq_comm]
  · simp [hne, hdims, hlength]

theorem bindLinks_dimensions (hne : links ≠ []) (h : bindLinks referrer links dims = .ok bound) :
    bound.map (·.2) = dims := by
  obtain ⟨-, -, hall⟩ := (bindLinks_eq_ok hne).1 h
  clear h
  induction hall with
  | nil => rfl
  | cons hb _ ih =>
      obtain ⟨l, -, rfl⟩ := hb
      rw [List.map_cons, ih]

theorem bindLinks_subset (hne : links ≠ []) (h : bindLinks referrer links dims = .ok bound) :
    ∀ b ∈ bound, ⟨b.1, b.2⟩ ∈ links := by
  intro b hb
  obtain ⟨-, -, hall⟩ := (bindLinks_eq_ok hne).1 h
  obtain ⟨d, -, l, hl, rfl⟩ := exists_of_mem_right hall hb
  obtain rfl : l.condition = d := by simpa using List.find?_some hl
  exact List.mem_of_find?_eq_some hl

theorem links_perm (hnodup : dims.Nodup) (hlength : links.length = dims.length)
    (hall : ∀ d ∈ dims, ∃ l ∈ links, l.condition = d) : (links.map (·.condition)).Perm dims := by
  have hsubset : dims ⊆ links.map (·.condition) := fun d hd => List.mem_map.2 (hall d hd)
  have hle : (links.map (·.condition)).length ≤ dims.length := by rw [List.length_map, hlength]
  exact ((List.subperm_of_subset hnodup hsubset).perm_of_length_le hle).symm

theorem bindLinks_of_perm (hdims : dims ≠ []) (hperm : (links.map (·.condition)).Perm dims) :
    ∃ bound, bindLinks referrer links dims = .ok bound :=
  (bindLinks_isOk referrer links dims).2 fun _ =>
    ⟨hdims, by simpa using hperm.length_eq, fun d hd => List.mem_map.1 (hperm.mem_iff.2 hd)⟩

theorem find?_perm {d : String} {l : Link} (hnames : (links.map (·.condition)).Nodup) (hperm : links'.Perm links)
    (h : links.find? (·.condition = d) = some l) : links'.find? (·.condition = d) = some l := by
  obtain rfl : l.condition = d := by simpa using List.find?_some h
  exact Table.find?_of_nodup ((hperm.map Link.condition).nodup_iff.2 hnames)
    (hperm.mem_iff.2 (List.mem_of_find?_eq_some h))

theorem bindLinks_perm (hne : links ≠ []) (hnodup : dims.Nodup) (hperm : links'.Perm links)
    (h : bindLinks referrer links dims = .ok bound) : bindLinks referrer links' dims = .ok bound := by
  obtain ⟨hdims, hlength, hall⟩ := (bindLinks_eq_ok hne).1 h
  have hnames := links_perm hnodup hlength ((bindLinks_isOk referrer links dims).1 ⟨bound, h⟩ hne).2.2
  have hne' : links' ≠ [] := fun hnil => hne (by simpa [hnil] using hperm.symm)
  refine (bindLinks_eq_ok hne').2 ⟨hdims, hperm.length_eq.trans hlength, hall.imp ?_⟩
  rintro d b ⟨l, hl, rfl⟩
  exact ⟨l, find?_perm (hnames.nodup_iff.2 hnodup) hperm hl, rfl⟩

variable {cs : Conditions} {c : Condition.Simple} {m : Metric} {i : Nat} {e e' : Event}

theorem isLinked_of_bindLinks (hne : links ≠ []) (h : bindLinks referrer links dims = .ok bound) :
    (Gate.mk i bound).isLinked = true := by
  have hdims := ((bindLinks_eq_ok hne).1 h).1
  rw [← bindLinks_dimensions hne h] at hdims
  simpa [Gate.isLinked] using hdims

theorem sampleSignal_linked (hgate : m.plan.gate = some ⟨i, bound⟩) (hlinked : (Gate.mk i bound).isLinked = true)
    (hc : cs.nodes[i]? = some (.simple c)) : m.sampleSignal cs e =
      ((linked? e bound).map c.signalAt).elim (.error .missingField) .ok := by
  rw [Metric.sampleSignal, hgate]
  simp only [hlinked, if_true]
  cases linked? e bound with
  | none => rfl
  | some link =>
      simp only [Conditions.query, hc]
      rfl

theorem onEvent_turn {hits : Hits} (hall : c.stopAll.any hits.get = false)
    (hturn : hits.get c.start ≠ hits.get c.stop) : c.onEvent e' hits =
      ((extract? e' c.dimensions).map (c.turn (hits.get c.start))).getD (c, .dropped .missingField) := by
  rw [Condition.Simple.onEvent, hall, if_neg (by decide)]
  cases hstart : hits.get c.start <;> cases hstop : hits.get c.stop
  case false.false | true.true => exact absurd (hstart.trans hstop.symm) hturn
  all_goals cases extract? e' c.dimensions <;> rfl

/-- Links are accepted just when each dimension is linked, by as many links as there are dimensions; if
no dimension is listed twice, when they are the links of the dimensions, one each, in any order. The
metric then reads, by its event, just the slice that the event with the paired values turns. -/
theorem bindLinks_covers (referrer : Referrer) (dims : List String) (hne : links ≠ []) :
    ((∃ bound, bindLinks referrer links dims = .ok bound) ↔
      dims ≠ [] ∧ links.length = dims.length ∧ ∀ d ∈ dims, ∃ l ∈ links, l.condition = d) ∧
    (dims ≠ [] → (links.map (·.condition)).Perm dims → ∃ bound, bindLinks referrer links dims = .ok bound) ∧
    (dims.Nodup → (∃ bound, bindLinks referrer links dims = .ok bound) →
      dims ≠ [] ∧ (links.map (·.condition)).Perm dims) ∧
    ∀ bound, bindLinks referrer links dims = .ok bound →
      bound.map (·.2) = dims ∧ (∀ b ∈ bound, ⟨b.1, b.2⟩ ∈ links) ∧
      (dims.Nodup → ∀ links', links'.Perm links → bindLinks referrer links' dims = .ok bound) ∧
      ∀ e e', Alike bound e e' → linked? e bound = extract? e' dims ∧
        ∀ (m : Metric) (cs : Conditions) (i : Nat) (c : Condition.Simple), m.plan.gate = some ⟨i, bound⟩ →
          cs.nodes[i]? = some (.simple c) → c.dimensions = dims →
          m.sampleSignal cs e = ((extract? e' dims).map c.signalAt).elim (.error .missingField) .ok ∧
          ∀ hits : Hits, c.stopAll.any hits.get = false → hits.get c.start ≠ hits.get c.stop →
            c.onEvent e' hits =
              ((linked? e bound).map (c.turn (hits.get c.start))).getD (c, .dropped .missingField) := by
  refine ⟨?_, bindLinks_of_perm, fun hnodup hok => ?_, fun bound hbound => ⟨?_, ?_, ?_, fun e e' halike => ?_⟩⟩
  · exact (bindLinks_isOk referrer links dims).trans (imp_iff_right hne)
  · obtain ⟨hdims, hlength, hall⟩ := (bindLinks_isOk referrer links dims).1 hok hne
    exact ⟨hdims, links_perm hnodup hlength hall⟩
  · exact bindLinks_dimensions hne hbound
  · exact bindLinks_subset hne hbound
  · exact fun hnodup links' hperm => bindLinks_perm hne hnodup hperm hbound
  · have hkey : linked? e bound = extract? e' dims := bindLinks_dimensions hne hbound ▸ linked?_eq_extract? halike
    refine ⟨hkey, fun m cs i c hgate hc hdims => ?_⟩
    refine ⟨?_, fun hits hall hturn => ?_⟩
    · rw [← hkey]
      exact sampleSignal_linked hgate (isLinked_of_bindLinks hne hbound) hc
    · rw [hkey, ← hdims]
      exact onEvent_turn hall hturn

/-- Two links to the dimensions of a condition, in the other order: visits read the slice of their room. -/
theorem bindLinks_covers_rooms :
    let links : List Link := [⟨"at_level", "level"⟩, ⟨"into", "room"⟩]
    let bound := [("into", "room"), ("at_level", "level")]
    let visit : Event := ⟨1, 5, .ofList [("into", .text "hall"), ("at_level", .int 2)]⟩
    let light : Event := ⟨2, 3, .ofList [("room", .text "hall"), ("level", .int 2)]⟩
    links ≠ [] ∧ ["room", "level"].Nodup ∧ bindLinks (.metric "visits") links ["room", "level"] = .ok bound ∧
      Alike bound visit light ∧ linked? visit bound = some ⟨[("room", .text "hall"), ("level", .int 2)]⟩ := by
  intro links bound visit light
  have hne : links ≠ [] := by decide
  have hbound : bindLinks (.metric "visits") links ["room", "level"] = .ok bound := rfl
  have halike : Alike bound visit light := List.forall_mem_cons.2 ⟨rfl, List.forall_mem_cons.2 ⟨rfl, by simp⟩⟩
  obtain ⟨-, -, -, hslice⟩ := bindLinks_covers (.metric "visits") ["room", "level"] hne
  exact ⟨hne, by decide, hbound, halike, ((hslice bound hbound).2.2.2 visit light halike).1.trans rfl⟩

/-- A dimension that is listed twice leaves room for a second link to another one. -/
theorem floor_linked_twice :
    let links : List Link := [⟨"room", "room"⟩, ⟨"floor", "floor"⟩, ⟨"level", "floor"⟩]
    let dims := ["room", "room", "floor"]
    bindLinks (.metric "visits") links dims = .ok [("room", "room"), ("room", "room"), ("floor", "floor")] ∧
      ¬ (links.map (·.condition)).Perm dims := ⟨rfl, by decide⟩

end MetricPlan

end EventMetrics
