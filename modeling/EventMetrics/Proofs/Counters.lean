import EventMetrics.Counters
import EventMetrics.Proofs.Keys

namespace EventMetrics

namespace LabelCounts

variable {ι : Type}

def labels (c : LabelCounts ι) : List ι := c.counts.map (·.1)

theorem total_cons (e : ι × UInt64) (l : List (ι × UInt64)) :
    total (⟨e :: l⟩ : LabelCounts ι) = e.2 + total ⟨l⟩ := by
  rw [total, List.map_cons, List.foldl_cons, UInt64.add_comm 0, List.foldl_assoc]
  rfl

variable [DecidableEq ι] {c : LabelCounts ι} {label : ι}

theorem labels_add (c : LabelCounts ι) (label : ι) (n : UInt64) : (c.add label n).labels = c.labels := by
  rw [labels, add, List.map_map]
  refine List.map_congr_left fun e _ => ?_
  rw [Function.comp_apply]
  split <;> rfl

theorem add_of_notMem (h : label ∉ c.labels) (n : UInt64) : c.add label n = c := by
  obtain ⟨l⟩ := c
  have hother : ∀ e ∈ l, (if e.1 = label then (e.1, e.2 + n) else e) = e := by
    refine fun e he => if_neg ?_
    rintro rfl
    exact h (List.mem_map_of_mem he)
  rw [add, List.map_congr_left hother, List.map_id']

theorem total_add (hn : c.labels.Nodup) (h : label ∈ c.labels) (n : UInt64) :
    (c.add label n).total = c.total + n := by
  obtain ⟨l⟩ := c
  induction l with
  | nil => cases h
  | cons e l ih =>
      obtain ⟨he, hl⟩ := List.nodup_cons.1 hn
      change total ⟨(if e.1 = label then (e.1, e.2 + n) else e) :: (add ⟨l⟩ label n).counts⟩ = _
      rw [total_cons, total_cons]
      by_cases hlabel : e.1 = label
      · subst hlabel
        rw [if_pos rfl, add_of_notMem (c := ⟨l⟩) he, UInt64.add_assoc, UInt64.add_comm n, ← UInt64.add_assoc]
      · have hmem : label ∈ (⟨l⟩ : LabelCounts ι).labels := (List.mem_cons.1 h).resolve_left (Ne.symm hlabel)
        rw [if_neg hlabel, UInt64.add_assoc, ← ih hl hmem]

theorem counts_eq (h : c.labels.Nodup) : c.counts = c.labels.map fun i => (i, c.get i) := by
  rw [labels, List.map_map]
  refine (List.map_id _).symm.trans (List.map_congr_left fun e he => ?_)
  rw [Function.comp_apply, get, Table.find?_of_nodup h he]
  rfl

end LabelCounts

/-- The counters of a metric that emitted some records, of which some found no room. -/
structure MetricCounters.Shows (m : MetricCounters) (emitted lost : Nat) : Prop where
  labels : m.emitted.labels = [.alert, .bucket, .event, .skipped]
  emitted : m.emitted.total = UInt64.ofNat emitted
  lost : m.lost = UInt64.ofNat lost

namespace Counters

variable {c : Counters} {id metric : String} {f : MetricCounters → MetricCounters} {emitted lost emitted' lost' : Nat}

def Shows (c : Counters) (id : String) (emitted lost : Nat) : Prop :=
  ∃ m, c.metrics.get? id = some m ∧ m.Shows emitted lost

theorem get?_update (c : Counters) (metric id : String) (f : MetricCounters → MetricCounters) :
    (c.update metric f).metrics.get? id = (c.metrics.get? id).map fun m => if id = metric then f m else m :=
  Table.lookup_map_key (fun id m => if id = metric then f m else m) id c.metrics.entries

theorem Shows.update (h : c.Shows id emitted lost)
    (hf : ∀ m : MetricCounters, m.Shows emitted lost → (f m).Shows emitted' lost') :
    (c.update id f).Shows id emitted' lost' := by
  obtain ⟨m, hm, hshows⟩ := h
  exact ⟨f m, by rw [get?_update, hm, Option.map_some, if_pos rfl], hf m hshows⟩

theorem Shows.update_other (h : c.Shows id emitted lost) (hne : id ≠ metric) :
    (c.update metric f).Shows id emitted lost := by
  obtain ⟨m, hm, hshows⟩ := h
  exact ⟨m, by rw [get?_update, hm, Option.map_some, if_neg hne], hshows⟩

theorem Shows.countEmitted (h : c.Shows id emitted lost) {r : Record} (hr : r.metric = id) :
    (c.countEmitted r).Shows id (emitted + 1) lost := by
  subst hr
  refine h.update fun m hm => ⟨(LabelCounts.labels_add ..).trans hm.labels, ?_, hm.lost⟩
  have hlabels : m.emitted.labels = [.alert, .bucket, .event, .skipped] := hm.labels
  have hnodup : m.emitted.labels.Nodup := hlabels ▸ by decide
  have hmem : r.kind ∈ m.emitted.labels := by rw [hlabels]; cases r.kind <;> decide
  rw [LabelCounts.total_add hnodup hmem, hm.emitted, UInt64.ofNat_add]
  rfl

theorem Shows.countLost (h : c.Shows id emitted lost) : (c.countLost id).Shows id emitted (lost + 1) :=
  h.update fun m hm => ⟨hm.labels, hm.emitted, by simp [hm.lost]⟩

theorem Shows.countDropped (h : c.Shows id emitted lost) (metric : String) (r : DropReason) (n : UInt64) :
    (c.countDropped metric r n).Shows id emitted lost := by
  by_cases hid : id = metric
  · subst hid
    exact h.update fun m hm => ⟨hm.labels, hm.emitted, hm.lost⟩
  · exact h.update_other hid

theorem get?_ofMetrics (ids : List String) (id : String) :
    (ofMetrics ids).metrics.get? id = if id ∈ ids then some {} else none := by
  have hlist : ∀ (ids : List String) (t : Table String MetricCounters),
      ((ids.map (·, ({} : MetricCounters))).foldl (fun t e => t.insert e.1 e.2) t).get? id =
        if id ∈ ids then some {} else t.get? id := by
    intro ids
    induction ids with
    | nil => exact fun t => rfl
    | cons i ids ih =>
        intro t
        rw [List.map_cons, List.foldl_cons, ih, Table.get?_insert]
        by_cases hi : id = i
        · subst hi
          rw [if_pos rfl, if_pos List.mem_cons_self, ite_self]
        · have hkey : ¬ Keyed.text id = Keyed.text i := hi
          simp only [if_neg hkey, List.mem_cons, hi, false_or]
  exact hlist ids .empty

theorem shows_ofMetrics {ids : List String} (h : id ∈ ids) : (ofMetrics ids).Shows id 0 0 :=
  ⟨{}, by rw [get?_ofMetrics, if_pos h], rfl, by decide, rfl⟩

end Counters

end EventMetrics
