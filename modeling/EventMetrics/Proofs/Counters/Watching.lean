import EventMetrics.Proofs.Counters
import EventMetrics.Proofs.Counters.Exposition
import Mathlib

namespace EventMetrics

open Exposition

inductive Counter
  | ingested
  | rejected
  | ticks
  | emitted (metric : String) (kind : Record.Kind)
  | dropped (metric : String) (reason : DropReason)
  | lost (metric : String)
  | writes
  | writesFailed
  | retries
  | unwritable
  deriving DecidableEq, Repr

namespace Counter

def family : Counter → String
  | ingested => "tally_events_ingested_total"
  | rejected => "tally_events_rejected_total"
  | ticks => "tally_ticks_total"
  | emitted .. => "tally_records_emitted_total"
  | dropped .. => "tally_samples_dropped_total"
  | lost _ => "tally_flush_dropped_total"
  | writes => "tally_sink_writes_total"
  | writesFailed => "tally_sink_write_failed_total"
  | retries => "tally_sink_retries_total"
  | unwritable => "tally_serialize_failed_total"

def labels : Counter → List (String × String)
  | emitted metric kind => [("metric", metric), ("kind", kind.name)]
  | dropped metric reason => [("metric", metric), ("reason", reason.name)]
  | lost metric => [("metric", metric)]
  | _ => []

def metric? : Counter → Option String
  | emitted metric _ | dropped metric _ | lost metric => some metric
  | _ => none

def series (x : Counter) : String := x.family ++ renderLabels x.labels

def kinds : List Record.Kind := [.alert, .bucket, .event, .skipped]

/-- The counters of some metrics and of the whole service, by family. -/
def byFamily (ids : List String) : List (String × List Counter) := [
  ("tally_events_ingested_total", [ingested]),
  ("tally_events_rejected_total", [rejected]),
  ("tally_ticks_total", [ticks]),
  ("tally_records_emitted_total", ids.flatMap fun id => kinds.map (emitted id)),
  ("tally_samples_dropped_total", ids.flatMap fun id => DropReason.all.map (dropped id)),
  ("tally_flush_dropped_total", ids.flatMap fun id => [lost id]),
  ("tally_sink_writes_total", [writes]),
  ("tally_sink_write_failed_total", [writesFailed]),
  ("tally_sink_retries_total", [retries]),
  ("tally_serialize_failed_total", [unwritable])]

def all (ids : List String) : List Counter := (byFamily ids).flatMap Prod.snd

variable {ids : List String} {x y : Counter} {g : String × List Counter}

theorem nodup_families (ids : List String) : ((byFamily ids).map Prod.fst).Nodup := by
  change ((byFamily []).map Prod.fst).Nodup
  decide

theorem family_of_mem (hg : g ∈ byFamily ids) (hx : x ∈ g.2) : x.family = g.1 := by
  simp only [byFamily, List.mem_cons, List.not_mem_nil, or_false] at hg
  rcases hg with rfl | rfl | rfl | rfl | rfl | rfl | rfl | rfl | rfl | rfl
  case inr.inr.inr.inl | inr.inr.inr.inr.inl =>
    obtain ⟨id, -, hx⟩ := List.mem_flatMap.1 hx
    obtain ⟨k, -, rfl⟩ := List.mem_map.1 hx
    rfl
  case inr.inr.inr.inr.inr.inl =>
    obtain ⟨id, -, hx⟩ := List.mem_flatMap.1 hx
    obtain rfl := List.mem_singleton.1 hx
    rfl
  all_goals
    obtain rfl := List.mem_singleton.1 hx
    rfl

theorem isName_of_mem (hg : g ∈ byFamily ids) : isName g.1.toList := by
  have hnames : ∀ name ∈ (byFamily ids).map Prod.fst, isName name.toList := by
    change ∀ name ∈ (byFamily []).map Prod.fst, isName name.toList
    decide
  exact hnames g.1 (List.mem_map_of_mem hg)

theorem mem_all : x ∈ all ids ↔ ∀ id ∈ x.metric?, id ∈ ids := by
  cases x with
  | emitted metric kind => cases kind <;> simp [all, byFamily, metric?, kinds]
  | dropped metric reason => cases reason <;> simp [all, byFamily, metric?, DropReason.all]
  | _ => simp [all, byFamily, metric?]

theorem nodup_all (h : ids.Nodup) : (all ids).Nodup := by
  have hpairs : ∀ {β : Type} (f : String → β → Counter) (bs : List β),
      (∀ i j a b, f i a = f j b → i = j ∧ a = b) → bs.Nodup → (ids.flatMap fun id => bs.map (f id)).Nodup := by
    intro β f bs hf hbs
    refine List.nodup_flatMap.2 ⟨fun i _ => hbs.map fun a b hab => (hf i i a b hab).2, h.imp fun hij x hi hj => ?_⟩
    obtain ⟨a, -, rfl⟩ := List.mem_map.1 hi
    obtain ⟨b, -, hb⟩ := List.mem_map.1 hj
    exact hij (hf _ _ b a hb).1.symm
  have hemitted : (ids.flatMap fun id => kinds.map (emitted id)).Nodup := hpairs emitted kinds (by grind) (by decide)
  have hdropped : (ids.flatMap fun id => DropReason.all.map (dropped id)).Nodup :=
    hpairs dropped DropReason.all (by grind) (by decide)
  have hlost : (ids.flatMap fun id => [lost id]).Nodup :=
    hpairs (fun id (_ : Unit) => lost id) [()] (by grind) (by decide)
  refine List.nodup_flatMap.2 ⟨?_, ?_⟩
  · simp [byFamily, hemitted, hdropped, hlost]
  · refine (List.Pairwise.and_mem.1 (List.pairwise_map.1 (nodup_families ids))).imp ?_
    rintro g g' ⟨hg, hg', hne⟩ x hx hx'
    exact hne ((family_of_mem hg hx).symm.trans (family_of_mem hg' hx'))

theorem isName_family (x : Counter) : isName x.family.toList := by
  cases x <;> rw [family] <;> decide

theorem isName_labels (x : Counter) : ∀ a ∈ x.labels, isName a.1.toList := by
  have hnames : ∀ name ∈ x.labels.map Prod.fst, isName name.toList := by
    cases x <;> simp only [labels, List.map_cons, List.map_nil] <;> decide
  exact fun a ha => hnames a.1 (List.mem_map_of_mem ha)

theorem eq_of_labels (hfamily : x.family = y.family) (hlabels : x.labels = y.labels) : x = y := by
  have hkind : ∀ k k' : Record.Kind, k.name = k'.name → k = k' := by
    intro k k' h
    cases k <;> cases k' <;> first | rfl | exact absurd h (by decide)
  have hreason : ∀ r r' : DropReason, r.name = r'.name → r = r' := by
    intro r r' h
    cases r <;> cases r' <;> first | rfl | exact absurd h (by decide)
  cases x <;> cases y <;> simp_all [family, labels]
  · exact hkind _ _ hlabels.2
  · exact hreason _ _ hlabels.2

theorem eq_of_series (h : x.series = y.series) : x = y := by
  obtain ⟨hfamily, hlabels⟩ := series_injective x.isName_family x.isName_labels y.isName_family y.isName_labels h
  exact eq_of_labels hfamily hlabels

end Counter

/-- What a running service counts. -/
inductive Occurrence
  | ingested
  | rejected
  | ticked
  | emitted (r : Record)
  | dropped (metric : String) (reason : DropReason) (n : UInt64)
  | lost (metric : String)
  | written
  | unwritten
  | retried
  | unwritable

structure MetricCounters.Complete (m : MetricCounters) : Prop where
  kinds : m.emitted.labels = Counter.kinds
  reasons : m.dropped.labels = DropReason.all

namespace Counters

def value (c : Counters) : Counter → UInt64
  | .ingested => c.ingested
  | .rejected => c.rejected
  | .ticks => c.ticks
  | .emitted metric kind => c.emitted metric kind
  | .dropped metric reason => ((c.metrics.get? metric).map (·.dropped.get reason)).getD 0
  | .lost metric => ((c.metrics.get? metric).map (·.lost)).getD 0
  | .writes => c.writes
  | .writesFailed => c.writesFailed
  | .retries => c.retries
  | .unwritable => c.unwritable

def ids (c : Counters) : List String := c.metrics.entries.map Prod.fst

def note (c : Counters) : Occurrence → Counters
  | .ingested => c.countIngested
  | .rejected => c.countRejected
  | .ticked => c.countTick
  | .emitted r => c.countEmitted r
  | .dropped metric reason n => c.countDropped metric reason n
  | .lost metric => c.countLost metric
  | .written => c.countWrite
  | .unwritten => c.countWriteFailed
  | .retried => c.countRetry
  | .unwritable => c.countUnwritable

/-- Some metrics, and no others, are counted, each of them in full. -/
structure Watches (c : Counters) (ids : List String) : Prop where
  metrics : ∀ id, (c.metrics.get? id).isSome ↔ id ∈ ids
  complete : ∀ id m, c.metrics.get? id = some m → m.Complete

variable {c : Counters} {ids : List String} {f : MetricCounters → MetricCounters}

theorem Watches.update (h : c.Watches ids) (metric : String) (hf : ∀ m : MetricCounters, m.Complete → (f m).Complete) :
    (c.update metric f).Watches ids := by
  refine ⟨fun id => ?_, fun id m hm => ?_⟩
  · rw [get?_update, Option.isSome_map, h.metrics]
  · rw [get?_update] at hm
    obtain ⟨n, hn, rfl⟩ := Option.map_eq_some_iff.1 hm
    split
    · exact hf n (h.complete id n hn)
    · exact h.complete id n hn

theorem Watches.note (h : c.Watches ids) (o : Occurrence) : (c.note o).Watches ids := by
  cases o with
  | emitted r => exact h.update r.metric fun _ hm => ⟨(LabelCounts.labels_add ..).trans hm.kinds, hm.reasons⟩
  | dropped metric reason n =>
      exact h.update metric fun _ hm => ⟨hm.kinds, (LabelCounts.labels_add ..).trans hm.reasons⟩
  | lost metric => exact h.update metric fun _ hm => ⟨hm.kinds, hm.reasons⟩
  | _ => exact ⟨h.metrics, h.complete⟩

theorem watches_ofMetrics (ids : List String) : (ofMetrics ids).Watches ids := by
  refine ⟨fun id => ?_, fun id m hm => ?_⟩
  · rw [get?_ofMetrics]
    split <;> simp [*]
  · rw [get?_ofMetrics] at hm
    split at hm
    · cases hm
      exact ⟨by decide, by decide⟩
    · cases hm

theorem watches_foldl (ids : List String) (os : List Occurrence) :
    (os.foldl Counters.note (ofMetrics ids)).Watches ids := by
  have hrun : ∀ c : Counters, c.Watches ids → (os.foldl Counters.note c).Watches ids := by
    induction os with
    | nil => exact fun c h => h
    | cons o os ih => exact fun c h => ih (c.note o) (h.note o)
  exact hrun _ (watches_ofMetrics ids)

theorem nodup_ids (c : Counters) : c.ids.Nodup := c.metrics.nodup_texts

theorem mem_ids {id : String} : id ∈ c.ids ↔ (c.metrics.get? id).isSome :=
  List.mem_toFinset.symm.trans (Table.text_mem_keys.trans Option.ne_none_iff_isSome)

def sample (c : Counters) (x : Counter) : Sample := ⟨x.labels, c.value x⟩

theorem perMetric_eq {name : String} {samples : MetricCounters → List (List (String × String) × UInt64)}
    {group : String → List Counter}
    (h : ∀ e ∈ c.metrics.entries,
      (samples e.2).map (fun s => Sample.mk (("metric", e.1) :: s.1) s.2) = (group e.1).map c.sample) :
    c.perMetric name samples = ⟨name, (c.ids.flatMap group).map c.sample⟩ := by
  rw [perMetric, ids, List.map_flatMap, List.flatMap_map]
  exact congrArg (Family.mk name) (List.flatMap_congr h)

theorem Watches.families (h : c.Watches ids) :
    c.families = (Counter.byFamily c.ids).map fun g => ⟨g.1, g.2.map c.sample⟩ := by
  have hget : ∀ e ∈ c.metrics.entries, c.metrics.get? e.1 = some e.2 := fun e he => Table.get?_of_mem he
  have hemitted : (c.perMetric "tally_records_emitted_total" fun m =>
      m.emitted.counts.map fun e => ([("kind", e.1.name)], e.2)) =
      ⟨"tally_records_emitted_total", (c.ids.flatMap fun id => Counter.kinds.map (.emitted id)).map c.sample⟩ := by
    refine perMetric_eq fun e he => ?_
    have hkinds := (h.complete e.1 e.2 (hget e he)).kinds
    rw [LabelCounts.counts_eq (hkinds ▸ by decide), hkinds, List.map_map, List.map_map, List.map_map]
    refine List.map_congr_left fun k _ => ?_
    simp [sample, value, emitted, hget e he, Counter.labels]
  have hdropped : (c.perMetric "tally_samples_dropped_total" fun m =>
      m.dropped.counts.map fun e => ([("reason", e.1.name)], e.2)) =
      ⟨"tally_samples_dropped_total", (c.ids.flatMap fun id => DropReason.all.map (.dropped id)).map c.sample⟩ := by
    refine perMetric_eq fun e he => ?_
    have hreasons := (h.complete e.1 e.2 (hget e he)).reasons
    rw [LabelCounts.counts_eq (hreasons ▸ by decide), hreasons, List.map_map, List.map_map, List.map_map]
    refine List.map_congr_left fun k _ => ?_
    simp [sample, value, hget e he, Counter.labels]
  have hlost : (c.perMetric "tally_flush_dropped_total" fun m => [([], m.lost)]) =
      ⟨"tally_flush_dropped_total", (c.ids.flatMap fun id => [.lost id]).map c.sample⟩ := by
    refine perMetric_eq fun e he => ?_
    simp [sample, value, hget e he, Counter.labels]
  rw [Counters.families, hemitted, hdropped, hlost]
  rfl

theorem Watches.wellNamed (h : c.Watches ids) : ∀ f ∈ c.families, f.WellNamed := by
  rw [h.families]
  intro f hf
  obtain ⟨g, hg, rfl⟩ := List.mem_map.1 hf
  refine ⟨Counter.isName_of_mem hg, fun s hs => ?_⟩
  obtain ⟨x, -, rfl⟩ := List.mem_map.1 hs
  exact x.isName_labels

theorem Watches.samples (h : c.Watches ids) : (c.families.flatMap Family.report).filterMap Line.sample? =
    (Counter.all c.ids).map fun x => (x.family, x.labels, (c.value x).toNat) := by
  rw [samples_report, h.families, List.flatMap_map, Counter.all, List.map_flatMap]
  refine List.flatMap_congr fun g hg => ?_
  rw [List.map_map]
  refine List.map_congr_left fun x hx => ?_
  rw [Counter.family_of_mem hg hx]
  rfl

theorem Watches.declarations (h : c.Watches ids) (family : String) :
    family ∈ (c.families.flatMap Family.report).filterMap Line.declaration? ↔
      ∃ x ∈ Counter.all c.ids, x.family = family := by
  rw [declarations_report, h.families]
  simp only [List.mem_map, List.mem_filter, Counter.all, List.mem_flatMap]
  constructor
  · rintro ⟨_, ⟨⟨g, hg, rfl⟩, hne⟩, rfl⟩
    obtain ⟨x, hx⟩ := List.exists_mem_of_ne_nil g.2 (by simpa using hne)
    exact ⟨x, ⟨g, hg, hx⟩, Counter.family_of_mem hg hx⟩
  · rintro ⟨x, ⟨g, hg, hx⟩, rfl⟩
    refine ⟨_, ⟨⟨g, hg, rfl⟩, ?_⟩, (Counter.family_of_mem hg hx).symm⟩
    simpa using List.ne_nil_of_mem hx

theorem Watches.nodup_declarations (h : c.Watches ids) :
    ((c.families.flatMap Family.report).filterMap Line.declaration?).Nodup := by
  rw [declarations_report]
  refine (List.filter_sublist.map Family.name).nodup ?_
  rw [h.families, List.map_map]
  exact Counter.nodup_families c.ids

theorem line_sample (c : Counters) (x : Counter) :
    (c.sample x).line x.family = x.series ++ " " ++ toString (c.value x) := by
  rw [Sample.line, Counter.series, sample]

theorem Watches.line_mem (h : c.Watches ids) {x : Counter} (hx : x ∈ Counter.all c.ids) :
    x.series ++ " " ++ toString (c.value x) ∈ c.families.flatMap Family.lines := by
  obtain ⟨g, hg, hx⟩ := List.mem_flatMap.1 hx
  rw [h.families, List.flatMap_map]
  refine List.mem_flatMap.2 ⟨g, hg, ?_⟩
  have hmem : c.sample x ∈ g.2.map c.sample := List.mem_map_of_mem hx
  rw [← line_sample, Family.lines, if_neg (by simpa using List.ne_nil_of_mem hmem), Counter.family_of_mem hg hx]
  exact List.mem_cons_of_mem _ (List.mem_map_of_mem hmem)

theorem readLine?_series (c : Counters) (x : Counter) : readLine? (x.series ++ " " ++ toString (c.value x)) =
    some (.sample x.family x.labels (c.value x).toNat) := by
  rw [← line_sample]
  exact readLine?_line x.isName_family x.isName_labels

/-- Line by line, the text of the counters declares each family once, before its samples, and shows each
counter once, with the labels and the value that it was written for. No two counters are written alike. -/
theorem Watches.exposition_reads_back {ids : List String} (h : c.Watches ids) :
    ∃ (lines : List String) (report : List Line) (counters : List Counter),
      textLines c.exposition = lines ++ [""] ∧ lines.map readLine? = report.map some ∧
      counters.Nodup ∧ (∀ x, x ∈ counters ↔ ∀ id ∈ x.metric?, id ∈ ids) ∧
      report.filterMap Line.sample? = counters.map (fun x => (x.family, x.labels, (c.value x).toNat)) ∧
      (∀ x ∈ counters, x.series ++ " " ++ toString (c.value x) ∈ lines ∧
        readLine? (x.series ++ " " ++ toString (c.value x)) = some (.sample x.family x.labels (c.value x).toNat)) ∧
      (report.filterMap Line.declaration?).Nodup ∧
      (∀ family, family ∈ report.filterMap Line.declaration? ↔ ∃ x ∈ counters, x.family = family) ∧
      (∀ before after family labels n, report = before ++ .sample family labels n :: after →
        .declared family "counter" ∈ before) ∧
      ∀ x y : Counter, x.series = y.series → x = y := by
  refine ⟨c.families.flatMap Family.lines, c.families.flatMap Family.report, Counter.all c.ids,
    textLines_render h.wellNamed, map_readLine? h.wellNamed, Counter.nodup_all c.nodup_ids, fun x => ?_, h.samples,
    fun x hx => ⟨h.line_mem hx, c.readLine?_series x⟩, h.nodup_declarations,
    h.declarations, fun _ _ _ _ _ => declared_before, fun _ _ => Counter.eq_of_series⟩
  rw [Counter.mem_all]
  exact forall₂_congr fun id _ => mem_ids.trans (h.metrics id)

/-- A metric whose name would end the line of another is read as a metric of its own. -/
theorem exposition_reads_back_forged :
    let forged := "rooms\",reason=\"missing_field\"\x7d 9\n"
    let ids := ["rooms", forged]
    let c := [.dropped "rooms" .missingField 7, .ticked, .dropped forged .missingField 2].foldl note (ofMetrics ids)
    c.Watches ids ∧ ∃ line ∈ textLines c.exposition, readLine? line =
      some (.sample "tally_samples_dropped_total" [("metric", forged), ("reason", "missing_field")] 2) := by
  intro forged ids c
  have hwatches : c.Watches ids := watches_foldl ids _
  obtain ⟨lines, report, counters, hlines, -, -, hmem, -, hread, -⟩ := Watches.exposition_reads_back hwatches
  have hcounter : Counter.dropped forged .missingField ∈ counters := by
    refine (hmem _).2 ?_
    rintro id hid
    obtain rfl := Option.some.inj hid
    exact List.mem_cons_of_mem _ List.mem_cons_self
  have hvalue : c.value (.dropped forged .missingField) = 2 := by decide
  obtain ⟨hline, hsample⟩ := hread _ hcounter
  rw [hvalue] at hline hsample
  refine ⟨hwatches, _, ?_, hsample⟩
  rw [hlines]
  exact List.mem_append_left _ hline

end Counters

end EventMetrics
