import EventMetrics.Proofs.Alert.Feeding
import EventMetrics.Proofs.DimensionKey

namespace EventMetrics

theorem append_sep_inj_of_count {α : Type} [DecidableEq α] {c : α} {l l' r r' : List α}
    (hcount : l.count c = l'.count c) (h : l ++ c :: r = l' ++ c :: r') : l = l' ∧ r = r' := by
  induction l generalizing l' with
  | nil =>
      cases l' with
      | nil => exact ⟨rfl, (List.cons.inj h).2⟩
      | cons b l' =>
          obtain ⟨rfl, -⟩ := List.cons.inj h
          simp at hcount
  | cons a l ih =>
      cases l' with
      | nil =>
          obtain ⟨rfl, -⟩ := List.cons.inj h
          simp at hcount
      | cons b l' =>
          obtain ⟨rfl, htail⟩ := List.cons.inj h
          rw [List.count_cons, List.count_cons, Nat.add_right_cancel_iff] at hcount
          obtain ⟨rfl, hr⟩ := ih hcount htail
          exact ⟨rfl, hr⟩

theorem append_last_sep_inj {α : Type} {c : α} {l l' r r' : List α} (hr : c ∉ r) (hr' : c ∉ r')
    (h : l ++ c :: r = l' ++ c :: r') : l = l' ∧ r = r' := by
  have hreverse : r.reverse ++ c :: l.reverse = r'.reverse ++ c :: l'.reverse := by
    simpa using congrArg List.reverse h
  obtain ⟨hright, hleft⟩ := append_sep_inj (by simpa using hr) (by simpa using hr') hreverse
  exact ⟨List.reverse_injective hleft, List.reverse_injective hright⟩

namespace Alert

open Tracker

/-- The records of a tracker with this rule, of the buckets that it is fed with. -/
def Rule.records (r : Rule Float) (fs : List (Feeding Float)) : List Record.Alert :=
  (feedAll { rule := r } fs).2.map (·.toRecord r)

/-- The bytes that the id of a record is the digest of. -/
def digested (a : Record.Alert) : ByteArray := (idText a.alert a.metric a.dimension a.bucketNum).toUTF8

def subject (alert metric : String) (key : DimensionKey) : String :=
  alert ++ "|" ++ metric ++ "|" ++ key.canonical

def bars (s : String) : Nat := s.toList.count '|'

variable {alert alert' metric metric' : String} {key key' : DimensionKey} {num num' : Nat} {a a' : Record.Alert}
  {r r' : Rule Float} {fs fs' : List (Feeding Float)}

theorem toList_subject (alert metric : String) (key : DimensionKey) : (subject alert metric key).toList =
    alert.toList ++ '|' :: (metric.toList ++ '|' :: key.canonical.toList) := by
  simp [subject]

theorem toList_idText (alert metric : String) (key : DimensionKey) (num : Nat) :
    (idText alert metric key num).toList =
      (subject alert metric key).toList ++ '|' :: num.repr.toList ++ ['|'] := by
  simp [idText, toList_subject, String.join]

theorem bar_notMem_repr (n : Nat) : '|' ∉ n.repr.toList := by
  intro hmem
  have hdigit : '|'.isDigit = true :=
    Nat.isDigit_of_mem_toDigits (by decide) (by decide) (Nat.toList_repr ▸ hmem)
  exact absurd hdigit (by decide)

theorem idText_eq_iff : idText alert metric key num = idText alert' metric' key' num' ↔
    num = num' ∧ subject alert metric key = subject alert' metric' key' := by
  constructor
  · intro h
    have htext := congrArg String.toList h
    rw [toList_idText, toList_idText] at htext
    obtain ⟨hsubject, hnum⟩ :=
      append_last_sep_inj (bar_notMem_repr num) (bar_notMem_repr num') (List.append_cancel_right htext)
    exact ⟨Nat.repr_injective (String.toList_inj.1 hnum), String.toList_inj.1 hsubject⟩
  · rintro ⟨rfl, hsubject⟩
    rw [← String.toList_inj, toList_idText, toList_idText, hsubject]

theorem subject_inj (halert : bars alert = bars alert') (hmetric : bars metric = bars metric')
    (h : subject alert metric key = subject alert' metric' key') :
    alert = alert' ∧ metric = metric' ∧ key.canonical = key'.canonical := by
  have htext := congrArg String.toList h
  rw [toList_subject, toList_subject] at htext
  obtain ⟨hfirst, hrest⟩ := append_sep_inj_of_count halert htext
  obtain ⟨hsecond, hthird⟩ := append_sep_inj_of_count hmetric hrest
  exact ⟨String.toList_inj.1 hfirst, String.toList_inj.1 hsecond, String.toList_inj.1 hthird⟩

theorem of_mem_records (ha : a ∈ r.records fs) : a.alert = r.alert ∧ a.metric = r.metric ∧
    a.id = Digest.hex ((Digest.sha256 (digested a).toList).take 8) := by
  obtain ⟨f, -, rfl⟩ := List.mem_map.1 ha
  exact ⟨rfl, rfl, rfl⟩

/-- The id of a record is the digest of the same bytes as that of another one just when number and
subject are the same. That is to say: alert, metric, key and number are, provided that the names of the
two alerts hold as many bars, and those of the two metrics; names without bars do, and the same tracker's. -/
theorem digested_eq_iff (ha : a ∈ r.records fs) (ha' : a' ∈ r'.records fs') :
    a.id = Digest.hex ((Digest.sha256 (digested a).toList).take 8) ∧
    (digested a = digested a' ↔ a.bucketNum = a'.bucketNum ∧
      subject a.alert a.metric a.dimension = subject a'.alert a'.metric a'.dimension) ∧
    (bars r.alert = bars r'.alert → bars r.metric = bars r'.metric → (digested a = digested a' ↔
      a.alert = a'.alert ∧ a.metric = a'.metric ∧ a.dimension.canonical = a'.dimension.canonical ∧
        a.bucketNum = a'.bucketNum)) := by
  obtain ⟨halert, hmetric, hid⟩ := of_mem_records ha
  obtain ⟨halert', hmetric', -⟩ := of_mem_records ha'
  have hbytes : digested a = digested a' ↔ a.bucketNum = a'.bucketNum ∧
      subject a.alert a.metric a.dimension = subject a'.alert a'.metric a'.dimension :=
    String.toByteArray_inj.trans idText_eq_iff
  refine ⟨hid, hbytes, fun hbars hbars' => hbytes.trans ⟨?_, ?_⟩⟩
  · rintro ⟨hnum, hsubject⟩
    rw [← halert, ← halert'] at hbars
    rw [← hmetric, ← hmetric'] at hbars'
    obtain ⟨hname, hwatched, hkey⟩ := subject_inj hbars hbars' hsubject
    exact ⟨hname, hwatched, hkey, hnum⟩
  · rintro ⟨hname, hwatched, hkey, hnum⟩
    exact ⟨hnum, by rw [subject, subject, hname, hwatched, hkey]⟩

/-- Names may hold bars, if both hold as many. -/
theorem digested_eq_iff_shifts :
    let r : Rule Float := .ofDefinition { id := "early|shift", metric := "load", numBuckets := 1, threshold := 0 }
    let r' : Rule Float := .ofDefinition { id := "late|shift", metric := "load", numBuckets := 1, threshold := 0 }
    let fs : List (Feeding Float) := [⟨0, 10, [(.empty, 1)]⟩]
    ∃ a ∈ r.records fs, ∃ a' ∈ r'.records fs,
      bars r.alert = bars r'.alert ∧ bars r.metric = bars r'.metric ∧ digested a ≠ digested a' := by
  intro r r' fs
  obtain ⟨f, hf, -⟩ : ∃ f ∈ (feedAll { rule := r } fs).2, f.bucketNum = 0 := by decide +kernel
  obtain ⟨f', hf', -⟩ : ∃ f ∈ (feedAll { rule := r' } fs).2, f.bucketNum = 0 := by decide +kernel
  have ha : f.toRecord r ∈ r.records fs := List.mem_map_of_mem hf
  have ha' : f'.toRecord r' ∈ r'.records fs := List.mem_map_of_mem hf'
  have halert : bars r.alert = bars r'.alert := by decide
  refine ⟨_, ha, _, ha', halert, rfl, fun hsame => ?_⟩
  have hname : "early|shift" = "late|shift" := (((digested_eq_iff ha ha').2.2 halert rfl).1 hsame).1
  simp at hname

/-- Where the bar between two names stands cannot be told from the text. -/
theorem one_id_of_two_alerts :
    let r : Rule Float := .ofDefinition { id := "a", metric := "b|c", numBuckets := 1, threshold := 0 }
    let r' : Rule Float := .ofDefinition { id := "a|b", metric := "c", numBuckets := 1, threshold := 0 }
    let fs : List (Feeding Float) := [⟨0, 10, [(.empty, 1)]⟩]
    ∃ a ∈ r.records fs, ∃ a' ∈ r'.records fs, digested a = digested a' ∧ a.id = a'.id ∧
      ¬ (a.alert = a'.alert ∧ a.metric = a'.metric ∧ a.dimension.canonical = a'.dimension.canonical ∧
        a.bucketNum = a'.bucketNum) := by
  intro r r' fs
  obtain ⟨f, hf, hnum, hkey⟩ : ∃ f ∈ (feedAll { rule := r } fs).2, f.bucketNum = 0 ∧ f.key.canonical = "" := by
    decide +kernel
  obtain ⟨f', hf', hnum', hkey'⟩ : ∃ f ∈ (feedAll { rule := r' } fs).2, f.bucketNum = 0 ∧ f.key.canonical = "" := by
    decide +kernel
  have ha : f.toRecord r ∈ r.records fs := List.mem_map_of_mem hf
  have ha' : f'.toRecord r' ∈ r'.records fs := List.mem_map_of_mem hf'
  have hsame : digested (f.toRecord r) = digested (f'.toRecord r') := by
    refine String.toByteArray_inj.2 (idText_eq_iff.2 ⟨hnum.trans hnum'.symm, ?_⟩)
    show subject "a" "b|c" f.key = subject "a|b" "c" f'.key
    rw [subject, subject, hkey, hkey']
    decide
  refine ⟨_, ha, _, ha', hsame, ?_, fun h => ?_⟩
  · rw [(of_mem_records ha).2.2, (of_mem_records ha').2.2, hsame]
  · have hname : "a" = "a|b" := h.1
    simp at hname

end Alert

end EventMetrics
