import EventMetrics.Proofs.Counters.Reading
import Mathlib

namespace EventMetrics.Exposition

def textLines (s : String) : List String := (s.toList.splitOn '\n').map String.ofList

def Line.declaration? : Line → Option String
  | declared family _ => some family
  | sample .. => none

def Line.sample? : Line → Option (String × List (String × String) × Nat)
  | declared .. => none
  | sample family labels value => some (family, labels, value)

/-- What the lines of a family are to read as. -/
def Family.report (f : Family) : List Line :=
  if f.samples.isEmpty then []
  else .declared f.name "counter" :: f.samples.map fun s => .sample f.name s.labels s.value.toNat

structure Family.WellNamed (f : Family) : Prop where
  name : isName f.name.toList
  labels : ∀ s ∈ f.samples, ∀ a ∈ s.labels, isName a.1.toList

variable {families : List Family} {f : Family} {family name : String} {labels : List (String × String)} {v : Nat}
  {before after : List Line}

theorem Family.WellNamed.readLine? (h : f.WellNamed) : f.lines.map readLine? = f.report.map some := by
  rw [Family.lines, Family.report]
  split
  · rfl
  · rw [List.map_cons, List.map_cons, readLine?_typeLine h.name, List.map_map, List.map_map]
    refine congrArg (_ :: ·) (List.map_congr_left fun s hs => ?_)
    exact readLine?_line h.name (h.labels s hs)

theorem Family.WellNamed.notMem_newline (h : f.WellNamed) : ∀ line ∈ f.lines, '\n' ∉ line.toList := by
  intro line hline
  rw [Family.lines] at hline
  split at hline
  · cases hline
  · rcases List.mem_cons.1 hline with rfl | hline
    · rw [toList_typeLine]
      simpa [List.intercalate_cons_cons] using notMem_of_isName h.name (by decide)
    · obtain ⟨s, hs, rfl⟩ := List.mem_map.1 hline
      have hread := readSample?_line h.name (h.labels s hs)
      obtain ⟨r, hr, -⟩ := Option.bind_eq_some_iff.1 hread
      exact Reading.notMem_newline hr

theorem map_readLine? (h : ∀ f ∈ families, f.WellNamed) :
    (families.flatMap Family.lines).map readLine? = (families.flatMap Family.report).map some := by
  rw [List.map_flatMap, List.map_flatMap]
  exact List.flatMap_congr fun f hf => (h f hf).readLine?

theorem textLines_render (h : ∀ f ∈ families, f.WellNamed) :
    textLines (render families) = families.flatMap Family.lines ++ [""] := by
  have hends : ∀ ls : List (List Char), ls.flatMap (· ++ ['\n']) = ['\n'].intercalate (ls ++ [[]]) := by
    intro ls
    induction ls with
    | nil => rfl
    | cons l ls ih =>
        rw [List.flatMap_cons, List.cons_append,
          List.intercalate_cons_of_ne_nil (List.append_ne_nil_of_right_ne_nil ls (List.cons_ne_nil _ _)), ih]
  have hlist : (render families).toList =
      ['\n'].intercalate ((families.flatMap Family.lines).map String.toList ++ [[]]) := by
    rw [← hends, render, String.toList_join, List.flatMap_map, List.flatMap_map]
    exact List.flatMap_congr fun l _ => String.toList_append
  have hlines : ∀ l ∈ (families.flatMap Family.lines).map String.toList ++ [[]], '\n' ∉ l := by
    intro l hl
    rcases List.mem_append.1 hl with hl | hl
    · obtain ⟨line, hline, rfl⟩ := List.mem_map.1 hl
      obtain ⟨f, hf, hline⟩ := List.mem_flatMap.1 hline
      exact (h f hf).notMem_newline line hline
    · rw [List.mem_singleton.1 hl]
      exact List.not_mem_nil
  have hsome : (families.flatMap Family.lines).map String.toList ++ [[]] ≠ [] :=
    List.append_ne_nil_of_right_ne_nil _ (List.cons_ne_nil _ _)
  rw [textLines, hlist, List.splitOn_intercalate '\n' hlines hsome, List.map_append, List.map_map]
  refine congrArg (· ++ [""]) ?_
  exact (List.map_congr_left fun line _ => String.ofList_toList).trans (List.map_id' _)

theorem declared_before (h : families.flatMap Family.report = before ++ .sample family labels v :: after) :
    .declared family "counter" ∈ before := by
  induction families generalizing before with
  | nil => simp at h
  | cons f fs ih =>
      rw [List.flatMap_cons] at h
      rcases List.append_eq_append_iff.1 h with ⟨as, rfl, has⟩ | ⟨bs, hreport, hbs⟩
      · exact List.mem_append_right _ (ih has)
      · cases bs with
        | nil =>
            have hnone : Line.declared family "counter" ∈ [] := ih hbs.symm
            cases hnone
        | cons b bs =>
            obtain ⟨rfl, -⟩ := List.cons.inj hbs
            rw [Family.report] at hreport
            split at hreport
            · simp at hreport
            · cases before with
              | nil => cases (List.cons.inj hreport).1
              | cons d ds =>
                  obtain ⟨rfl, hsamples⟩ := List.cons.inj hreport
                  have hmem : Line.sample family labels v ∈
                      f.samples.map fun s => Line.sample f.name s.labels s.value.toNat :=
                    hsamples ▸ List.mem_append_right _ List.mem_cons_self
                  obtain ⟨s, -, hs⟩ := List.mem_map.1 hmem
                  cases hs
                  exact List.mem_cons_self

theorem declarations_report (families : List Family) : (families.flatMap Family.report).filterMap Line.declaration? =
    (families.filter fun f => !f.samples.isEmpty).map Family.name := by
  induction families with
  | nil => rfl
  | cons f fs ih =>
      rw [List.flatMap_cons, List.filterMap_append, ih, Family.report]
      cases hs : f.samples.isEmpty with
      | true => simp [hs]
      | false => simp [hs, Line.declaration?, List.filterMap_map, Function.comp_def]

theorem samples_report (families : List Family) : (families.flatMap Family.report).filterMap Line.sample? =
    families.flatMap fun f => f.samples.map fun s => (f.name, s.labels, s.value.toNat) := by
  rw [List.filterMap_flatMap]
  refine List.flatMap_congr fun f _ => ?_
  rw [Family.report]
  cases hs : f.samples with
  | nil => rfl
  | cons s ss =>
      rw [List.isEmpty_cons, if_neg Bool.false_ne_true, List.filterMap_cons_none rfl, List.filterMap_map]
      exact congrFun List.filterMap_eq_map' (s :: ss)

theorem series_injective {family' : String} {labels' : List (String × String)}
    (hf : isName family.toList) (hl : ∀ a ∈ labels, isName a.1.toList) (hf' : isName family'.toList)
    (hl' : ∀ a ∈ labels', isName a.1.toList) (h : family ++ renderLabels labels = family' ++ renderLabels labels') :
    family = family' ∧ labels = labels' := by
  have hline : Sample.line family ⟨labels, 0⟩ = Sample.line family' ⟨labels', 0⟩ := by
    rw [Sample.line, Sample.line, h]
  have hread := readLine?_line (s := ⟨labels, 0⟩) hf hl
  rw [hline, readLine?_line (s := ⟨labels', 0⟩) hf' hl'] at hread
  cases hread
  exact ⟨rfl, rfl⟩

end EventMetrics.Exposition
