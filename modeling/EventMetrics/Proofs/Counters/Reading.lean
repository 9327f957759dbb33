import EventMetrics.Counters.Exposition
import EventMetrics.Proofs.Span
import Mathlib

namespace EventMetrics.Exposition

open Text

/-- A line as whoever reads it understands it. -/
inductive Line
  | declared (family kind : String)
  | sample (family : String) (labels : List (String × String)) (value : Nat)
  deriving DecidableEq, Repr

def isNameStart (c : Char) : Bool := c.isAlpha || c == '_'

def isNameChar (c : Char) : Bool := isNameStart c || c.isDigit

def isName : List Char → Bool
  | [] => false
  | c :: cs => isNameStart c && cs.all isNameChar

def unescape? (c : Char) : Option Char :=
  if c = '\\' ∨ c = '"' then some c else if c = 'n' then some '\n' else none

/-- How far a sample has been read, and what was read of it. -/
inductive Reading
  | start
  | family (name : List Char)
  | comma (family : List Char) (labels : List (String × String))
  | label (family : List Char) (labels : List (String × String)) (name : List Char)
  | opening (family : List Char) (labels : List (String × String)) (name : List Char)
  | text (family : List Char) (labels : List (String × String)) (name value : List Char)
  | escaped (family : List Char) (labels : List (String × String)) (name value : List Char)
  | closed (family : List Char) (labels : List (String × String))
  | labelled (family : List Char) (labels : List (String × String))
  | number (family : List Char) (labels : List (String × String)) (digits : List Char)

namespace Reading

def step : Reading → Char → Option Reading
  | start, c => if isNameStart c then some (family [c]) else none
  | family f, c =>
    if isNameChar c then some (family (f ++ [c]))
    else if c = '{' then some (comma f [])
    else if c = ' ' then some (number f [] []) else none
  | comma f l, c => if isNameStart c then some (label f l [c]) else none
  | label f l n, c =>
    if isNameChar c then some (label f l (n ++ [c])) else if c = '=' then some (opening f l n) else none
  | opening f l n, c => if c = '"' then some (text f l n []) else none
  | text f l n v, c =>
    if c = '"' then some (closed f (l ++ [(String.ofList n, String.ofList v)]))
    else if c = '\\' then some (escaped f l n v)
    else if c = '\n' then none else some (text f l n (v ++ [c]))
  | escaped f l n v, c => (unescape? c).map fun d => text f l n (v ++ [d])
  | closed f l, c =>
    if c = ',' then some (comma f l) else if c = '}' then some (labelled f l) else none
  | labelled f l, c => if c = ' ' then some (number f l []) else none
  | number f l d, c => if c.isDigit then some (number f l (d ++ [c])) else none

def run (r : Reading) (l : List Char) : Option Reading := l.foldlM step r

def finish : Reading → Option Line
  | number f l (d :: ds) => some (.sample (String.ofList f) l (decimalValue (d :: ds)))
  | _ => none

end Reading

def readSample? (l : List Char) : Option Line := (Reading.start.run l).bind Reading.finish

def readDeclared? (l : List Char) : Option Line :=
  match l.splitOn ' ' with
  | [['#'], ['T', 'Y', 'P', 'E'], name, kind] =>
    if isName name ∧ isName kind then some (.declared (String.ofList name) (String.ofList kind)) else none
  | _ => none

/-- No name starts with a number sign, so it tells a declaration from a sample. -/
def readLine? (s : String) : Option Line :=
  if s.toList.head? = some '#' then readDeclared? s.toList else readSample? s.toList

section Names

variable {c : Char} {s : List Char}

theorem isName_iff : isName s ↔ ∃ c cs, s = c :: cs ∧ isNameStart c ∧ ∀ d ∈ cs, isNameChar d := by
  cases s with
  | nil => simp [isName]
  | cons c cs => simp [isName]

theorem isNameChar_of_mem (h : isName s) (hc : c ∈ s) : isNameChar c := by
  obtain ⟨d, ds, rfl, hd, hds⟩ := isName_iff.1 h
  rcases List.mem_cons.1 hc with rfl | hc
  · rw [isNameChar, hd, Bool.true_or]
  · exact hds c hc

theorem notMem_of_isName (h : isName s) (hc : isNameChar c = false) : c ∉ s := fun hmem =>
  Bool.false_ne_true (hc.symm.trans (isNameChar_of_mem h hmem))

end Names

namespace Reading

variable {r q : Reading} {c : Char} {f n v cs rest : List Char} {l : List (String × String)}

theorem run_cons (h : r.step c = some q) : r.run (c :: rest) = q.run rest := by
  rw [run, List.foldlM_cons, h]
  rfl

theorem run_collect {state : List Char → Reading} (h : ∀ s, ∀ c ∈ cs, (state s).step c = some (state (s ++ [c])))
    (s : List Char) : (state s).run (cs ++ rest) = (state (s ++ cs)).run rest := by
  induction cs generalizing s with
  | nil => rw [List.append_nil, List.nil_append]
  | cons c cs ih =>
      rw [List.cons_append, run_cons (h s c List.mem_cons_self), ih fun s d hd => h s d (List.mem_cons_of_mem _ hd),
        List.append_assoc, List.singleton_append]

theorem run_of_isName {state : List Char → Reading} (hstart : ∀ c, isNameStart c → r.step c = some (state [c]))
    (hstep : ∀ s c, isNameChar c → (state s).step c = some (state (s ++ [c]))) (h : isName n) :
    r.run (n ++ rest) = (state n).run rest := by
  obtain ⟨c, cs, rfl, hc, hcs⟩ := isName_iff.1 h
  rw [List.cons_append, run_cons (hstart c hc)]
  exact run_collect (fun s d hd => hstep s d (hcs d hd)) [c]

theorem run_family (h : isName f) : start.run (f ++ rest) = (family f).run rest :=
  run_of_isName (fun _ hc => if_pos hc) (fun _ _ hc => if_pos hc) h

theorem run_name (h : isName n) : (comma f l).run (n ++ rest) = (label f l n).run rest :=
  run_of_isName (fun _ hc => if_pos hc) (fun _ _ hc => if_pos hc) h

theorem escapeChar_cases (c : Char) : (∃ d, escapeChar c = ['\\', d] ∧ unescape? d = some c) ∨
    escapeChar c = [c] ∧ c ≠ '"' ∧ c ≠ '\\' ∧ c ≠ '\n' := by
  unfold escapeChar
  split
  · exact .inl ⟨_, rfl, rfl⟩
  · exact .inl ⟨_, rfl, rfl⟩
  · exact .inl ⟨_, rfl, rfl⟩
  next hslash hquote hline => exact .inr ⟨rfl, hquote, hslash, hline⟩

theorem run_escapeChar (c : Char) (v : List Char) :
    (text f l n v).run (escapeChar c ++ rest) = (text f l n (v ++ [c])).run rest := by
  rcases escapeChar_cases c with ⟨d, hescape, hd⟩ | ⟨hescape, hquote, hslash, hline⟩
  · have hstep : (escaped f l n v).step d = some (text f l n (v ++ [c])) := by rw [step, hd, Option.map_some]
    rw [hescape, List.cons_append, run_cons (q := escaped f l n v) rfl, List.singleton_append, run_cons hstep]
  · have hstep : (text f l n v).step c = some (text f l n (v ++ [c])) := by
      rw [step, if_neg hquote, if_neg hslash, if_neg hline]
    rw [hescape, List.singleton_append, run_cons hstep]

theorem run_escape (s v : List Char) :
    (text f l n v).run (s.flatMap escapeChar ++ rest) = (text f l n (v ++ s)).run rest := by
  induction s generalizing v with
  | nil => rw [List.flatMap_nil, List.nil_append, List.append_nil]
  | cons c s ih =>
      rw [List.flatMap_cons, List.append_assoc, run_escapeChar, ih, List.append_assoc, List.singleton_append]

theorem toList_renderLabel (label : String × String) : (renderLabel label).toList =
    label.1.toList ++ '=' :: '"' :: label.2.toList.flatMap escapeChar ++ ['"'] := by
  simp [renderLabel, escape]

theorem run_renderLabel {a : String × String} (h : isName a.1.toList) :
    (comma f l).run ((renderLabel a).toList ++ rest) = (closed f (l ++ [a])).run rest := by
  have hclose : (text f l a.1.toList a.2.toList).step '"' = some (closed f (l ++ [a])) := by
    simp [step, String.ofList_toList]
  rw [toList_renderLabel]
  simp only [List.append_assoc, List.cons_append, List.nil_append]
  rw [run_name h, run_cons (q := opening f l a.1.toList) rfl, run_cons (q := text f l a.1.toList []) rfl,
    run_escape, List.nil_append, run_cons hclose]

theorem run_labels {a : String × String} {as : List (String × String)} (h : ∀ b ∈ a :: as, isName b.1.toList) :
    (comma f l).run ([','].intercalate ((a :: as).map fun b => (renderLabel b).toList) ++ rest) =
      (closed f (l ++ a :: as)).run rest := by
  induction as generalizing a l with
  | nil =>
      rw [List.map_singleton, List.intercalate_singleton]
      exact run_renderLabel (h a List.mem_cons_self)
  | cons b bs ih =>
      rw [List.map_cons, List.map_cons, List.intercalate_cons_cons]
      simp only [List.append_assoc]
      rw [run_renderLabel (h a List.mem_cons_self), List.singleton_append, run_cons (q := comma f (l ++ [a])) rfl,
        ← List.map_cons (f := fun b => (renderLabel b).toList), ih fun c hc => h c (List.mem_cons_of_mem a hc),
        List.append_assoc, List.singleton_append]

theorem run_series {name : String} {labels : List (String × String)} (hname : isName name.toList)
    (h : ∀ a ∈ labels, isName a.1.toList) :
    start.run ((name ++ renderLabels labels).toList ++ ' ' :: rest) = (number name.toList labels []).run rest := by
  rw [String.toList_append, List.append_assoc, run_family hname]
  cases labels with
  | nil => exact run_cons rfl
  | cons a as =>
      have hlist : (renderLabels (a :: as)).toList =
          '{' :: ([','].intercalate ((a :: as).map fun b => (renderLabel b).toList) ++ ['}']) := by
        simp [renderLabels, String.toList_intercalate, Function.comp_def]
      rw [hlist, List.cons_append, run_cons (q := comma name.toList []) rfl, List.append_assoc, run_labels h]
      rw [List.nil_append, List.singleton_append, run_cons (q := labelled name.toList (a :: as)) rfl, run_cons rfl]

theorem step_newline (r : Reading) : r.step '\n' = none := by
  cases r <;> rfl

theorem notMem_newline (h : r.run cs = some q) : '\n' ∉ cs := by
  induction cs generalizing r with
  | nil => exact List.not_mem_nil
  | cons c cs ih =>
      intro hmem
      cases hstep : r.step c with
      | none => simp [run, hstep] at h
      | some s =>
          rcases List.mem_cons.1 hmem with rfl | hmem
          · simp [step_newline] at hstep
          · exact ih ((run_cons hstep).symm.trans h) hmem

end Reading

/-- Replacing one character after another, the backslash first, escapes as well as one pass does. -/
theorem escape_eq_replaced (s : String) : (escape s).toList =
    ((s.toList.flatMap fun c => if c = '\\' then ['\\', '\\'] else [c]).flatMap fun c =>
      if c = '"' then ['\\', '"'] else [c]).flatMap fun c => if c = '\n' then ['\\', 'n'] else [c] := by
  rw [escape, String.toList_ofList, List.flatMap_assoc, List.flatMap_assoc]
  refine congrArg (fun g => s.toList.flatMap g) (funext fun c => ?_)
  unfold escapeChar
  split <;> simp_all

variable {family : String} {s : Sample} {f : Family}

theorem readSample?_line (hfamily : isName family.toList) (hlabels : ∀ a ∈ s.labels, isName a.1.toList) :
    readSample? (s.line family).toList = some (.sample family s.labels s.value.toNat) := by
  have hline : (s.line family).toList =
      (family ++ renderLabels s.labels).toList ++ ' ' :: Nat.toDigits 10 s.value.toNat := by
    have hvalue : (toString s.value).toList = Nat.toDigits 10 s.value.toNat := by
      change (toString s.value.toNat).toList = _
      rw [Nat.toString_eq_ofList_toDigits, String.toList_ofList]
    rw [Sample.line, String.toList_append, String.toList_append, hvalue, List.append_assoc]
    rfl
  have hdigits : ∀ d, ∀ c ∈ Nat.toDigits 10 s.value.toNat, (Reading.number family.toList s.labels d).step c =
      some (Reading.number family.toList s.labels (d ++ [c])) := fun d c hc =>
    if_pos (Nat.isDigit_of_mem_toDigits (by decide) (by decide) hc)
  have hrun : (Reading.number family.toList s.labels []).run (Nat.toDigits 10 s.value.toNat) =
      some (Reading.number family.toList s.labels (Nat.toDigits 10 s.value.toNat)) := by
    have hall : (Reading.number family.toList s.labels []).run (Nat.toDigits 10 s.value.toNat ++ []) =
        some (Reading.number family.toList s.labels ([] ++ Nat.toDigits 10 s.value.toNat)) :=
      Reading.run_collect hdigits []
    rwa [List.append_nil, List.nil_append] at hall
  rw [readSample?, hline, Reading.run_series hfamily hlabels, hrun]
  obtain ⟨d, ds, hd⟩ := List.exists_cons_of_ne_nil (Nat.toDigits_ne_nil (n := s.value.toNat) (b := 10))
  have hfinish : (Reading.number family.toList s.labels (Nat.toDigits 10 s.value.toNat)).finish =
      some (.sample (String.ofList family.toList) s.labels (decimalValue (Nat.toDigits 10 s.value.toNat))) := by
    rw [hd]
    rfl
  rwa [decimalValue_toDigits, String.ofList_toList] at hfinish

theorem readLine?_line (hfamily : isName family.toList) (hlabels : ∀ a ∈ s.labels, isName a.1.toList) :
    readLine? (s.line family) = some (.sample family s.labels s.value.toNat) := by
  have hhead : (s.line family).toList.head? ≠ some '#' := by
    obtain ⟨c, cs, hc, hstart, -⟩ := isName_iff.1 hfamily
    simp only [Sample.line, String.toList_append, hc, List.cons_append, List.head?_cons, ne_eq, Option.some.injEq]
    rintro rfl
    exact absurd hstart (by decide)
  rw [readLine?, if_neg hhead, readSample?_line hfamily hlabels]

theorem toList_typeLine (f : Family) : f.typeLine.toList =
    [' '].intercalate [['#'], ['T', 'Y', 'P', 'E'], f.name.toList, "counter".toList] := by
  simp [Family.typeLine, List.intercalate_cons_cons]

theorem readLine?_typeLine (h : isName f.name.toList) : readLine? f.typeLine = some (.declared f.name "counter") := by
  have hwords : f.typeLine.toList.splitOn ' ' = [['#'], ['T', 'Y', 'P', 'E'], f.name.toList, "counter".toList] := by
    rw [toList_typeLine]
    refine List.splitOn_intercalate ' ' ?_ (List.cons_ne_nil _ _)
    simpa using notMem_of_isName h (by decide)
  have hread : readDeclared? f.typeLine.toList =
      some (.declared (String.ofList f.name.toList) (String.ofList "counter".toList)) := by
    rw [readDeclared?, hwords]
    exact if_pos ⟨h, by decide⟩
  rw [readLine?, if_pos (by rw [toList_typeLine]; rfl), hread, String.ofList_toList, String.ofList_toList]

end EventMetrics.Exposition
