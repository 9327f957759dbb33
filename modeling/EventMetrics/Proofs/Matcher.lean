import EventMetrics.Proofs.Engine.Accepting
import EventMetrics.Proofs.Graph.Pass
import EventMetrics.Proofs.Logic
import EventMetrics.Proofs.Wildcard

namespace EventMetrics

open Check

namespace Value

/-- Whole numbers and ordinals compare as such, and with a real number as doubles. Text does not compare. -/
def AtMost : Value → Value → Prop
  | .int m, .int n | .int m, .ordinal n | .ordinal m, .int n | .ordinal m, .ordinal n => m ≤ n
  | .int m, .real y | .ordinal m, .real y => Float.ofInt m ≤ y
  | .real x, .int n | .real x, .ordinal n => x ≤ Float.ofInt n
  | .real x, .real y => x ≤ y
  | .text _, _ | _, .text _ => False

/-- Text agrees with the same text, and a number with one that is neither less nor greater. -/
def Agrees (v w : Value) : Prop := (∃ s, v = .text s ∧ w = .text s) ∨ v.AtMost w ∧ w.AtMost v

structure Ordered (o : Option Ordering) (le ge : Prop) : Prop where
  lt_iff : o = some .lt ↔ le ∧ ¬ ge
  gt_iff : o = some .gt ↔ ge ∧ ¬ le
  eq_iff : o = some .eq ↔ le ∧ ge

theorem Ordered.compare (m n : Int) : Ordered (some (Ord.compare m n)) (m ≤ n) (n ≤ m) := by
  refine ⟨?_, ?_, ?_⟩ <;> rw [Option.some.injEq]
  · rw [Int.compare_eq_lt]
    omega
  · rw [Int.compare_eq_gt]
    omega
  · rw [Int.compare_eq_eq]
    omega

theorem ordered_compare? (v w : Value) : Ordered (v.compare? w) (v.AtMost w) (w.AtMost v) := by
  have hnone : Ordered none False False := by constructor <;> simp
  have hdoubles : ∀ x y : Float, Ordered (compareFloats? x y) (x ≤ y) (y ≤ x) := by
    intro x y
    by_cases hle : x ≤ y <;> by_cases hge : y ≤ x <;> constructor <;> simp [compareFloats?, hle, hge]
  cases v <;> cases w <;> first
    | exact Ordered.compare _ _
    | exact hdoubles _ _
    | exact hnone

theorem same_iff (v w : Value) : v.same w = true ↔ v.Agrees w := by
  unfold same Agrees
  split
  next s t => simpa [AtMost] using eq_comm
  next s hw => cases w <;> simp_all [AtMost]
  next s hv => cases v <;> simp_all [AtMost]
  next hv hw =>
    rw [beq_iff_eq, (ordered_compare? v w).eq_iff, or_iff_right]
    rintro ⟨s, -, hs⟩
    exact hv s hs

end Value

namespace Definition

def FieldTest.Passes (v : Value) : FieldTest → Prop
  | eq l => v.Agrees l.toValue
  | lt l => v.AtMost l.toValue ∧ ¬ l.toValue.AtMost v
  | gt l => l.toValue.AtMost v ∧ ¬ v.AtMost l.toValue
  | lte l => v.AtMost l.toValue
  | gte l => l.toValue.AtMost v
  | oneOf ls => ∃ l ∈ ls, v.Agrees l.toValue
  | notOneOf ls => ∀ l ∈ ls, ¬ v.Agrees l.toValue
  | wildcard pattern => ∃ s, v = .text s ∧ Wildcard.Matches pattern.toList s.toList

theorem FieldTest.accepts_iff (t : FieldTest) (v : Value) : t.accepts v = true ↔ t.Passes v := by
  have hordered := fun l : Literal => v.ordered_compare? l.toValue
  cases t with
  | eq l => exact v.same_iff l.toValue
  | lt l => simp [accepts, Passes, (hordered l).lt_iff]
  | gt l => simp [accepts, Passes, (hordered l).gt_iff]
  | lte l =>
      simp only [accepts, Passes, Bool.or_eq_true, beq_iff_eq, (hordered l).lt_iff, (hordered l).eq_iff]
      tauto
  | gte l =>
      simp only [accepts, Passes, Bool.or_eq_true, beq_iff_eq, (hordered l).gt_iff, (hordered l).eq_iff]
      tauto
  | oneOf ls => simp [accepts, Passes, Value.same_iff]
  | notOneOf ls => simp [accepts, Passes, Value.same_iff, ← Bool.not_eq_true]
  | wildcard pattern => cases v <;> simp [accepts, Passes, Value.toText?, Wildcard.isMatch_iff]

theorem FieldConstraint.holds_iff (c : FieldConstraint) (e : Event) :
    c.holds e = true ↔ ∃ v, e.field? c.field = some v ∧ c.test.Passes v := by
  rw [holds]
  cases e.field? c.field <;> simp [FieldTest.accepts_iff]

/-- A matcher says yes or no to an event: a simple one by itself, a combination by what those say whom it
names. -/
inductive Says (defs : List Matcher) (e : Event) : String → Bool → Prop
  | simple {d : Matcher} {atom : Int} {constraints : List FieldConstraint} {b : Bool} : d ∈ defs →
      d.rule = .simple atom constraints →
      (b = true ↔ e.atom = atom ∧ ∀ c ∈ constraints, ∃ v, e.field? c.field = some v ∧ c.test.Passes v) →
      Says defs e d.id b
  | combination {d : Matcher} {op : LogicalOp} {children : List String} {b : Bool} (said : String → Bool) :
      d ∈ defs → d.rule = .combination op children → (∀ c ∈ children, Says defs e c (said c)) →
      (b = true ↔ op.Holds (children.map said)) → Says defs e d.id b

theorem Says.mono {defs defs' : List Matcher} {e : Event} {id : String} {b : Bool} (h : Says defs e id b)
    (hsub : ∀ d ∈ defs, d ∈ defs') : Says defs' e id b := by
  induction h with
  | simple hd hrule hb => exact .simple (hsub _ hd) hrule hb
  | combination said hd hrule _ hb ih => exact .combination said (hsub _ hd) hrule ih hb

end Definition

open Definition (Says Referrer)

namespace Matchers

variable {defs defs' : List Definition.Matcher} {ms : Matchers} {e : Event} {d : Definition.Matcher}
  {referrer : Referrer} {id : String} {b : Bool} {i : Nat}

/-- What the matcher of a name says, for whoever refers to it. -/
def answer (ms : Matchers) (referrer : Referrer) (e : Event) (id : String) : Except Definition.Error Bool :=
  (ms.resolve? referrer id).map (ms.judge e).get

theorem judgeAt_eq (ms : Matchers) (e : Event) : ms.judgeAt e = Graph.fill ms.nodes (Matcher.judge · e) := by
  funext hits i
  rw [judgeAt, Graph.fill]
  cases ms.nodes[i]? <;> rfl

/-- In the end each matcher has judged by the answers of its children as they are in the end. -/
theorem get_judge (h : Graph.Orders (ms.nodes.map Matcher.children) ms.order) {m : Matcher}
    (hm : ms.nodes[i]? = some m) : (ms.judge e).get i = m.judge e (ms.judge e) := by
  rw [judge, judgeAt_eq]
  refine Graph.Orders.getD_foldl_fill h (List.length_replicate ..) (fun m hits hits' hchildren => ?_) hm
  cases m with
  | simple atom constraints => rfl
  | combination op children => exact congrArg op.eval (List.map_congr_left hchildren)

def said (ms : Matchers) (e : Event) (id : String) : Bool := (ms.judge e).get (ms.names.idxOf id)

theorem answer_eq_ok (h : compile defs = .ok ms) :
    ms.answer referrer e id = .ok b ↔ id ∈ defs.map (·.id) ∧ ms.said e id = b := by
  rw [answer, resolve?, compile_names h]
  cases hr : resolve (defs.map (·.id)) referrer id with
  | error x =>
      have hnot : id ∉ defs.map (·.id) := fun hid => by
        obtain ⟨i, hi⟩ := (resolve_isOk _ referrer id).2 hid
        cases hr.symm.trans hi
      simp [Except.map, hnot]
  | ok i =>
      have hid : id ∈ defs.map (·.id) := (resolve_isOk _ referrer id).1 ⟨i, hr⟩
      have hidx : (defs.map (·.id)).idxOf id = i := Graph.findIdx?_eq_idxOf (resolve_eq_ok.1 hr)
      rw [said, compile_names h, hidx]
      simp only [Except.map, Except.ok.injEq, hid, true_and]

theorem compile_node (h : compile defs = .ok ms) (hd : defs[i]? = some d) :
    (defs.map (·.id)).idxOf d.id = i ∧ ∃ m, ms.nodes[i]? = some m ∧ compileOne (defs.map (·.id)) d = .ok m := by
  have hnames := (compile_isOk.1 ⟨ms, h⟩).1
  rw [compile_eq, arrange_eq_ok] at h
  obtain ⟨-, nodes, order, hnodes, -, rfl⟩ := h
  obtain ⟨hlt, rfl⟩ := List.getElem?_eq_some_iff.1 hd
  have hlt' : i < nodes.length := hnodes.length_eq ▸ hlt
  refine ⟨?_, nodes[i], List.getElem?_eq_getElem hlt', hnodes.get hlt hlt'⟩
  have hidx := hnames.idxOf_getElem i (by rwa [List.length_map])
  rwa [List.getElem_map] at hidx

theorem compileOne_eq {names : List String} {m : Matcher} (h : compileOne names d = .ok m) :
    m = match d.rule with
      | .simple atom constraints => .simple atom constraints
      | .combination op children => .combination op (children.map names.idxOf) := by
  have hchildren := compileOne_children h
  rw [compileOne] at h
  cases hrule : d.rule with
  | simple atom constraints =>
      simp only [hrule, bind_eq_ok, pure_eq_ok] at h
      obtain ⟨_, -, rfl⟩ := h
      rfl
  | combination op children =>
      simp only [hrule, bind_eq_ok, pure_eq_ok] at h
      obtain ⟨_, -, r, -, rfl⟩ := h
      rw [hrule] at hchildren
      have hplaces : children.map names.idxOf = r :=
        List.forall₂_eq_eq_eq ▸ List.forall₂_map_left_iff.2 (hchildren.imp fun b c => Graph.findIdx?_eq_idxOf)
      simp only [hplaces]

theorem said_eq (h : compile defs = .ok ms) (hd : d ∈ defs) : ms.said e d.id =
    match d.rule with
    | .simple atom constraints => e.atom == atom && constraints.all (·.holds e)
    | .combination op children => op.eval (children.map (ms.said e)) := by
  obtain ⟨i, hi⟩ := List.getElem?_of_mem hd
  obtain ⟨hidx, m, hm, hcompiled⟩ := compile_node h hi
  rw [said, compile_names h, hidx, get_judge (compile_orders h) hm, compileOne_eq hcompiled]
  cases d.rule with
  | simple atom constraints => rfl
  | combination op children =>
      simp only [Matcher.judge, List.map_map]
      refine congrArg op.eval (List.map_congr_left fun c _ => ?_)
      rw [said, compile_names h]
      rfl

theorem eval_said_iff (h : compile defs = .ok ms) (hd : d ∈ defs) {op : LogicalOp} {children : List String}
    (hrule : d.rule = .combination op children) (said : String → Bool) :
    op.eval (children.map said) = true ↔ op.Holds (children.map said) := by
  obtain ⟨-, harity, -⟩ : Definition.Combines (defs.map (·.id)) op children := by
    have hsound := (compile_isOk.1 ⟨ms, h⟩).2.1 d hd
    rwa [hrule] at hsound
  exact LogicalOp.eval_iff_holds (by rwa [List.length_map])

theorem says_said (h : compile defs = .ok ms) (e : Event) (hd : d ∈ defs) :
    Says defs e d.id (ms.said e d.id) := by
  -- from the simple matchers up, along the order in which they judge
  obtain ⟨i, hi⟩ := List.getElem?_of_mem hd
  have hlt : i < (ms.nodes.map Matcher.children).length := by
    obtain ⟨-, m, hm, -⟩ := compile_node h hi
    rw [List.length_map]
    exact (List.getElem?_eq_some_iff.1 hm).1
  refine Graph.Orders.induction (P := fun i => ∀ d, defs[i]? = some d → Says defs e d.id (ms.said e d.id))
    (compile_orders h) (fun i _ ih d hi => ?_) hlt d hi
  have hd := List.mem_of_getElem? hi
  have heq := said_eq (e := e) h hd
  cases hrule : d.rule with
  | simple atom constraints =>
      refine .simple hd hrule ?_
      rw [heq, hrule]
      simp [Definition.FieldConstraint.holds_iff]
  | combination op children =>
      refine .combination (ms.said e) hd hrule (fun c hc => ?_) ?_
      · obtain ⟨-, m, hm, hcompiled⟩ := compile_node h hi
        have hlisted : c ∈ d.rule.children := by rwa [hrule]
        obtain ⟨j, hj, hfind⟩ := exists_of_mem_left (compileOne_children hcompiled) hlisted
        have hname := Graph.findIdx?_eq_some hfind
        rw [List.getElem?_map] at hname
        obtain ⟨d', hd', rfl⟩ := Option.map_eq_some_iff.1 hname
        refine ih j ?_ d' hd'
        rwa [Graph.Child, List.getD_eq_getElem?_getD, List.getElem?_map, hm]
      · rw [heq, hrule]
        exact eval_said_iff h hd hrule _

theorem eq_said (h : compile defs = .ok ms) (hs : Says defs e id b) :
    id ∈ defs.map (·.id) ∧ b = ms.said e id := by
  induction hs with
  | simple hd hrule hb =>
      refine ⟨List.mem_map_of_mem hd, ?_⟩
      rw [Bool.eq_iff_iff, hb, said_eq h hd, hrule]
      simp [Definition.FieldConstraint.holds_iff]
  | combination said hd hrule _ hb ih =>
      refine ⟨List.mem_map_of_mem hd, ?_⟩
      rw [Bool.eq_iff_iff, hb, said_eq h hd, hrule, List.map_congr_left fun c hc => (ih c hc).2]
      exact (eval_said_iff h hd hrule _).symm

theorem answer_iff (h : compile defs = .ok ms) (referrer : Referrer) (e : Event) (id : String)
    (b : Bool) : ms.answer referrer e id = .ok b ↔ Says defs e id b := by
  rw [answer_eq_ok h]
  constructor
  · rintro ⟨hid, rfl⟩
    obtain ⟨d, hd, rfl⟩ := List.mem_map.1 hid
    exact says_said h e hd
  · intro hs
    obtain ⟨hid, rfl⟩ := eq_said h hs
    exact ⟨hid, rfl⟩

theorem compile_isOk_of_perm (h : compile defs = .ok ms) (hperm : defs'.Perm defs) :
    ∃ ms', compile defs' = .ok ms' := by
  obtain ⟨hnames, hsound, hacyclic⟩ := compile_isOk.1 ⟨ms, h⟩
  have hsame := hperm.map (·.id)
  refine compile_isOk.2 ⟨hsame.nodup_iff.2 hnames, fun d hd => ?_, fun id hid => hacyclic id ?_⟩
  · have hrule := hsound d (hperm.mem_iff.1 hd)
    cases hd : d.rule with
    | simple atom constraints => rwa [hd] at hrule
    | combination op children =>
        rw [hd] at hrule
        obtain ⟨hsome, harity, hall⟩ := hrule
        exact ⟨hsome, harity, fun c hc => hsame.mem_iff.2 (hall c hc)⟩
  · exact Relation.TransGen.mono (fun a b ⟨d, hd, hab⟩ => ⟨d, hperm.mem_iff.1 hd, hab⟩) _ _ hid

/-- Whoever asks a matcher by its name is told what its definition and those below it say of the event,
in whatever order the definitions are listed. -/
theorem answer_by_definition (h : compile defs = .ok ms) (e : Event) :
    (∀ referrer id b, ms.answer referrer e id = .ok b ↔ Says defs e id b) ∧
    (∀ referrer, ∀ d ∈ defs, ∃ b, ms.answer referrer e d.id = .ok b) ∧
    ∀ defs', defs'.Perm defs → ∃ ms', compile defs' = .ok ms' ∧
      ∀ referrer id b, ms'.answer referrer e id = .ok b ↔ ms.answer referrer e id = .ok b := by
  refine ⟨fun referrer id b => answer_iff h referrer e id b,
    fun referrer d hd => ⟨_, (answer_eq_ok h).2 ⟨?_, rfl⟩⟩, fun defs' hperm => ?_⟩
  · exact List.mem_map_of_mem hd
  · obtain ⟨ms', h'⟩ := compile_isOk_of_perm h hperm
    refine ⟨ms', h', fun referrer id b => ?_⟩
    rw [answer_iff h', answer_iff h]
    exact ⟨fun hs => hs.mono fun _ => hperm.mem_iff.1, fun hs => hs.mono fun _ => hperm.mem_iff.2⟩

/-- A gust without a field for its strength is wind but no storm, nor is a weak one; a strong one is, however the
four are listed. -/
theorem answer_by_definition_gust :
    let defs : List Definition.Matcher := [
      ⟨"calm", .combination .nor ["storm", "strong"]⟩, ⟨"storm", .combination .and ["strong", "wind"]⟩,
      ⟨"strong", .simple 3 [⟨"strength", .gte (.int 8)⟩, ⟨"from", .wildcard "*west"⟩]⟩, ⟨"wind", .simple 3 []⟩]
    let gust (strength : Int) : Event :=
      { atom := 3, time := 0, fields := .ofList [("from", .text "southwest"), ("strength", .int strength)] }
    ∃ ms ms', compile defs = .ok ms ∧ compile defs.reverse = .ok ms' ∧
      ms.answer (.metric "sails") { atom := 3, time := 0 } "calm" = .ok true ∧
      Says defs { atom := 3, time := 0 } "calm" true ∧
      ms.answer (.metric "sails") (gust 7) "strong" = .ok false ∧ Says defs (gust 7) "strong" false ∧
      ms.answer (.metric "sails") (gust 8) "storm" = .ok true ∧ Says defs (gust 8) "storm" true ∧
      ms'.answer (.metric "sails") (gust 8) "storm" = .ok true := by
  intro defs gust
  obtain ⟨ms, h, hcalm, hweak, hstorm⟩ : ∃ ms, compile defs = .ok ms ∧
      ms.answer (.metric "sails") { atom := 3, time := 0 } "calm" = .ok true ∧
      ms.answer (.metric "sails") (gust 7) "strong" = .ok false ∧
      ms.answer (.metric "sails") (gust 8) "storm" = .ok true := ⟨_, rfl, rfl, rfl, rfl⟩
  have htold := fun e => (answer_by_definition h e).1 (.metric "sails")
  obtain ⟨ms', h', hsame⟩ := (answer_by_definition h (gust 8)).2.2 defs.reverse defs.reverse_perm
  exact ⟨ms, ms', h, h', hcalm, (htold _ _ _).1 hcalm, hweak, (htold _ _ _).1 hweak, hstorm, (htold _ _ _).1 hstorm,
    (hsame _ _ _).2 hstorm⟩

end Matchers

end EventMetrics
