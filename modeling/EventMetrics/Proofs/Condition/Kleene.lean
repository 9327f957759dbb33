import EventMetrics.Proofs.Condition.Below
import EventMetrics.Proofs.Condition.Overall
import EventMetrics.Proofs.Engine.Accepting
import EventMetrics.Proofs.Logic

namespace EventMetrics

open Check
open Condition (Simple)

def Condition.plan : Condition → Condition
  | simple c => simple { c with unseen := .unknown, counts := .empty }
  | combination op children => combination op children

theorem Condition.children_plan (c : Condition) : c.plan.children = c.children := by cases c <;> rfl

namespace Conditions

/-- The same conditions, in whatever state. -/
structure StateOf (compiled cs : Conditions) : Prop where
  names : cs.names = compiled.names
  plans : cs.nodes.map Condition.plan = compiled.nodes.map Condition.plan
  order : cs.order = compiled.order

/-- The truth of a condition by that of the simple ones. -/
inductive Evaluates (cs : Conditions) (truth : Nat → Bool) : Nat → Bool → Prop
  | simple {i : Nat} {c : Simple} : cs.nodes[i]? = some (.simple c) → Evaluates cs truth i (truth i)
  | combination {i : Nat} {op : LogicalOp} {children : List Nat} {b : Bool} (value : Nat → Bool) :
      cs.nodes[i]? = some (.combination op children) → (∀ c ∈ children, Evaluates cs truth c (value c)) →
      (b = true ↔ op.Holds (children.map value)) → Evaluates cs truth i b

/-- Simple conditions are true or false, as they signal if they do. -/
def Settles (cs : Conditions) (truth : Nat → Bool) : Prop :=
  ∀ (i : Nat) (c : Simple), cs.nodes[i]? = some (.simple c) → c.overall.Admits (truth i)

/-- What combinations rely on: children come first, and a negation has one. -/
structure Combining (cs : Conditions) : Prop where
  ordered : cs.Ordered
  arity : ∀ op children, .combination op children ∈ cs.nodes →
    children ≠ [] ∧ (op = .not → children.length = 1)

variable {cs compiled : Conditions} {truth : Nat → Bool} {defs : List Definition.Condition} {ms : Matchers}
  {limit i j c : Nat} {b b' : Bool}

theorem compile_combining (h : compile defs ms limit = .ok cs) : cs.Combining := by
  refine ⟨compile_orders h, fun op children hmem => ?_⟩
  rw [compile_eq, arrange_eq_ok] at h
  obtain ⟨-, nodes, order, hnodes, -, rfl⟩ := h
  obtain ⟨d, -, hd⟩ := exists_of_mem_right hnodes hmem
  exact compileOne_arity hd

theorem StateOf.combining (h : StateOf compiled cs) (hc : compiled.Combining) : cs.Combining := by
  have hchildren : cs.nodes.map Condition.children = compiled.nodes.map Condition.children := by
    have hplans := congrArg (List.map Condition.children) h.plans
    simpa only [List.map_map, Function.comp_def, Condition.children_plan] using hplans
  refine ⟨?_, fun op children hmem => hc.arity op children ?_⟩
  · rw [Ordered, hchildren, h.order]
    exact hc.ordered
  · have hplan : Condition.combination op children ∈ compiled.nodes.map Condition.plan :=
      h.plans ▸ List.mem_map_of_mem (f := Condition.plan) hmem
    obtain ⟨d, hd, heq⟩ := List.mem_map.1 hplan
    cases d with
    | simple c => cases heq
    | combination op' children' =>
        cases heq
        exact hd

theorem plan_meet {e : Event} {hits : Hits} (c : Condition) : (meet e hits c).plan = c.plan := by
  cases c with
  | combination op children => rfl
  | simple c =>
      obtain ⟨unseen, counts, hc⟩ := Simple.onEvent_eq c e hits
      rw [meet, hc]
      rfl

theorem StateOf.onEvent (h : StateOf compiled cs) (e : Event) (hits : Hits) :
    StateOf compiled (cs.onEvent e hits).1 := by
  refine ⟨h.names, ?_, h.order⟩
  rw [onEvent_eq]
  exact (map_foldl_offer plan_meet cs.order cs.arrival).trans h.plans

theorem Reachable.stateOf (h : Reachable defs ms limit cs) :
    ∃ compiled, compile defs ms limit = .ok compiled ∧ StateOf compiled cs := by
  induction h with
  | compiled h => exact ⟨_, h, rfl, rfl, rfl⟩
  | onEvent e hits _ ih =>
      obtain ⟨compiled, h, hs⟩ := ih
      exact ⟨compiled, h, hs.onEvent e hits⟩

theorem Evaluates.eq (h : cs.Evaluates truth i b) (h' : cs.Evaluates truth i b') : b = b' := by
  induction h generalizing b' with
  | simple hn =>
      cases h' with
      | simple => rfl
      | combination _ hn' => cases hn.symm.trans hn'
  | combination value hn _ hb ih =>
      cases h' with
      | simple hn' => cases hn.symm.trans hn'
      | combination value' hn' hchildren' hb' =>
          cases hn.symm.trans hn'
          rw [Bool.eq_iff_iff, hb, hb', List.map_congr_left fun c hc => ih c hc (hchildren' c hc)]

/-- Every condition is true or false, as its signal admits. -/
theorem Combining.exists_evaluates (h : cs.Combining) (htruth : cs.Settles truth) (hi : i < cs.size) :
    ∃ b, cs.Evaluates truth i b ∧ (cs.query i none).Admits b := by
  refine h.ordered.induction (P := fun i => ∃ b, cs.Evaluates truth i b ∧ (cs.query i none).Admits b)
    (fun i c hn => ⟨truth i, .simple hn, ?_⟩) (fun i op children hn ih => ?_) hi
  · simpa only [query, hn] using htruth i c hn
  · obtain ⟨-, harity⟩ := h.arity op children (List.mem_of_getElem? hn)
    choose! value hvalue hadmits using ih
    refine ⟨op.eval (children.map value), .combination value hn hvalue ?_, ?_⟩
    · exact LogicalOp.eval_iff_holds (by rwa [List.length_map])
    · rw [h.ordered.query_combination hn]
      exact Signal.combine_admits op hadmits

theorem Below.of_child {d : Condition} (hn : cs.nodes[i]? = some d) (hc : c ∈ d.children) (h : cs.Below c j) :
    cs.Below i j := by
  induction h with
  | self => exact .child .self hn hc
  | child _ hd hj ih => exact .child ih hd hj

/-- Something is known of all simple conditions below. -/
def Known (cs : Conditions) (i : Nat) : Prop :=
  ∀ (j : Nat) (c : Simple), cs.Below i j → cs.nodes[j]? = some (.simple c) → c.overall ≠ .unknown

theorem Combining.query_ne_unknown (h : cs.Combining) (hi : i < cs.size) (hknown : cs.Known i) :
    cs.query i none ≠ .unknown := by
  refine h.ordered.induction (P := fun i => cs.Known i → cs.query i none ≠ .unknown)
    (fun i c hn hknown => ?_) (fun i op children hn ih hknown => ?_) hi hknown
  · simpa only [query, hn] using hknown i c .self hn
  · obtain ⟨hsome, -⟩ := h.arity op children (List.mem_of_getElem? hn)
    rw [h.ordered.query_combination hn]
    refine Signal.combine_ne_unknown op (by simpa using hsome) fun s hs => ?_
    obtain ⟨c, hc, rfl⟩ := List.mem_map.1 hs
    exact ih c hc fun j d hbelow => hknown j d (hbelow.of_child hn hc)

/-- To ask a condition for its overall signal comes to an end with an answer. On or off, that is the
truth of the condition in every way to settle the simple ones of which nothing is known; and it is on or
off where something is known of all simple conditions below. -/
theorem query_admits_truth (h : compile defs ms limit = .ok compiled) (hs : StateOf compiled cs)
    (hi : i < cs.size) :
    cs.ask i = some (cs.query i none) ∧
    ∀ truth, cs.Settles truth → ∃ b, (∀ b', cs.Evaluates truth i b' ↔ b' = b) ∧
      (cs.query i none = .on → b = true) ∧ (cs.query i none = .off → b = false) ∧
      (cs.Known i → cs.query i none = .ofBool b) := by
  have hcombining := hs.combining (compile_combining h)
  refine ⟨hcombining.ordered.ask_eq hi, fun truth htruth => ?_⟩
  obtain ⟨b, hb, hadmits⟩ := hcombining.exists_evaluates htruth hi
  refine ⟨b, fun b' => ⟨fun hb' => hb'.eq hb, fun hsame => hsame ▸ hb⟩, fun hon => ?_, fun hoff => ?_,
    fun hknown => hadmits (hcombining.query_ne_unknown hi hknown)⟩
  · rw [hon] at hadmits
    exact Signal.admits_on.1 hadmits
  · rw [hoff] at hadmits
    exact Signal.admits_off.1 hadmits

/-- Once the light is out it is time to stay, whatever there is to say of the rain. -/
theorem query_admits_truth_rain :
    let ms : Matchers :=
      ⟨["lit", "out", "wet", "dry"], [.simple 1 [], .simple 2 [], .simple 3 [], .simple 4 []], [0, 1, 2, 3]⟩
    let defs : List Definition.Condition := [
      ⟨"stay", .combination .nand ["light", "fine"]⟩, ⟨"fine", .combination .not ["rain"]⟩,
      ⟨"light", .simple { start := "lit", stop := "out" }⟩,
      ⟨"rain", .simple { start := "wet", stop := "dry" }⟩]
    ∃ cs, Reachable defs ms 8 cs ∧ cs.query 3 none = .unknown ∧ cs.query 0 none = .on ∧
      cs.ask 0 = some .on ∧ ∀ truth, cs.Settles truth → cs.Evaluates truth 0 true := by
  intro ms defs
  let out : Event := { atom := 2, time := 0 }
  obtain ⟨start, hstart, hrain, hstay, hsize⟩ : ∃ cs, compile defs ms 8 = .ok cs ∧
      let cs := (cs.onEvent out (ms.judge out)).1
      cs.query 3 none = .unknown ∧ cs.query 0 none = .on ∧ 0 < cs.size := ⟨_, rfl, by decide +kernel⟩
  have hreach : Reachable defs ms 8 (start.onEvent out (ms.judge out)).1 := .onEvent _ _ (.compiled hstart)
  obtain ⟨compiled, h, hs⟩ := hreach.stateOf
  obtain ⟨hask, htruth⟩ := query_admits_truth h hs hsize
  refine ⟨_, hreach, hrain, hstay, hask.trans (congrArg some hstay), fun truth hsettles => ?_⟩
  obtain ⟨b, hb, hon, -⟩ := htruth truth hsettles
  exact (hb true).2 (hon hstay).symm

end Conditions

end EventMetrics
