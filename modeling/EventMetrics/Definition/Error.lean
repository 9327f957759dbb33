import EventMetrics.Definition
import EventMetrics.Failure

namespace EventMetrics.Definition

inductive Referrer
  | matcher (id : String)
  | condition (id : String)
  | metric (id : String)
  | activation (metric : String)
  /-- Someone outside the definitions. -/
  | caller (name : String)
  deriving DecidableEq, Repr

def Referrer.render : Referrer → String
  | matcher id => s!"matcher {Text.quote id}"
  | condition id => s!"condition {Text.quote id}"
  | metric id => s!"metric {Text.quote id}"
  | activation id => s!"metric {Text.quote id} activation"
  | caller name => name

inductive Error
  | noMetrics
  | noDimensionLimit
  | duplicateMatcher (id : String)
  | duplicateCondition (id : String)
  | duplicateMetric (id : String)
  | duplicateAlert (id : String)
  | nonNumericLiteral (matcher field : String) (literal : Literal)
  | emptyValueSet (matcher field : String)
  | notTakesOne (owner : Referrer) (children : Nat)
  | noChildren (owner : Referrer) (op : LogicalOp)
  | unknownMatcher (referrer : Referrer) (id : String)
  | unknownCondition (referrer : Referrer) (id : String)
  | matcherCycle (path : List String)
  | conditionCycle (path : List String)
  | sameStartStop (owner : Referrer) (matcher : String)
  | alertUnknownMetric (alert metric : String)
  | alertWithoutBuckets (alert : String)
  | bucketSize (metric : Referrer)
  | alertsNeedBuckets (metric : Referrer)
  | linksWithoutCondition (metric : Referrer)
  | linksNeedSlices (metric : Referrer)
  | linkCount (metric : Referrer) (dimensions : List String)
  | unlinkedDimension (metric : Referrer) (dimension : String)

open Text in
def Error.message : Error → String
  | noMetrics => "no metrics defined"
  | noDimensionLimit => "dimension_hard_limit must be > 0"
  | duplicateMatcher id => s!"duplicate matcher id {quote id}"
  | duplicateCondition id => s!"duplicate condition id {quote id}"
  | duplicateMetric id => s!"duplicate metric id {quote id}"
  | duplicateAlert id => s!"duplicate alert id {quote id}"
  | nonNumericLiteral matcher field literal =>
    s!"matcher {quote matcher}: field {quote field} compares against non-numeric literal " ++
      literal.render
  | emptyValueSet matcher field =>
    s!"matcher {quote matcher}: field {quote field} has an empty value set"
  | notTakesOne owner n => s!"{owner.render}: not takes exactly one child, got {n}"
  | noChildren owner op => s!"{owner.render}: {op.name} needs at least one child"
  | unknownMatcher referrer id => s!"{referrer.render} references unknown matcher {quote id}"
  | unknownCondition referrer id => s!"{referrer.render} references unknown condition {quote id}"
  | matcherCycle path => "matcher cycle: " ++ " -> ".intercalate path
  | conditionCycle path => "condition cycle: " ++ " -> ".intercalate path
  | sameStartStop owner m => s!"{owner.render}: start and stop use the same matcher {quote m}"
  | alertUnknownMetric alert metric =>
    s!"alert {quote alert} references unknown metric {quote metric}"
  | alertWithoutBuckets alert => s!"alert {quote alert}: num_buckets must be >= 1"
  | bucketSize metric => s!"{metric.render}: bucket size must be positive"
  | alertsNeedBuckets metric => s!"{metric.render}: alerts need a bucketed metric"
  | linksWithoutCondition metric => s!"{metric.render}: links without a condition"
  | linksNeedSlices metric => s!"{metric.render}: links require a dimensioned simple condition"
  | linkCount metric dimensions =>
    s!"{metric.render}: links must cover the condition dimensions {quoteList dimensions} exactly once"
  | unlinkedDimension metric dimension =>
    s!"{metric.render}: condition dimension {quote dimension} is not linked"

def Error.toFailure (e : Error) : Failure where
  code := 1001
  reason := "invalid metric configuration"
  detail := some e.message

end EventMetrics.Definition
