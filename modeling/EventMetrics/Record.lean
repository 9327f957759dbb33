import EventMetrics.Calendar
import EventMetrics.DimensionKey
import EventMetrics.Json.Printer

namespace EventMetrics

inductive BucketValue
  | whole (n : Int)
  | real (x : Float)

namespace BucketValue

def toFloat : BucketValue → Float
  | whole n => Float.ofInt n
  | real x => x

def render : BucketValue → String
  | whole n => toString n
  | real x => Decimal.render Decimal.plainStyle x

def toJson : BucketValue → Json
  | whole n => .int n
  | real x => .real x

end BucketValue

/-- Why a bucket has no row: nothing qualified, or the condition was unknown for all that came. -/
inductive SkipReason
  | noData
  | conditionUnknown
  deriving DecidableEq, Repr

def SkipReason.name : SkipReason → String
  | noData => "no_data"
  | conditionUnknown => "condition_unknown"

def SkipReason.ofName? (s : String) : Option SkipReason :=
  [noData, conditionUnknown].find? (·.name = s)

namespace Record

structure Bucket where
  metric : String
  dimension : DimensionKey
  start : Int
  stop : Int
  value : BucketValue
  /-- Samples folded in, or segments of intervals. -/
  samples : Nat
  /-- Closed before its end. -/
  isPartial : Bool

structure Skipped where
  metric : String
  start : Int
  stop : Int
  buckets : Nat
  reason : SkipReason
  deriving DecidableEq, Repr

structure Alert where
  id : String
  alert : String
  metric : String
  dimension : DimensionKey
  bucketNum : Nat
  windowSum : Float
  threshold : Float
  firedAt : Int
  firedAtText : String

structure Event where
  metric : String
  dimension : DimensionKey
  atom : Int
  time : Int
  fields : Table String Value

end Record

inductive Record
  | bucket (r : Record.Bucket)
  | skipped (r : Record.Skipped)
  | alert (r : Record.Alert)
  | event (r : Record.Event)

namespace Record

inductive Kind
  | bucket
  | skipped
  | alert
  | event
  deriving DecidableEq, Repr

def Kind.name : Kind → String
  | bucket => "bucket"
  | skipped => "skipped"
  | alert => "alert"
  | event => "event"

def kind : Record → Kind
  | bucket _ => .bucket
  | skipped _ => .skipped
  | alert _ => .alert
  | event _ => .event

def metric : Record → String
  | bucket r => r.metric
  | skipped r => r.metric
  | alert r => r.metric
  | event r => r.metric

def members : Record → List (String × Json)
  | bucket r => [
      ("metric_id", .string r.metric), ("dimension", r.dimension.toJson),
      ("start_nanos", .int r.start), ("end_nanos", .int r.stop), ("value", r.value.toJson),
      ("sample_count", .int r.samples), ("partial", .bool r.isPartial)]
  | skipped r => [
      ("metric_id", .string r.metric), ("start_nanos", .int r.start), ("end_nanos", .int r.stop),
      ("bucket_count", .int r.buckets), ("reason", .string r.reason.name)]
  | alert r => [
      ("record_id", .string r.id), ("alert_id", .string r.alert), ("metric_id", .string r.metric),
      ("dimension", r.dimension.toJson), ("bucket_num", .int r.bucketNum),
      ("window_sum", .real r.windowSum), ("threshold", .real r.threshold),
      ("fired_at_nanos", .int r.firedAt), ("fired_at", .string r.firedAtText)]
  | event r => [
      ("metric_id", .string r.metric), ("dimension", r.dimension.toJson), ("atom_id", .int r.atom),
      ("timestamp_nanos", .int r.time),
      ("fields", .object (r.fields.entries.map fun e => (e.1, e.2.toJson)))]

def toJson (r : Record) : Json := .object (("type", .string r.kind.name) :: r.members)

def line (r : Record) : String := r.toJson.render

end Record

end EventMetrics
