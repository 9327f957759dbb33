import EventMetrics.Definition
import EventMetrics.Digest
import EventMetrics.Record

namespace EventMetrics.Alert

structure Rule (α : Type) where
  alert : String
  metric : String
  /-- Buckets kept besides the one that is fed. -/
  kept : Nat
  threshold : α
  quiet : Int

def Rule.ofDefinition (d : Definition.Alert) : Rule Float where
  alert := d.id
  metric := d.metric
  kept := d.numBuckets - 1
  threshold := d.threshold
  quiet := (d.refractory.map Span.toInstant).getD 0

structure PastBucket (α : Type) where
  num : Nat
  values : Table DimensionKey α

structure Tracker (α : Type) where
  rule : Rule α
  /-- From the oldest to the newest. -/
  past : List (PastBucket α) := []
  /-- For each key the sum of its past values and the number of past buckets that hold it. -/
  sums : Table DimensionKey (α × Nat) := .empty
  quietUntil : Table DimensionKey Int := .empty

structure Firing (α : Type) where
  key : DimensionKey
  bucketNum : Nat
  windowSum : α
  firedAt : Int

variable {α : Type} [Add α] [Sub α] [OfNat α 0] [LE α] [DecidableLE α]

namespace Tracker

def pastSum (t : Tracker α) (k : DimensionKey) : α := ((t.sums.get? k).map (·.1)).getD 0

def forgetValues (sums : Table DimensionKey (α × Nat)) (values : Table DimensionKey α) :
    Table DimensionKey (α × Nat) :=
  values.entries.foldl
    (fun sums e =>
      match sums.get? e.1 with
      | none => sums
      | some (sum, buckets) =>
        if buckets ≤ 1 then sums.erase e.1 else sums.insert e.1 (sum - e.2, buckets - 1))
    sums

def addValues (sums : Table DimensionKey (α × Nat)) (values : Table DimensionKey α) :
    Table DimensionKey (α × Nat) :=
  values.entries.foldl
    (fun sums e =>
      let (sum, buckets) := (sums.get? e.1).getD (0, 0)
      sums.insert e.1 (sum + e.2, buckets + 1))
    sums

def dropBefore (t : Tracker α) (oldest : Nat) : Tracker α :=
  let gone := t.past.takeWhile (·.num < oldest)
  { t with
    past := t.past.dropWhile (·.num < oldest)
    sums := gone.foldl (fun sums b => forgetValues sums b.values) t.sums }

def dropExcess (t : Tracker α) : Tracker α :=
  let excess := t.past.length - t.rule.kept
  { t with
    past := t.past.drop excess
    sums := (t.past.take excess).foldl (fun sums b => forgetValues sums b.values) t.sums }

def judge (t : Tracker α) (num : Nat) (firedAt : Int) (row : DimensionKey × α) :
    Tracker α × List (Firing α) :=
  let windowSum := t.pastSum row.1 + row.2
  if windowSum ≤ t.rule.threshold then (t, [])
  else if (t.quietUntil.get? row.1).any (firedAt < ·) then (t, [])
  else
    ({ t with quietUntil := t.quietUntil.insert row.1 (Instant.after firedAt t.rule.quiet) },
      [{ key := row.1, bucketNum := num, windowSum, firedAt }])

def judgeAll (num : Nat) (firedAt : Int) :
    Tracker α → List (DimensionKey × α) → Tracker α × List (Firing α)
  | t, [] => (t, [])
  | t, row :: rest =>
    let (t, first) := t.judge num firedAt row
    let (t, others) := judgeAll num firedAt t rest
    (t, first ++ others)

def collect (rows : List (DimensionKey × α)) : Table DimensionKey α :=
  rows.foldl (fun values row => values.insert row.1 ((values.get? row.1).getD 0 + row.2)) .empty

def keep (t : Tracker α) (num : Nat) (rows : List (DimensionKey × α)) : Tracker α :=
  if t.rule.kept = 0 then t
  else
    let values := collect rows
    dropExcess { t with past := t.past ++ [⟨num, values⟩], sums := addValues t.sums values }

/-- Feeds one bucket. Buckets arrive with increasing numbers. -/
def onBucket (t : Tracker α) (num : Nat) (firedAt : Int) (rows : List (DimensionKey × α)) :
    Tracker α × List (Firing α) :=
  let (t, firings) := judgeAll num firedAt (t.dropBefore (num - t.rule.kept)) rows
  let t := { t with quietUntil := t.quietUntil.retain fun _ quietEnd => firedAt < quietEnd }
  (t.keep num rows, firings)

end Tracker

/-- The text that a record's id is the digest of: each part ends in a bar. -/
def idText (alert metric : String) (key : DimensionKey) (num : Nat) : String :=
  String.join ([alert, metric, key.canonical, toString num].map (· ++ "|"))

def recordId (alert metric : String) (key : DimensionKey) (num : Nat) : String :=
  Digest.hex ((Digest.sha256 (idText alert metric key num).toUTF8.toList).take 8)

def Firing.toRecord (f : Firing Float) (r : Rule Float) : Record.Alert where
  id := recordId r.alert r.metric f.key f.bucketNum
  alert := r.alert
  metric := r.metric
  dimension := f.key
  bucketNum := f.bucketNum
  windowSum := f.windowSum
  threshold := r.threshold
  firedAt := f.firedAt
  firedAtText := Calendar.render f.firedAt

end EventMetrics.Alert
