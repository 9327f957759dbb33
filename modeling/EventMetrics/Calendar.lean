namespace EventMetrics.Calendar

structure Date where
  year : Int
  month : Nat
  day : Nat
  deriving DecidableEq, Repr

/-- Days since 1970-01-01 to a date of the Gregorian calendar. Years are counted from March, in eras
of 400 years and 146097 days. -/
def dateOfDays (days : Int) : Date :=
  let shifted := days + 719468
  let era := shifted / 146097
  let dayOfEra := (shifted % 146097).toNat
  let yearOfEra :=
    (dayOfEra - dayOfEra / 1460 + dayOfEra / 36524 - dayOfEra / 146096) / 365
  let dayOfYear := dayOfEra - (365 * yearOfEra + yearOfEra / 4 - yearOfEra / 100)
  let fromMarch := (5 * dayOfYear + 2) / 153
  let day := dayOfYear - (153 * fromMarch + 2) / 5 + 1
  let month := if fromMarch < 10 then fromMarch + 3 else fromMarch - 9
  { year := era * 400 + yearOfEra + (if month ≤ 2 then 1 else 0), month, day }

def padded (width n : Nat) : String :=
  let digits := toString n
  String.ofList (List.replicate (width - digits.length) '0') ++ digits

def render (nanos : Int) : String :=
  let millis := nanos / 1000000
  let seconds := millis / 1000
  let date := dateOfDays (seconds / 86400)
  let secondOfDay := (seconds % 86400).toNat
  let time := s!"{padded 2 (secondOfDay / 3600)}:{padded 2 (secondOfDay / 60 % 60)}:{padded 2 (secondOfDay % 60)}"
  s!"{padded 4 date.year.toNat}-{padded 2 date.month}-{padded 2 date.day}T{time}.{padded 3 (millis % 1000).toNat}Z"

end EventMetrics.Calendar
