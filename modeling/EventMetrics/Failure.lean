namespace EventMetrics

structure Failure where
  code : Nat
  reason : String
  detail : Option String := none
  deriving DecidableEq, Repr

def Failure.render (f : Failure) : String :=
  s!"[{f.code}] {f.reason}" ++ (f.detail.elim "" fun d => "\n  -> Details: " ++ d)

end EventMetrics
