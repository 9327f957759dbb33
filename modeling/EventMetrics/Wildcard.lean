namespace EventMetrics.Wildcard

def anyFrom : List Bool → List Bool
  | [] => []
  | b :: rest =>
    let later := anyFrom rest
    (b || later.headD false) :: later

/-- Which ends of the text a pattern matches, from the whole text down to the empty end. -/
def endsMatched (text : List Char) : List Char → List Bool
  | [] => text.map (fun _ => false) ++ [true]
  | '*' :: pattern => anyFrom (endsMatched text pattern)
  | p :: pattern =>
    List.zipWith (fun c rest => (p = '?' || p = c) && rest) text (endsMatched text pattern).tail ++
      [false]

def isMatch (pattern text : String) : Bool :=
  (endsMatched text.toList pattern.toList).headD false

end EventMetrics.Wildcard
