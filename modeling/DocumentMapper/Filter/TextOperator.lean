import DocumentMapper.Json.Basic
import DocumentMapper.Pattern.Reader

/-!
# Text operators

Operators that compare texts become patterns. The operand is taken literally, except by the
`regex` operators, which take a pattern; the variants that begin with `i` ignore case.
-/

namespace DocumentMapper

/-- The operators that compare texts. -/
def textOperators : List String :=
  ["contains", "icontains", "startswith", "istartswith", "endswith", "iendswith", "exact", "iexact",
    "regex", "iregex", "wholeword", "iwholeword"]

/-- Whether an operator compares texts. -/
def isTextOperator (op : String) : Bool :=
  textOperators.contains op

/-- The pattern of an operator without its mark for case. -/
def patternFor (base operand : String) : String :=
  if base = "regex" then operand
  else
    let literal := Pattern.escape operand
    if base = "startswith" then "^" ++ literal
    else if base = "endswith" then literal ++ "$"
    else if base = "exact" then "^" ++ literal ++ "$"
    else if base = "wholeword" then "\\b" ++ literal ++ "\\b"
    else literal

/-- The condition that a text operator stands for. -/
def textCondition (op operand : String) : Json :=
  let (anyCase, base) : Bool × String :=
    match op.toList with
    | 'i' :: rest => (true, String.ofList rest)
    | _ => (false, op)
  let pattern : String × Json := ("$regex", .string (patternFor base operand))
  .object (if anyCase then [pattern, ("$options", .string "i")] else [pattern])

end DocumentMapper
