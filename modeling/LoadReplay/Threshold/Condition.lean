import LoadReplay.Metric.Selection
import LoadReplay.Number.Reader

/-!
# Conditions

A condition compares one figure of a selection with a bound, as in `p(95) < 15000`.

A condition text is cut at a comparator.  Each of the six is looked for on its own, and the one that
is found first counts; where two begin at the same place, as in `<=`, it is the longer one.  What
stands before is the statistic, what stands behind is the bound.
-/

namespace LoadReplay

/-- A figure computed over the selected samples.  Latencies are in milliseconds. -/
inductive Statistic where
  | percentile (p : Float)
  | average
  | median
  | least
  | greatest
  /-- How many samples were selected. -/
  | count
  /-- The part of them that failed. -/
  | failureRate

/-- How a figure and a bound are compared. -/
inductive Comparator where
  | lt | le | gt | ge | eq | ne
  deriving Repr, DecidableEq

/-- A comparison of a statistic with a bound. -/
structure Condition where
  statistic : Statistic
  comparator : Comparator
  bound : Float

/-- Why a text is not a condition. -/
inductive Condition.ParseError where
  | missingComparator (text : String)
  | unknownStatistic (text : String)
  | invalidPercentile (text : String)
  | invalidBound (text : String)
  deriving Repr, DecidableEq

/-- The text of an error. -/
def Condition.ParseError.message : ParseError → String
  | .missingComparator text =>
    s!"Threshold condition [{text}] has no comparator, expected one of <, <=, >, >=, ==, !="
  | .unknownStatistic text =>
    s!"Unknown threshold statistic [{text}], expected p(N), avg, med, min, max, count or rate"
  | .invalidPercentile text => s!"Invalid percentile [{text}], must be a number between 0 and 100"
  | .invalidBound text => s!"Invalid threshold bound [{text}]"

namespace Statistic

/-- The figure over a selection, where `ranking` says at which place a percentile is. -/
def computeBy (ranking : Nat → Float → Metric.Place Float) (sel : Metric.Selection) :
    Statistic → Option Float
  | .percentile p => sel.percentileBy ranking p
  | .average => sel.mean
  | .median => sel.percentileBy ranking 50.0
  | .least => sel.min
  | .greatest => sel.max
  | .count => some (Number.ofCount sel.count)
  | .failureRate => sel.failureRate

/-- The statistics that are written as a word. -/
def words : List (String × Statistic) :=
  [("avg", .average), ("med", .median), ("min", .least), ("max", .greatest), ("count", .count),
    ("rate", .failureRate)]

/-- The written form of a statistic. -/
def text : Statistic → String
  | .percentile p => "p(" ++ Number.plainText p ++ ")"
  | .average => "avg"
  | .median => "med"
  | .least => "min"
  | .greatest => "max"
  | .count => "count"
  | .failureRate => "rate"

/-- Whether a number is a percentile. -/
def isPercentile (p : Float) : Bool := 0.0 ≤ p && p ≤ 100.0

/-- What stands between `p(` and `)`. -/
def argument? (s : List Char) : Option (List Char) :=
  (Text.stripStart? "p(".toList s).bind (Text.stripEnd? ")".toList)

/-- Reads a statistic.  Blanks around it and around the number of a percentile do not count. -/
def readChars (s : List Char) : Except Condition.ParseError Statistic :=
  let s := Text.trim s
  match words.lookup (String.ofList s) with
  | some statistic => .ok statistic
  | none =>
    match argument? s with
    | none => .error (.unknownStatistic (String.ofList s))
    | some inner =>
      match (Number.readNumber (Text.trim inner)).filter isPercentile with
      | some p => .ok (.percentile p)
      | none => .error (.invalidPercentile (String.ofList inner))

/-- Reads a statistic. -/
def read (s : String) : Except Condition.ParseError Statistic := readChars s.toList

end Statistic

namespace Comparator

/-- Whether the comparison holds.  No comparison but `ne` holds of a NaN. -/
def holds (observed bound : Float) : Comparator → Bool
  | .lt => observed < bound
  | .le => observed ≤ bound
  | .gt => bound < observed
  | .ge => bound ≤ observed
  | .eq => observed == bound
  | .ne => observed != bound

/-- The written form of a comparator. -/
def symbol : Comparator → String
  | .lt => "<"
  | .le => "<="
  | .gt => ">"
  | .ge => ">="
  | .eq => "=="
  | .ne => "!="

/-- The comparators, those of two characters first. -/
def all : List Comparator := [.le, .ge, .eq, .ne, .lt, .gt]

/-- A comparator in a text, with what stands before it and what stands behind it. -/
structure Cut where
  before : List Char
  comparator : Comparator
  behind : List Char

namespace Cut

/-- Whether a cut is at an earlier place than another, or at the same place with a longer
comparator. -/
def Precedes (a b : Cut) : Prop :=
  a.before.length < b.before.length ∨
    a.before.length = b.before.length ∧ b.comparator.symbol.length < a.comparator.symbol.length

instance : DecidableRel Precedes := fun _ _ => inferInstanceAs (Decidable (_ ∨ _))

/-- The first of those cuts that no other precedes. -/
def foremost : List Cut → Option Cut
  | [] => none
  | cut :: rest =>
    match foremost rest with
    | some other => if other.Precedes cut then some other else some cut
    | none => some cut

end Cut

/-- A text cut where a comparator is in it for the first time. -/
def cutAt (s : List Char) (op : Comparator) : Option Cut :=
  (Text.breakAt op.symbol.toList s).map fun p => ⟨p.1, op, p.2⟩

/-- A text cut at the foremost of its comparators. -/
def split (s : List Char) : Option Cut := Cut.foremost (all.filterMap (cutAt s))

end Comparator

namespace Condition

/-- Reads a condition. -/
def readChars (s : List Char) : Except ParseError Condition := do
  let some cut := Comparator.split s
    | .error (.missingComparator (String.ofList s))
  let statistic ← Statistic.readChars cut.before
  let behind := Text.trim cut.behind
  let some bound := Number.readNumber behind
    | .error (.invalidBound (String.ofList behind))
  return { statistic, comparator := cut.comparator, bound }

/-- Reads a condition. -/
def read (s : String) : Except ParseError Condition := readChars s.toList

/-- The written form of a condition. -/
def text (c : Condition) : String :=
  c.statistic.text ++ " " ++ c.comparator.symbol ++ " " ++ Number.plainText c.bound

/-- Whether two statistics are the same, percentiles compared as numbers. -/
def sameStatistic : Statistic → Statistic → Bool
  | .percentile p, .percentile q => p == q
  | .average, .average => true
  | .median, .median => true
  | .least, .least => true
  | .greatest, .greatest => true
  | .count, .count => true
  | .failureRate, .failureRate => true
  | _, _ => false

/-- Whether two conditions are the same, numbers compared as numbers: no condition with a NaN is the
same as any. -/
def same (a b : Condition) : Bool :=
  sameStatistic a.statistic b.statistic && a.comparator == b.comparator && a.bound == b.bound

end Condition

end LoadReplay
