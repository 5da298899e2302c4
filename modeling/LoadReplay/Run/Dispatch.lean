import LoadReplay.Span.Text

/-!
# Answers to requests

A request is answered with the status of the response or with an error, or it is not answered at
all.  With a time limit, what is not answered becomes an error.
-/

namespace LoadReplay

/-- Why there is no response to a request. -/
inductive DispatchError where
  | refused (message : String)
  | timedOut (url : String) (limit : Span)
  deriving Repr, DecidableEq

/-- The text of an error. -/
def DispatchError.message : DispatchError → String
  | .refused message => message
  | .timedOut url limit => "Request to " ++ url ++ " timed out after " ++ limit.text

/-- A request that was sent. -/
inductive Pending where
  /-- Answered at once. -/
  | done (result : Except DispatchError Nat)
  /-- Never answered. -/
  | never

/-- The same request with a time limit.  An answer that is there counts, whatever the limit. -/
def Pending.within (p : Pending) (limit : Span) (url : String) : Pending :=
  match p with
  | .done result => .done result
  | .never => .done (.error (.timedOut url limit))

end LoadReplay
