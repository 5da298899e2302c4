import LoadReplay.Span.Basic
import LoadReplay.Tag.Basic

/-!
# Samples

What is measured of one request.
-/

namespace LoadReplay

/-- Whether a request was answered as expected. -/
inductive Outcome where
  | success
  | failure
  deriving Repr, DecidableEq

/-- Whether the outcome is a success. -/
def Outcome.isSuccess : Outcome → Bool
  | .success => true
  | .failure => false

/-- One measured request. -/
structure Sample where
  tags : TagSet
  /-- When the request was sent. -/
  sentAt : Span
  latency : Span
  outcome : Outcome
  /-- The status of the response, if there was one. -/
  status : Option Nat

/-- The latency in milliseconds. -/
def Sample.latencyMs (s : Sample) : Float := s.latency.toMillis

end LoadReplay
