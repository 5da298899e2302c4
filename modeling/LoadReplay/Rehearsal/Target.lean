import LoadReplay.Span.Basic

/-!
# Scripted targets

A stand-in for the system under test.  For each path it has a list of responses, which it gives in
turn, again and again.
-/

namespace LoadReplay.Rehearsal

/-- How a scripted target answers in the end. -/
inductive Answer where
  | status (code : Nat)
  | failure
  /-- Never. -/
  | silence
  /-- By an error of the program. -/
  | crash
  deriving Repr, DecidableEq

/-- What a scripted target does with a request. -/
inductive Response where
  /-- Answers after some time. -/
  | answer (latency : Option Span) (answer : Answer)
  /-- Aborts the run. -/
  | abort
  deriving DecidableEq

/-- The responses that are given for some requests. -/
structure Track where
  /-- The path of the requests; an asterisk stands for all paths without a track of their own. -/
  path : String
  responses : List Response
  /-- How many of them were given. -/
  given : Nat

/-- A scripted target. -/
structure Target where
  tracks : List Track

/-- What is answered where nothing is scripted. -/
def fallback : Response := .answer none (.status 200)

/-- The path that stands for all paths. -/
def everyPath : String := "*"

/-- The next response of a track. -/
def Track.next (t : Track) : Response :=
  (t.responses[t.given % t.responses.length]?).getD fallback

/-- The track when one more response was given. -/
def Track.advance (t : Track) : Track := { t with given := t.given + 1 }

namespace Target

/-- The path of the track that a request takes its response from. -/
def trackPath (t : Target) (path : String) : String :=
  if t.tracks.any (·.path == path) then path else everyPath

/-- Gives the response to a request. -/
def respond (t : Target) (path : String) : Response × Target :=
  let path := t.trackPath path
  match t.tracks.find? (·.path == path) with
  | none => (fallback, t)
  | some track =>
    (track.next, ⟨t.tracks.map fun u => if u.path == path then u.advance else u⟩)

end Target

end LoadReplay.Rehearsal
