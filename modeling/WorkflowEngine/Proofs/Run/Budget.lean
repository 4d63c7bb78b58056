import WorkflowEngine.Proofs.Run.Departure
import WorkflowEngine.Proofs.Walk.Recursion

/-!
# The budget of visits

A run with a budget ends, and until its budget is spent it is the run without one
(`courseOf_budget`). That it ends is seen on the recursion: each call within another has counted one
more visit, so that the budget bounds how deep calls can lie (`descend_ends`). That both runs stay
together is shown of all parts of a walk at once (`Paced`): from a common run they come to the same
outcome, or the budget is spent and the other run is on its way beyond it.
-/

namespace WorkflowEngine

/-- The results so far that are successes. -/
def Run.successes (run : Run) : List NodeResult := run.results.filter NodeResult.succeeded

/-- Results and visits have only been added to a run. -/
structure Run.Later (run run' : Run) : Prop where
  results : run.results <+: run'.results
  visits : run.visits ≤ run'.visits

namespace Run.Later

variable {r r' r'' : Run}

theorem refl (r : Run) : r.Later r := ⟨List.prefix_rfl, Nat.le_refl _⟩

theorem trans (h : r.Later r') (h' : r'.Later r'') : r.Later r'' :=
  ⟨h.results.trans h'.results, Nat.le_trans h.visits h'.visits⟩

theorem successes (h : r.Later r') : r.successes <+: r'.successes := h.results.filter _

end Run.Later

namespace Walk

variable {α β : Type}

/-! ## Parts that only add to a run -/

/-- A part that only adds to a run, however far it gets. -/
def Grows (part : Walk α) : Prop := ∀ r : Run, r.Later (part.run r).2

namespace Grows

/-- What follows a part only adds to what the part has left. -/
theorem onward (part : Walk α) {next : α → Walk β} (hnext : ∀ a, Grows (next a)) (r : Run) :
    (part.run r).2.Later ((part >>= next).run r).2 := by
  rw [run_bind]
  rcases part.run r with ⟨_ | f | a, r'⟩
  · exact .refl r'
  · exact .refl r'
  · exact hnext a r'

theorem bind {part : Walk α} {next : α → Walk β} (h : Grows part) (hnext : ∀ a, Grows (next a)) :
    Grows (part >>= next) :=
  fun r => (h r).trans (onward part hnext r)

theorem outcome {part : Walk α} (h : Grows part) : Grows (outcome part) :=
  fun r => run_outcome_snd part r ▸ h r

theorem sure {part : Walk α} (h : Sure part) : Grows part := by
  intro r
  obtain ⟨o, r', hrun, hresults, hvisits⟩ := h r
  rw [hrun]
  exact ⟨hresults, Nat.le_of_eq hvisits.symm⟩

theorem closed : Closed fun α (p : Unit → Walk α) => Grows (p ()) where
  sure := sure
  bind hp hnext := hp.bind hnext
  handle hp hnext _ := hp.outcome.bind hnext

end Grows

/-! ## Parts that end -/

/-- A part that comes to an outcome from every run of a kind, and leaves a run of that kind. -/
def Ends (I : Run → Prop) (part : Walk α) : Prop :=
  ∀ r, I r → ∃ o r', part.run r = (some o, r') ∧ I r'

namespace Ends

variable {I : Run → Prop}

theorem bind {part : Walk α} {next : α → Walk β} (h : Ends I part)
    (hnext : ∀ a, Ends I (next a)) : Ends I (part >>= next) := by
  intro r hr
  obtain ⟨o, r', hrun, hr'⟩ := h r hr
  rw [run_bind, hrun]
  cases o with
  | error f => exact ⟨.error f, r', rfl, hr'⟩
  | ok a => exact hnext a r' hr'

theorem outcome {part : Walk α} (h : Ends I part) : Ends I (outcome part) := by
  intro r hr
  obtain ⟨o, r', hrun, hr'⟩ := h r hr
  exact ⟨.ok o, r', by rw [run_outcome, hrun], hr'⟩

theorem forM {f : Key → Walk Unit} (h : ∀ id, Ends I (f id)) (ids : List Key) :
    Ends I (ids.forM f) := by
  induction ids with
  | nil => exact fun r hr => ⟨.ok (), r, rfl, hr⟩
  | cons id ids ih => exact (h id).bind fun _ => ih

end Ends

/-- A part that comes to an outcome from every run with so many visits, and takes none back. -/
def EndsFrom (visits : Nat) (part : Walk α) : Prop := Ends (fun r => visits ≤ r.visits) part

namespace EndsFrom

variable {visits : Nat}

theorem sure {part : Walk α} (h : Sure part) : EndsFrom visits part := by
  intro r hr
  obtain ⟨o, r', hrun, _, hvisits⟩ := h r
  exact ⟨o, r', hrun, Nat.le_trans hr (Nat.le_of_eq hvisits.symm)⟩

theorem closed : Closed fun α (p : Unit → Walk α) => EndsFrom visits (p ()) where
  sure := sure
  bind hp hnext := Ends.bind hp hnext
  handle hp hnext _ := Ends.bind (Ends.outcome hp) hnext

end EndsFrom

end Walk

namespace Plan

open Walk

variable (plan : Plan)

theorem countVisit_grows : Grows plan.countVisit := by
  intro r
  have hlater : r.Later r.visited := ⟨List.prefix_rfl, Nat.le_succ _⟩
  by_cases hallowed : plan.Allows r.visited.visits
  · rw [countVisit_allowed hallowed]
    exact hlater
  · obtain ⟨b, hlimited, hspent⟩ := not_allows.1 hallowed
    rw [countVisit_exceeded hlimited hspent]
    exact hlater

/-- However far a walk gets, it only adds to the run. -/
theorem walk_grows (fuel : Nat) (stack : List Key) : Grows (plan.walk fuel stack) := by
  induction fuel generalizing stack with
  | zero => exact fun r => Run.Later.refl r
  | succ fuel ih =>
    cases stack with
    | nil => exact fun r => Run.Later.refl r
    | cons id rest =>
      have hvisit := Grows.closed.visit plan (f := fun _ target => plan.walk fuel [target])
        (fun _ => plan.budget) (fun target => ih [target]) plan.countVisit_grows id
      exact Grows.bind hvisit fun next => ih (next ++ rest)

variable {plan}

/-- A visit by recursion ends without an execution, or executes its node and then goes on to what
that leads to. -/
theorem descend_succ_cases (named : plan.Named) (fuel : Nat) (id : Key) (r : Run) :
    (∃ o r', (plan.descend (fuel + 1) id).run r = (some o, r') ∧ r.visits ≤ r'.visits) ∨
    ∃ node bench, plan.nodes.lookup node.id = some node ∧ node.id = id ∧
      r.state.shouldSkip id = false ∧ plan.Allows r.visited.visits ∧
      r.toBench.Spares Event.isComment bench ∧
      (plan.descend (fuel + 1) id).run r = (plan.execute (plan.descend fuel) node >>= fun branch =>
        (plan.leadsTo node branch).forM (plan.descend fuel)).run (r.onBench bench).visited := by
  rw [descend_succ, run_bind]
  have hcase := visit_cases named (plan.descend fuel) id r
  generalize (plan.visit (plan.descend fuel) id).run r = res at hcase
  cases hcase with
  | @executed node bench known same due ready spares allowed =>
    refine .inr ⟨node, bench, known, same, due, allowed, spares, ?_⟩
    rw [← run_bind, bind_assoc]
    rfl
  | unready => exact .inl ⟨_, _, rfl, Nat.le_refl _⟩
  | exceeded => exact .inl ⟨_, _, rfl, Nat.le_succ _⟩
  | unknown | skipped | deferred => exact .inl ⟨.ok (), _, rfl, Nat.le_refl _⟩

/-- **The visit of a node ends if no more calls may lie within each other than visits are left.**
The calls within it are made with one visit more. -/
theorem descend_ends (named : plan.Named) {budget : Nat} (limited : plan.budget = some budget)
    (depth : Nat) : ∀ id, EndsFrom (budget + 1 - depth) (plan.descend (depth + 1) id) := by
  induction depth with
  | zero =>
    intro id r hr
    rcases descend_succ_cases named 0 id r with
      ⟨o, r', hrun, hvisits⟩ | ⟨_, _, _, _, _, allowed, _⟩
    · exact ⟨o, r', hrun, Nat.le_trans hr hvisits⟩
    · -- the budget is spent
      have hle : ((r.visits + 1 : Nat) : Int) ≤ budget := allowed budget limited
      omega
  | succ depth ih =>
    intro id r hr
    rcases descend_succ_cases named (depth + 1) id r with
      ⟨o, r', hrun, hvisits⟩ | ⟨node, bench, _, _, _, _, _, hrun⟩
    · exact ⟨o, r', hrun, Nat.le_trans hr hvisits⟩
    · have hvisited : budget + 1 - depth ≤ ((r.onBench bench).visited).visits := by
        change budget + 1 - depth ≤ r.visits + 1
        omega
      have hexecute :
          EndsFrom (budget + 1 - depth) (plan.execute (plan.descend (depth + 1)) node) :=
        EndsFrom.closed.execute plan (f := fun _ => plan.descend (depth + 1)) fun id _ => ih id
      have hall := Ends.bind hexecute fun branch => Ends.forM ih (plan.leadsTo node branch)
      obtain ⟨o, r', hends, hr'⟩ := hall _ hvisited
      exact ⟨o, r', hrun.trans hends, by omega⟩

/-- **A walk with a budget ends.** -/
theorem walk_ends (named : plan.Named) {budget : Nat} (limited : plan.budget = some budget)
    (id : Key) (run : Run) :
    ∃ fuel o run', (plan.walk fuel [id]).run run = (some o, run') := by
  have hends := descend_ends named limited (budget + 1) id
  obtain ⟨o, run', hrun, _⟩ := hends run (by omega)
  obtain ⟨fuel, hfuel⟩ := (walk_outcome_iff_descend plan id run run' o).2 ⟨_, hrun⟩
  exact ⟨fuel, o, run', hfuel⟩

end Plan

/-! ## Two walks side by side -/

namespace Walk

variable {α β : Type}

/-- How what a part with a budget comes to keeps to what the part without one comes to, from a
common run. -/
inductive Tracks (plan : Plan) (run : Run) :
    Option (Attempt α) × Run → Option (Attempt α) × Run → Prop where
  /-- Both come to the same, within the budget. -/
  | same {o run'} (within : plan.Allows run.visits → plan.Allows run'.visits) :
      Tracks plan run (some o, run') (some o, run')
  /-- The budget is spent, and the other part goes beyond it. -/
  | stopped {b run' other} (limited : plan.budget = some b) (spent : b < (run'.visits : Int))
      (beyond : b < (other.2.visits : Int)) (ahead : run'.successes <+: other.2.successes) :
      Tracks plan run (some (.error (.visitLimit b)), run') other
  /-- The steps are used up, and the other part goes further. -/
  | exhausted {run' other} (later : run'.Later other.2) : Tracks plan run (none, run') other

namespace Tracks

variable {plan : Plan} {run : Run}

/-- Keeping to each other from a run that is within the budget if an earlier one is. -/
theorem within {run' : Run} {res other : Option (Attempt α) × Run} (h : Tracks plan run' res other)
    (hwithin : plan.Allows run.visits → plan.Allows run'.visits) : Tracks plan run res other := by
  cases h with
  | same within => exact .same fun hrun => within (hwithin hrun)
  | stopped limited spent beyond ahead => exact .stopped limited spent beyond ahead
  | exhausted later => exact .exhausted later

/-- The other part may go further beyond the budget. -/
theorem further {b : Int} {run' between : Run} {other : Option (Attempt α) × Run}
    (h : between.Later other.2) (limited : plan.budget = some b) (spent : b < (run'.visits : Int))
    (beyond : b < (between.visits : Int)) (ahead : run'.successes <+: between.successes) :
    Tracks plan run (some (.error (.visitLimit b)), run') other :=
  .stopped limited spent (by have := h.visits; omega) (ahead.trans h.successes)

end Tracks

/-- A part with a budget keeps to one without, from every run, and that one only adds to the run. -/
structure Paced (plan : Plan) (limited free : Walk α) : Prop where
  tracks : ∀ run, Tracks plan run (limited.run run) (free.run run)
  grows : Grows free

namespace Paced

variable {plan : Plan} {p q : Walk α}

theorem sure {part : Walk α} (h : Sure part) : Paced plan part part where
  tracks run := by
    obtain ⟨o, run', hrun, _, hvisits⟩ := h run
    rw [hrun]
    exact .same (hvisits ▸ id)
  grows := .sure h

theorem bind {k l : α → Walk β} (h : Paced plan p q) (hnext : ∀ a, Paced plan (k a) (l a)) :
    Paced plan (p >>= k) (q >>= l) where
  tracks run := by
    have hlater := Grows.onward q (fun a => (hnext a).grows) run
    have hpart := h.tracks run
    rw [run_bind p]
    generalize hp : p.run run = res at hpart
    generalize hq : q.run run = other at hpart hlater
    cases hpart with
    | @same o run' within =>
      rw [run_bind, hq]
      cases o with
      | error f => exact .same within
      | ok a => exact ((hnext a).tracks run').within within
    | stopped limited spent beyond ahead => exact .further hlater limited spent beyond ahead
    | exhausted later => exact .exhausted (later.trans hlater)
  grows := h.grows.bind fun a => (hnext a).grows

/-- What follows a part that is caught passes on that the budget is spent, and adds no success to
the results. -/
theorem handle {k l : Attempt α → Walk β} (h : Paced plan p q)
    (hnext : ∀ o, Paced plan (k o) (l o)) (hpass : ∀ f, PassesOn f (k (.error f))) :
    Paced plan (outcome p >>= k) (outcome q >>= l) where
  tracks run := by
    have hlater := Grows.onward (outcome q) (fun o => (hnext o).grows) run
    rw [run_outcome_snd] at hlater
    have hpart := h.tracks run
    rw [run_bind (outcome p), run_outcome]
    generalize hp : p.run run = res at hpart
    generalize hq : q.run run = other at hpart hlater
    cases hpart with
    | @same o run' within =>
      rw [run_bind, run_outcome, hq]
      exact ((hnext o).tracks run').within within
    | @stopped b run' _ limited spent beyond ahead =>
      obtain ⟨run'', failed, hrun, hresults, hfailed, hvisits⟩ := hpass (.visitLimit b) run'
      have hsuccesses : run''.successes = run'.successes := by
        have hnone : failed.filter NodeResult.succeeded = [] :=
          List.filter_eq_nil_iff.2 fun r hr => by simp [hfailed r hr]
        rw [Run.successes, hresults, List.filter_append, hnone, List.append_nil, Run.successes]
      dsimp only
      rw [hrun]
      exact .further hlater limited (hvisits ▸ spent) beyond (hsuccesses ▸ ahead)
    | exhausted later => exact .exhausted (later.trans hlater)
  grows := h.grows.outcome.bind fun o => (hnext o).grows

theorem closed : Closed fun α (p : Bool → Walk α) => Paced plan (p true) (p false) where
  sure := sure
  bind hp hnext := hp.bind hnext
  handle hp hnext hpass := hp.handle hnext (hpass true)

end Paced

end Walk

namespace Plan

open Walk

variable (plan : Plan)

/-- The count of a visit spends the budget, or is within it. -/
theorem countVisit_paced : Paced plan plan.countVisit (plan.withBudget none).countVisit where
  tracks run := by
    have hfree : (plan.withBudget none).countVisit.run run = (some (.ok ()), run.visited) := rfl
    rw [hfree]
    by_cases hallowed : plan.Allows run.visited.visits
    · rw [countVisit_allowed hallowed]
      exact .same fun _ => hallowed
    · obtain ⟨b, hlimited, hspent⟩ := not_allows.1 hallowed
      rw [countVisit_exceeded hlimited hspent]
      exact .stopped hlimited hspent hspent List.prefix_rfl
  grows := countVisit_grows _

/-- **A walk with a budget keeps to the walk without one**, if that one is granted as many steps at
least. -/
theorem walk_paced (m : Nat) : ∀ {n : Nat}, m ≤ n → ∀ stack : List Key,
    Paced plan (plan.walk m stack) ((plan.withBudget none).walk n stack) := by
  induction m with
  | zero =>
    intro n _ stack
    exact ⟨fun run => .exhausted (walk_grows _ n stack run), walk_grows _ n stack⟩
  | succ m ih =>
    intro n hmn stack
    obtain ⟨n, rfl⟩ : ∃ n', n = n' + 1 := ⟨n - 1, by omega⟩
    have hle : m ≤ n := by omega
    cases stack with
    | nil => exact .sure (.pure ())
    | cons id rest =>
      have hvisit := Paced.closed.visit plan
        (f := fun i target => if i then plan.walk m [target]
          else (plan.withBudget none).walk n [target])
        (fun i => if i then plan.budget else none) (fun target => ih hle [target])
        plan.countVisit_paced id
      exact Paced.bind hvisit fun next => ih hle (next ++ rest)

/-- More steps only add to a walk without a budget. -/
theorem walk_later (unlimited : plan.budget = none) {m n : Nat} (hmn : m ≤ n) (stack : List Key)
    (run : Run) : ((plan.walk m stack).run run).2.Later ((plan.walk n stack).run run).2 := by
  have htracks := (plan.walk_paced m hmn stack).tracks run
  have hsame : plan.withBudget none = plan := by rw [← unlimited, withBudget]
  rw [hsame] at htracks
  generalize (plan.walk m stack).run run = res at htracks
  generalize (plan.walk n stack).run run = other at htracks
  cases htracks with
  | same => exact .refl _
  | stopped limited =>
    rw [unlimited] at limited
    cases limited
  | exhausted later => exact later

/-- **A walk with a budget ends: its budget is spent and the walk without one goes beyond it, or
both come to the same.** -/
theorem walk_budget (named : plan.Named) {budget : Nat} (limited : plan.budget = some budget)
    (id : Key) (run : Run) (within : run.visits ≤ budget) :
    ∃ enough o walked,
      (∀ fuel, enough ≤ fuel → (plan.walk fuel [id]).run run = (some o, walked)) ∧
      ((o = .error (.visitLimit budget) ∧ budget < walked.visits ∧ ∀ fuel, enough ≤ fuel →
          budget < (((plan.withBudget none).walk fuel [id]).run run).2.visits ∧
          walked.successes <+: (((plan.withBudget none).walk fuel [id]).run run).2.successes) ∨
        (walked.visits ≤ budget ∧ ∀ fuel, enough ≤ fuel →
          ((plan.withBudget none).walk fuel [id]).run run = (some o, walked))) := by
  obtain ⟨enough, o, walked, hrun⟩ := walk_ends named limited id run
  have hallows : plan.Allows run.visits := fun b hb => by
    rw [limited] at hb
    cases hb
    exact Int.ofNat_le.2 within
  have htracks : ∀ fuel, enough ≤ fuel → Tracks plan run (some o, walked)
      (((plan.withBudget none).walk fuel [id]).run run) := fun fuel hfuel =>
    hrun ▸ (plan.walk_paced enough hfuel [id]).tracks run
  refine ⟨enough, o, walked, fun fuel hfuel => plan.walk_refines hfuel [id] hrun, ?_⟩
  -- how many visits were made tells which of the two it is, however many steps are granted
  by_cases hspent : budget < walked.visits
  · have hstopped : ∀ fuel, enough ≤ fuel → o = .error (.visitLimit budget) ∧
        budget < (((plan.withBudget none).walk fuel [id]).run run).2.visits ∧
        walked.successes <+: (((plan.withBudget none).walk fuel [id]).run run).2.successes := by
      intro fuel hfuel
      have h := htracks fuel hfuel
      generalize ((plan.withBudget none).walk fuel [id]).run run = other at h
      cases h with
      | same hwithin =>
        have hle := hwithin hallows budget limited
        omega
      | stopped hlimited _ beyond ahead =>
        rw [limited] at hlimited
        cases hlimited
        exact ⟨rfl, Int.ofNat_lt.1 beyond, ahead⟩
    have hfirst := hstopped enough (Nat.le_refl _)
    exact .inl ⟨hfirst.1, hspent, fun fuel hfuel => (hstopped fuel hfuel).2⟩
  · refine .inr ⟨Nat.le_of_not_lt hspent, fun fuel hfuel => ?_⟩
    have h := htracks fuel hfuel
    generalize ((plan.withBudget none).walk fuel [id]).run run = other at h
    cases h with
    | same => rfl
    | stopped hlimited spent _ _ =>
      rw [limited] at hlimited
      cases hlimited
      exact absurd (Int.ofNat_lt.1 spent) hspent

/-! ## How many results are kept -/

/-- For every result that is kept, or still to be kept, a visit was allowed. -/
def Affords (before : Run) (s : Stage) : Prop :=
  ∃ visits, visits ≤ s.run.visits ∧ plan.Allows visits ∧
    s.run.results.length + s.place.calls.length ≤ before.results.length + visits

variable {plan}

theorem Affords.of_le {before : Run} {s t : Stage} (h : plan.Affords before s)
    (visits : s.run.visits ≤ t.run.visits) (kept : t.run.results.length + t.place.calls.length ≤
      s.run.results.length + s.place.calls.length) : plan.Affords before t := by
  obtain ⟨allowed, hvisits, hallows, hkept⟩ := h
  exact ⟨allowed, Nat.le_trans hvisits visits, hallows, Nat.le_trans kept hkept⟩

theorem Affords.move {before : Run} {s t : Stage} (hmove : plan.Move s t)
    (h : plan.Affords before s) : plan.Affords before t := by
  cases hmove with
  | @begin run replays node tag known due allowed =>
    obtain ⟨visits, hvisits, _, hkept⟩ := h
    refine ⟨run.visits + 1, Nat.le_refl _, allowed, ?_⟩
    simp only [Invocation.begun, Place.calls, List.length_cons] at hkept hvisits ⊢
    omega
  | exceed => exact h.of_le (Nat.le_succ _) (Nat.le_refl _)
  | @succeed run call | @fail run call =>
    refine h.of_le (Nat.le_refl _) ?_
    simp only [Invocation.succeeded, Invocation.failed, Place.calls, List.length_append,
      List.length_cons, List.length_nil]
    omega
  | abandon =>
    refine h.of_le (Nat.le_refl _) ?_
    simp only [Place.calls, List.length_cons]
    omega
  | _ => exact h.of_le (Nat.le_refl _) (Nat.le_refl _)

end Plan

/-! ## Two runs side by side -/

/-- A run that goes by another budget. -/
def Departure.withBudget (departure : Departure) (budget : Option Int) : Departure :=
  { departure with plan := departure.plan.withBudget budget }

/-- The budget is only handed on when a run is made ready. -/
theorem prepare_withBudget (registry : Registry) (budget : Option Int) (workflow : Value) :
    prepare registry budget workflow =
      (fun departure => departure.withBudget budget) <$> prepare registry none workflow := by
  simp only [prepare, map_bind]
  refine congrArg _ (funext fun graph => congrArg _ (funext fun _ => congrArg _ (funext ?_)))
  rintro (_ | trigger)
  · rfl
  · simp only [map_bind, map_pure]
    rfl

variable (registry : Registry) (workflow : Value) (run : Run)

/-- A run is not made ready, with the same failure whatever the budget, or it walks by the same plan
but for the budget. -/
theorem prepare_cases :
    ∃ bench, (∃ f, ∀ budget, (prepare registry budget workflow).run run.opened =
        (some (.error f), run.opened.onBench bench)) ∨
      ∃ departure : Departure, ∀ budget, (prepare registry budget workflow).run run.opened =
        (some (.ok (departure.withBudget budget)), run.opened.onBench bench) := by
  obtain ⟨o, bench, hrun, _⟩ := prepare_calm registry none workflow run.opened
  refine ⟨bench, ?_⟩
  cases o with
  | error f =>
    refine .inl ⟨f, fun budget => ?_⟩
    rw [prepare_withBudget, map_eq_pure_bind, Walk.run_bind, hrun]
  | ok departure =>
    refine .inr ⟨departure, fun budget => ?_⟩
    rw [prepare_withBudget, map_eq_pure_bind, Walk.run_bind, hrun]
    rfl

variable {registry workflow run} {budget : Option Int} {departure : Departure} {ready : Run}

/-- The results and the visits of a run are those of its walk. -/
theorem courseOf_books (h : (prepare registry budget workflow).run run.opened =
    (some (.ok departure), ready)) (fuel : Nat) :
    let course := (courseOf registry budget fuel workflow).run run
    let walk := (departure.plan.walk fuel [departure.start]).run ready
    course.2.results = walk.2.results ∧ course.2.visits = walk.2.visits := by
  intro course walk
  have hcourse : course = _ := courseOf_walk fuel h
  rw [hcourse]
  rcases hwalk : (departure.plan.walk fuel [departure.start]).run ready with ⟨_ | o, walked⟩
  · exact ⟨congrArg (·.2.results) hwalk.symm, congrArg (·.2.visits) hwalk.symm⟩
  · exact ⟨congrArg (·.2.results) hwalk.symm, congrArg (·.2.visits) hwalk.symm⟩

variable (registry workflow run)

/-- A run only adds to the results. -/
theorem courseOf_grows (budget : Option Int) (fuel : Nat) :
    run.results <+: ((courseOf registry budget fuel workflow).run run).2.results := by
  obtain ⟨bench, ⟨f, hprepare⟩ | ⟨departure, hprepare⟩⟩ := prepare_cases registry workflow run
  · rw [courseOf_error (hprepare budget)]
    exact List.prefix_rfl
  · have hgrows := (departure.withBudget budget).plan.walk_grows fuel [departure.start]
      (run.opened.onBench bench)
    rw [(courseOf_books (hprepare budget) fuel).1]
    exact hgrows.results

/-- With more steps a run without a budget makes no fewer visits. -/
theorem courseOf_visits_mono {m n : Nat} (hmn : m ≤ n) :
    ((courseOf registry none m workflow).run run).2.visits ≤
      ((courseOf registry none n workflow).run run).2.visits := by
  obtain ⟨bench, ⟨f, hprepare⟩ | ⟨departure, hprepare⟩⟩ := prepare_cases registry workflow run
  · refine Nat.le_of_eq ?_
    rw [courseOf_error (hprepare none), courseOf_error (hprepare none)]
  · rw [(courseOf_books (hprepare none) m).2, (courseOf_books (hprepare none) n).2]
    exact ((departure.withBudget none).plan.walk_later rfl hmn _ _).visits

/-- A run of a workflow with a budget keeps no more results than visits are in it. -/
theorem courseOf_affords (budget fuel : Nat) :
    ((courseOf registry (some budget) fuel workflow).run run).2.results.length ≤
      run.results.length + budget := by
  rcases courseOf_reaches registry (some budget) fuel workflow run with
    ⟨bench, hrun, _⟩ | ⟨departure, hof, replays, cause, hreaches⟩
  · rw [hrun]
    exact Nat.le_add_right _ _
  · have hstart : departure.plan.Affords run ⟨run.opened, ⟨.walking, []⟩, none⟩ :=
      ⟨0, Nat.le_refl _, fun b hb => by rw [hof.budget] at hb; cases hb; omega, Nat.le_refl _⟩
    obtain ⟨visits, _, hallows, hkept⟩ := hreaches.keeps (fun _ _ => Plan.Affords.move) hstart
    have hvisits : (visits : Int) ≤ budget := hallows budget hof.budget
    have hle := Nat.le_trans (Nat.le_add_right _ _) hkept
    exact Nat.le_trans hle (by omega)

/-- A run was given up because a visit was one too many. (A function from outside can fail with the
same text, but not after as many visits.) -/
def Overspent (budget : Nat) (outcome : Option (Attempt Unit) × Run) : Prop :=
  outcome.1 = some (.error (.visitLimit budget)) ∧ budget < outcome.2.visits

/-- **A run with a budget ends: it is given up for the budget and the run without one goes beyond
it, or both come to the same.** -/
theorem courseOf_paced (budget : Nat) :
    let free fuel := (courseOf registry none fuel workflow).run run
    ∃ enough o after,
      (∀ fuel, enough ≤ fuel →
        (courseOf registry (some budget) fuel workflow).run run = (some o, after)) ∧
      ((Overspent budget (some o, after) ∧ ∀ fuel, enough ≤ fuel →
          budget < (free fuel).2.visits ∧ after.successes <+: (free fuel).2.successes) ∨
        (after.visits ≤ budget ∧ ∀ fuel, enough ≤ fuel → free fuel = (some o, after))) := by
  intro free
  obtain ⟨bench, ⟨f, hprepare⟩ | ⟨departure, hprepare⟩⟩ := prepare_cases registry workflow run
  · exact ⟨0, .error f, run.opened.onBench bench, fun fuel _ => courseOf_error (hprepare _),
      .inr ⟨Nat.zero_le _, fun fuel _ => courseOf_error (hprepare _)⟩⟩
  · have hnamed := (prepare_of (hprepare (some budget))).named
    obtain ⟨enough, o, walked, hwalk, hcases⟩ := Plan.walk_budget _ hnamed rfl departure.start
      (run.opened.onBench bench) (Nat.zero_le _)
    have hlimited := fun fuel hfuel => courseOf_walked (hprepare (some budget)) (hwalk fuel hfuel)
    refine ⟨enough, o, departure.closed run.world.seconds walked, hlimited, ?_⟩
    rcases hcases with ⟨hlimit, hspent, hfree⟩ | ⟨hwithin, hfree⟩
    · refine .inl ⟨⟨congrArg some hlimit, hspent⟩, fun fuel hfuel => ?_⟩
      obtain ⟨hbeyond, hahead⟩ := hfree fuel hfuel
      obtain ⟨hresults, hvisits⟩ := courseOf_books (hprepare none) fuel
      refine ⟨hvisits ▸ hbeyond, ?_⟩
      rw [Run.successes, Run.successes, hresults]
      exact hahead
    · have hsame := fun fuel hfuel => courseOf_walked (hprepare none) (hfree fuel hfuel)
      exact .inr ⟨hwithin, hsame⟩

/-- **A run with a budget ends, and keeps no more results than visits are in it.** It is given up
for the budget exactly if the run without one makes more visits, or never ends; its successes are
then the first successes of that run. Otherwise both runs come to the same outcome with the same
results and the same state. -/
theorem courseOf_budget (registry : Registry) (budget : Nat) (workflow : Value) (run : Run) :
    let limited fuel := (courseOf registry (some budget) fuel workflow).run run
    let free fuel := (courseOf registry none fuel workflow).run run
    ∃ enough o after made, (∀ fuel, enough ≤ fuel → limited fuel = (some o, after)) ∧
      after.results = run.results ++ made ∧ made.length ≤ budget ∧
      (Overspent budget (some o, after) ↔
        (∃ fuel, budget < (free fuel).2.visits) ∨ ∀ fuel, (free fuel).1 = none) ∧
      (Overspent budget (some o, after) → ∀ fuel, enough ≤ fuel →
        ∃ others, (free fuel).2.results = run.results ++ others ∧
          made.filter NodeResult.succeeded <+: others.filter NodeResult.succeeded) ∧
      (¬ Overspent budget (some o, after) → ∀ fuel, enough ≤ fuel →
        free fuel = (some o, after)) := by
  intro limited free
  obtain ⟨enough, o, after, hlimited, hcases⟩ := courseOf_paced registry workflow run budget
  have hafter : ((courseOf registry (some budget) enough workflow).run run).2 = after := by
    rw [hlimited enough (Nat.le_refl _)]
  obtain ⟨made, hmade⟩ := hafter ▸ courseOf_grows registry workflow run (some budget) enough
  have hlength := hafter ▸ courseOf_affords registry workflow run budget enough
  rw [← hmade, List.length_append] at hlength
  refine ⟨enough, o, after, made, hlimited, hmade.symm, by omega, ?_⟩
  rcases hcases with ⟨hspent, hfree⟩ | ⟨hwithin, hfree⟩
  · refine ⟨iff_of_true hspent (.inl ⟨enough, (hfree enough (Nat.le_refl _)).1⟩),
      fun _ fuel hfuel => ?_, fun hnot => absurd hspent hnot⟩
    obtain ⟨others, hothers⟩ := courseOf_grows registry workflow run none fuel
    have hahead := (hfree fuel hfuel).2
    rw [Run.successes, Run.successes, ← hmade, ← hothers, List.filter_append,
      List.filter_append] at hahead
    exact ⟨others, hothers.symm, (List.prefix_append_right_inj _).1 hahead⟩
  · have hnot : ¬ Overspent budget (some o, after) := fun h => absurd h.2 (Nat.not_lt.2 hwithin)
    refine ⟨iff_of_false hnot ?_, fun h => absurd h hnot, fun _ => hfree⟩
    rintro (⟨fuel, hbeyond⟩ | hnever)
    · -- with more steps the visits would only be more, but then the run has ended within the budget
      have hmono := courseOf_visits_mono registry workflow run (Nat.le_max_left fuel enough)
      have hend : free (max fuel enough) = (some o, after) := hfree _ (Nat.le_max_right fuel enough)
      rw [show (courseOf registry none (max fuel enough) workflow).run run = _ from hend] at hmono
      exact absurd (Nat.lt_of_lt_of_le hbeyond hmono) (Nat.not_lt.2 hwithin)
    · have hends := hnever enough
      rw [show free enough = _ from hfree enough (Nat.le_refl _)] at hends
      cases hends

end WorkflowEngine
