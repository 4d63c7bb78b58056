import WorkflowEngine.Proofs.Walk.Outcome

/-!
# What parts of a walk note

A part of a walk adds entries to the journal. `Tells` says what they are like however far the part
comes, and what more is known of them if it comes to a value; it passes through sequences, so that
what a walk notes is put together of what its steps note.
-/

namespace WorkflowEngine

namespace Walk

variable {α β : Type}

/-- What holds of no entries, and of entries together if it holds of the earlier and the later ones.
-/
structure Lasting (always : List Entry → Prop) : Prop where
  nil : always []
  append : ∀ {later earlier}, always earlier → always later → always (later ++ earlier)

theorem Lasting.of_forall (each : Entry → Prop) : Lasting fun entries => ∀ e ∈ entries, each e where
  nil := by simp
  append hearlier hlater e he := (List.mem_append.1 he).elim (hlater e) (hearlier e)

/-- In a state of a kind, a part adds entries of which something always holds. If it comes to a
value the state is of that kind again, and more is known of the entries. -/
def Tells (kind : RunState → Prop) (always : List Entry → Prop) (part : Walk α)
    (known : α → List Entry → Prop) : Prop :=
  ∀ run, kind run.state → ∃ news, (part.run run).2.world.journal = news ++ run.world.journal ∧
    always news ∧
    ∀ a, (part.run run).1 = some (.ok a) → kind (part.run run).2.state ∧ known a news

namespace Tells

variable {kind : RunState → Prop} {always : List Entry → Prop}

theorem mono {part : Walk α} {known known' : α → List Entry → Prop}
    (h : Tells kind always part known) (himp : ∀ a news, known a news → known' a news) :
    Tells kind always part known' := by
  intro run hkind
  obtain ⟨news, hjournal, halways, hended⟩ := h run hkind
  refine ⟨news, hjournal, halways, fun a ha => ?_⟩
  obtain ⟨hkind', hknown⟩ := hended a ha
  exact ⟨hkind', himp a news hknown⟩

theorem imp {always' : List Entry → Prop} {part : Walk α} {known : α → List Entry → Prop}
    (h : Tells kind always part known) (himp : ∀ news, always news → always' news) :
    Tells kind always' part known := by
  intro run hkind
  obtain ⟨news, hjournal, halways, hended⟩ := h run hkind
  exact ⟨news, hjournal, himp news halways, hended⟩

/-- A step that changes at most the state notes nothing. -/
theorem silent {part : Walk α} {known : α → List Entry → Prop} (lasting : Lasting always)
    (h : ∀ run, kind run.state → ∃ o s, part.run run = (some o, { run with state := s }) ∧ kind s ∧
      ∀ a, o = .ok a → known a []) : Tells kind always part known := by
  intro run hkind
  obtain ⟨o, s, hrun, hkind', hknown⟩ := h run hkind
  rw [hrun]
  exact ⟨[], rfl, lasting.nil, fun a ha => ⟨hkind', hknown a (Option.some.inj ha)⟩⟩

theorem pure {a : α} {known : α → List Entry → Prop} (lasting : Lasting always) (h : known a []) :
    Tells kind always (pure a : Walk α) known :=
  silent lasting fun run hkind => ⟨.ok a, run.state, rfl, hkind, fun _ heq => by cases heq; exact h⟩

theorem get (lasting : Lasting always) :
    Tells kind always (get : Walk Run) fun _ news => news = [] :=
  silent lasting fun run hkind => ⟨.ok run, run.state, rfl, hkind, fun _ _ => rfl⟩

theorem exhausted {known : α → List Entry → Prop} (lasting : Lasting always) :
    Tells kind always exhausted known :=
  fun _ _ => ⟨[], rfl, lasting.nil, fun _ h => by cases h⟩

theorem ofAttempt (lasting : Lasting always) (a : Attempt α) :
    Tells kind always (ofAttempt a) fun _ news => news = [] :=
  silent lasting fun run hkind => ⟨a, run.state, run_ofAttempt a run, hkind, fun _ _ => rfl⟩

theorem changeState (lasting : Lasting always) {g : RunState → RunState}
    (h : ∀ s, kind s → kind (g s)) : Tells kind always (changeState g) fun _ news => news = [] :=
  silent lasting fun run hkind => ⟨.ok (), g run.state, rfl, h _ hkind, fun _ _ => rfl⟩

theorem note {event : Event} (h : ∀ tag, always [⟨tag, event⟩]) :
    Tells kind always (note event) fun _ news => ∃ tag, news = [⟨tag, event⟩] :=
  fun run hkind => ⟨[⟨run.world.tag, event⟩], rfl, h _, fun _ _ => ⟨hkind, _, rfl⟩⟩

/-- What follows goes by the value of the first part and by what is known of its entries. -/
theorem bind {part : Walk α} {next : α → Walk β} {first : α → List Entry → Prop}
    {known : β → List Entry → Prop} (lasting : Lasting always) (h : Tells kind always part first)
    (hn : ∀ a earlier, first a earlier →
      Tells kind always (next a) fun b later => known b (later ++ earlier)) :
    Tells kind always (part >>= next) known := by
  intro run hkind
  obtain ⟨news, hjournal, halways, hended⟩ := h run hkind
  rw [run_bind]
  rcases hrun : part.run run with ⟨_ | f | a, run'⟩
  · rw [hrun] at hjournal
    exact ⟨news, hjournal, halways, fun _ h => by cases h⟩
  · rw [hrun] at hjournal
    exact ⟨news, hjournal, halways, fun _ h => by cases h⟩
  · rw [hrun] at hjournal hended
    obtain ⟨hkind', hfirst⟩ := hended a rfl
    obtain ⟨later, hjournal', halways', hended'⟩ := hn a news hfirst run' hkind'
    -- the journal has its latest entry first, so what is noted later stands in front
    refine ⟨later ++ news, ?_, lasting.append halways halways', hended'⟩
    rw [hjournal', hjournal, List.append_assoc]

/-- After a step that notes nothing the rest is told of as it is. -/
theorem after {part : Walk α} {next : α → Walk β} {known : β → List Entry → Prop}
    (lasting : Lasting always) (h : Tells kind always part fun _ news => news = [])
    (hn : ∀ a, Tells kind always (next a) known) : Tells kind always (part >>= next) known := by
  refine h.bind lasting fun a earlier hnone => ?_
  subst hnone
  simpa only [List.append_nil] using hn a

/-- What is put between two changes of the state is done in states of another kind. -/
theorem between {kind' : RunState → Prop} {part : Walk α} {known : α → List Entry → Prop}
    {g g' : RunState → RunState} (hg : ∀ s, kind s → kind' (g s)) (hg' : ∀ s, kind' s → kind (g' s))
    (h : Tells kind' always part known) :
    Tells kind always (Walk.between (Walk.changeState g) (Walk.changeState g') part) known := by
  intro run hkind
  obtain ⟨news, hjournal, halways, hended⟩ := h { run with state := g run.state } (hg _ hkind)
  simp only [Walk.between, run_bind, run_changeState, run_outcome]
  -- the second change is made whatever the part comes to, and notes nothing
  rcases hrun : part.run { run with state := g run.state } with ⟨_ | f | a, run'⟩
  · rw [hrun] at hjournal
    exact ⟨news, hjournal, halways, fun _ h => by cases h⟩
  · rw [hrun] at hjournal
    exact ⟨news, hjournal, halways, fun _ h => by cases h⟩
  · rw [hrun] at hjournal hended
    obtain ⟨hkind', hknown⟩ := hended a rfl
    exact ⟨news, hjournal, halways, fun b hb => by cases hb; exact ⟨hg' _ hkind', hknown⟩⟩

end Tells

end Walk

end WorkflowEngine
