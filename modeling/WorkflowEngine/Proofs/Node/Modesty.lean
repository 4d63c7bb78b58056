import Mathlib.Order.Defs.Unbundled
import WorkflowEngine.Engine

/-!
# What nodes leave alone

A node acts on the world and on the state of the run, but of the state the nodes of the library
write nothing but the variables: the outputs, the executed nodes, the replays and the output before
are the engine's (`execute_modest`). The variables are written by nodes that set them, under the
names of their entries, and by no others (`execute_keeps`). In the journal they leave remarks; that
a node is invoked, has failed or has succeeded is for the engine to note. In the store they keep data
values and touch no record. Modesty passes through sequences, so each action is followed along its
own steps.
-/

namespace WorkflowEngine

/-- Whether an event is no stage of an invocation, which begins, may replay, and fails or
succeeds. -/
def Event.isRemark : Event → Bool
  | .invoked _ _ _ _ | .loopBegan _ _ _ | .failed _ _ _ _ | .succeeded _ _ _ _ _ _ => false
  | _ => true

/-- Whether an event tells of no step that the walk takes with a node: that it is passed over, left,
invoked or replayed, or has failed or succeeded. -/
def Event.isComment : Event → Bool
  | .note _ _ _ | .runBegan _ | .runEnded _ _ _ | .unknownType _ _ | .mergeWaits _ _ => true
  | _ => false

theorem Event.isRemark_of_isComment {event : Event} (h : event.isComment = true) :
    event.isRemark = true := by
  cases event <;> first | rfl | cases h

/-- Nothing but events of a kind has been added to the journal. -/
def World.Adds (kind : Event → Bool) (w w' : World) : Prop :=
  ∃ entries, w'.journal = entries ++ w.journal ∧ ∀ e ∈ entries, kind e.event = true

namespace World.Adds

variable {kind kind' : Event → Bool} {w w' w'' : World}

theorem of_eq (h : w'.journal = w.journal) : w.Adds kind w' :=
  ⟨[], by simpa using h, by simp⟩

theorem trans (h : w.Adds kind w') (h' : w'.Adds kind w'') : w.Adds kind w'' := by
  obtain ⟨es, he, hr⟩ := h
  obtain ⟨es', he', hr'⟩ := h'
  refine ⟨es' ++ es, by rw [he', he, List.append_assoc], fun e hmem => ?_⟩
  rcases List.mem_append.1 hmem with hmem | hmem
  · exact hr' e hmem
  · exact hr e hmem

theorem note {event : Event} (h : kind event = true) : w.Adds kind (w.note event) :=
  ⟨[⟨w.tag, event⟩], rfl, by simpa using h⟩

theorem mono (h : w.Adds kind w') (hkind : ∀ {event}, kind event = true → kind' event = true) :
    w.Adds kind' w' := by
  obtain ⟨entries, hjournal, hentries⟩ := h
  exact ⟨entries, hjournal, fun e he => hkind (hentries e he)⟩

end World.Adds

/-- Two worlds have the same store in use, at the same place, and the files of the local one are the
same, those under some paths apart. -/
structure World.SameFilesBut (w : World) (paths : List String) (w' : World) : Prop where
  backend : w'.backend = w.backend
  place : w'.settings = w.settings ∧ w'.workingFolder = w.workingFolder
  files : ∀ path, path ∉ paths → w'.files.lookup path = w.files.lookup path

namespace World.SameFilesBut

variable {w w' w'' : World} {paths paths' : List String}

theorem of_eq (backend : w'.backend = w.backend) (files : w'.files = w.files)
    (place : w'.settings = w.settings ∧ w'.workingFolder = w.workingFolder := by exact ⟨rfl, rfl⟩) :
    w.SameFilesBut paths w' :=
  ⟨backend, place, fun _ _ => by rw [files]⟩

theorem trans (h : w.SameFilesBut paths w') (h' : w'.SameFilesBut paths w'') :
    w.SameFilesBut paths w'' where
  backend := h'.backend.trans h.backend
  place := ⟨h'.place.1.trans h.place.1, h'.place.2.trans h.place.2⟩
  files path hpath := (h'.files path hpath).trans (h.files path hpath)

theorem mono (h : w.SameFilesBut paths w') (hpaths : paths ⊆ paths') : w.SameFilesBut paths' w' :=
  ⟨h.backend, h.place, fun path hpath => h.files path fun hmem => hpath (hpaths hmem)⟩

theorem put (w : World) (path : String) (file : File) :
    w.SameFilesBut [path] { w with files := Entries.put path file w.files } := by
  refine ⟨rfl, ⟨rfl, rfl⟩, fun other hother => ?_⟩
  rw [Entries.lookup_put, if_neg (by simpa using hother)]

end World.SameFilesBut

/-- No record has been given an identifier, and of the files at most that of the data values has been
written. -/
structure World.WritesData (w w' : World) : Prop where
  issued : w'.issued = w.issued
  files : w'.files = w.files ∨ ∃ file, w'.files = Entries.put LocalStore.dataFile file w.files

namespace World.WritesData

variable {w w' w'' : World}

theorem of_eq (issued : w'.issued = w.issued) (files : w'.files = w.files) : w.WritesData w' :=
  ⟨issued, .inl files⟩

theorem trans (h : w.WritesData w') (h' : w'.WritesData w'') : w.WritesData w'' where
  issued := h'.issued.trans h.issued
  files := by
    rcases h'.files with hfiles' | ⟨file', hfiles'⟩
    · rw [hfiles']
      exact h.files
    · rcases h.files with hfiles | ⟨file, hfiles⟩
      · exact .inr ⟨file', by rw [hfiles', hfiles]⟩
      · exact .inr ⟨file', by rw [hfiles', hfiles, Entries.put_put]⟩

end World.WritesData

/-- Of the world nothing has changed that is the engine's or a record: only events of a kind are new
in the journal, and of the files at most that of the data values differs. -/
structure World.Spares (kind : Event → Bool) (w w' : World) : Prop where
  journal : w.Adds kind w'
  store : w.SameFilesBut [LocalStore.dataFile] w'
  data : w.WritesData w'

/-- Of the world nothing has changed that is the engine's or a record, and only remarks are new. -/
abbrev World.Spared : World → World → Prop := World.Spares Event.isRemark

namespace World.Spares

variable {kind : Event → Bool} {w w' : World}

theorem of_eq (journal : w'.journal = w.journal) (backend : w'.backend = w.backend)
    (files : w'.files = w.files)
    (place : w'.settings = w.settings ∧ w'.workingFolder = w.workingFolder := by exact ⟨rfl, rfl⟩)
    (issued : w'.issued = w.issued := by exact rfl) : w.Spares kind w' :=
  ⟨.of_eq journal, .of_eq backend files place, .of_eq issued files⟩

theorem note {event : Event} (h : kind event = true) : w.Spares kind (w.note event) :=
  ⟨.note h, .of_eq rfl rfl, .of_eq rfl rfl⟩

end World.Spares

instance (kind : Event → Bool) : IsPreorder World (World.Spares kind) where
  refl _ := .of_eq rfl rfl rfl
  trans _ _ _ h h' :=
    ⟨h.journal.trans h'.journal, h.store.trans h'.store, h.data.trans h'.data⟩

/-- Nothing but the variables has changed. -/
def RunState.Revised (s s' : RunState) : Prop := ∃ vars, s' = { s with vars := vars }

theorem RunState.Revised.shouldSkip_eq {s s' : RunState} (h : s.Revised s') (id : Key) :
    s'.shouldSkip id = s.shouldSkip id := by
  obtain ⟨vars, rfl⟩ := h
  rfl

/-- Nothing has changed that is the engine's: of the state at most the variables, in the journal
only events of a kind are new, and of the files at most that of the data values differs. -/
structure Bench.Spares (kind : Event → Bool) (b b' : Bench) : Prop where
  state : b.state.Revised b'.state
  world : b.world.Spares kind b'.world

/-- Nothing has changed that is the engine's, and only remarks are new in the journal. -/
abbrev Bench.Spared : Bench → Bench → Prop := Bench.Spares Event.isRemark

theorem Bench.Spares.trans {kind : Event → Bool} {b b' b'' : Bench} (h : b.Spares kind b')
    (h' : b'.Spares kind b'') : b.Spares kind b'' := by
  obtain ⟨vars, hv⟩ := h.state
  obtain ⟨vars', hv'⟩ := h'.state
  exact ⟨⟨vars', by rw [hv', hv]⟩, trans_of (World.Spares kind) h.world h'.world⟩

instance (kind : Event → Bool) : IsPreorder Bench (Bench.Spares kind) where
  refl b := ⟨⟨b.state.vars, rfl⟩, refl_of (World.Spares kind) _⟩
  trans _ _ _ := Bench.Spares.trans

/-- The state has not changed at all, and of the world nothing that is the engine's. -/
structure Bench.Still (kind : Event → Bool) (b b' : Bench) : Prop where
  state : b'.state = b.state
  world : b.world.Spares kind b'.world

instance (kind : Event → Bool) : IsPreorder Bench (Bench.Still kind) where
  refl _ := ⟨rfl, refl_of (World.Spares kind) _⟩
  trans _ _ _ h h' := ⟨h'.state.trans h.state, trans_of (World.Spares kind) h.world h'.world⟩

theorem Bench.Still.spares {kind : Event → Bool} {b b' : Bench} (h : b.Still kind b') :
    b.Spares kind b' :=
  ⟨⟨b.state.vars, h.state⟩, h.world⟩

/-- Comments are remarks. -/
theorem Bench.Spares.spared {b b' : Bench} (h : b.Spares Event.isComment b') : b.Spared b' :=
  ⟨h.state, h.world.journal.mono Event.isRemark_of_isComment, h.world.store, h.world.data⟩

/-! ## Computations that keep a relation -/

/-- From wherever the computation begins, it ends in a related place, given up or not. -/
def Keeps {σ α : Type} (R : σ → σ → Prop) (part : ExceptT Failure (StateM σ) α) : Prop :=
  ∀ s, R s (StateT.run (ExceptT.run part) s).2

namespace Keeps

variable {σ α β : Type} {R : σ → σ → Prop} [IsPreorder σ R]

theorem pure (a : α) : Keeps R (pure a : ExceptT Failure (StateM σ) α) := by
  intro s
  exact refl_of R s

theorem throw (f : Failure) : Keeps R (throw f : ExceptT Failure (StateM σ) α) := by
  intro s
  exact refl_of R s

theorem get : Keeps R (get : ExceptT Failure (StateM σ) σ) := by
  intro s
  exact refl_of R s

omit [IsPreorder σ R] in
theorem modify {g : σ → σ} (h : ∀ s, R s (g s)) :
    Keeps R (modify g : ExceptT Failure (StateM σ) PUnit) := by
  intro s
  exact h s

omit [IsPreorder σ R] in
theorem run_bind (part : ExceptT Failure (StateM σ) α) (next : α → ExceptT Failure (StateM σ) β)
    (s : σ) : StateT.run (ExceptT.run (part >>= next)) s =
      match StateT.run (ExceptT.run part) s with
      | (.ok a, s') => StateT.run (ExceptT.run (next a)) s'
      | (.error f, s') => (.error f, s') := by
  rw [ExceptT.run_bind, StateT.run_bind]
  -- a sequence in the state monad is by definition a match on the pair that its first part gives
  change (match StateT.run (ExceptT.run part) s with | (a, s') => _) = _
  rcases StateT.run (ExceptT.run part) s with ⟨_ | _, _⟩ <;> rfl

omit [IsPreorder σ R] in
theorem mono {R' : σ → σ → Prop} {part : ExceptT Failure (StateM σ) α} (h : Keeps R part)
    (himp : ∀ s s', R s s' → R' s s') : Keeps R' part :=
  fun s => himp s _ (h s)

/-- A sequence keeps what its steps keep, wherever it is given up. -/
theorem bind {part : ExceptT Failure (StateM σ) α} {next : α → ExceptT Failure (StateM σ) β}
    (h : Keeps R part) (hn : ∀ a, Keeps R (next a)) : Keeps R (part >>= next) := by
  intro s
  have hs := h s
  rw [run_bind]
  rcases hr : StateT.run (ExceptT.run part) s with ⟨f | a, s'⟩
  · rw [hr] at hs
    exact hs
  · rw [hr] at hs
    exact trans_of R hs (hn a s')

end Keeps

/-! ## Work in the world -/

/-- Work that adds nothing but comments to the journal and changes no record. -/
abbrev Work.Modest {α : Type} (work : Work α) : Prop :=
  Keeps (World.Spares Event.isComment) work

namespace Work

variable {α : Type}

theorem ofAttempt_modest (a : Attempt α) : Modest (ofAttempt a) := by
  cases a with
  | ok a => exact Keeps.pure a
  | error f => exact Keeps.throw f

theorem note_modest {event : Event} (h : event.isComment = true) : Modest (note event) :=
  Keeps.modify fun _ => .note h

theorem remark_modest (level : Level) (source message : String) :
    Modest (remark level source message) :=
  note_modest rfl

theorem ofStep_modest {step : World → Attempt α × World}
    (h : ∀ w : World, w.Spares Event.isComment (step w).2) : Modest (ofStep step) := by
  intro w
  exact trans_of (World.Spares _) (h w) (ofAttempt_modest (step w).1 (step w).2)

end Work

namespace LocalStore

open Work

theorem checkName_modest (path : String) : Modest (checkName path) := by
  simp only [checkName]
  split
  · exact Keeps.throw _
  · exact Keeps.pure _

theorem readFile_modest (path : String) : Modest (readFile path) := by
  refine Keeps.bind (checkName_modest path) fun _ => Keeps.bind Keeps.get fun w => ?_
  split
  · exact Keeps.pure _
  · split
    · exact Keeps.throw _
    · split
      · exact Keeps.pure _
      · split
        · exact Keeps.throw _
        · exact Keeps.bind Keeps.get fun _ => Keeps.bind (remark_modest _ _ _) fun _ => Keeps.pure _

theorem checkFolder_modest (path : String) : Modest (checkFolder path) := by
  simp only [checkFolder]
  split
  · exact Keeps.throw _
  · exact Keeps.pure _

theorem writeData_modest (v : Value) : Modest (writeFile dataFile v) := by
  refine Keeps.bind (checkName_modest dataFile) fun _ => ?_
  refine Keeps.bind (checkFolder_modest dataFile) fun _ => ?_
  split
  · exact Keeps.modify fun w => ⟨.of_eq rfl, .put w dataFile _, rfl, .inr ⟨_, rfl⟩⟩
  · refine Keeps.bind (Keeps.modify fun w => ?_) fun _ => Keeps.throw _
    exact ⟨.of_eq rfl, .put w dataFile _, rfl, .inr ⟨_, rfl⟩⟩

theorem setData_modest (key value : Value) : Modest (setData key value) := by
  refine Keeps.bind (Keeps.bind (readFile_modest dataFile) fun _ => Keeps.pure _) fun data => ?_
  refine Keeps.bind (ofAttempt_modest _) fun data => ?_
  exact Keeps.bind (writeData_modest data) fun _ => Keeps.pure _

end LocalStore

namespace HostedStore

open Work

theorem sendAll_modest (calls : List Call) : Modest (sendAll calls) := by
  induction calls with
  | nil => exact Keeps.pure _
  | cons call rest ih =>
    refine Keeps.bind (Keeps.modify fun w => .of_eq rfl rfl rfl) fun _ => ?_
    refine Keeps.bind Keeps.get fun w => ?_
    split
    · split
      · exact Keeps.throw _
      · exact ih
    · exact ih

theorem setData_modest (key value : Value) : Modest (setData key value) := by
  refine Keeps.bind ?_ fun _ => Keeps.pure _
  exact Keeps.bind (sendAll_modest _) fun _ => Keeps.bind Keeps.get fun _ => Keeps.pure _

end HostedStore

theorem Store.setData_modest (key value : Value) : Work.Modest (setData key value) := by
  refine Keeps.bind Keeps.get fun w => ?_
  split
  · exact LocalStore.setData_modest key value
  · exact HostedStore.setData_modest key value

/-! ## Actions of nodes -/

/-- An action that spares what is the engine's, and adds nothing but comments to the journal. -/
abbrev Act.Modest {α : Type} (act : Act α) : Prop := Keeps (Bench.Spares Event.isComment) act

/-- A modest action that leaves the variables alone as well. -/
abbrev Act.Still {α : Type} (act : Act α) : Prop := Keeps (Bench.Still Event.isComment) act

namespace Act

variable {α β : Type}

theorem runOn_bind_of_ok {α γ : Type} {act : Act α} {next : α → Act γ} {bench bench' : Bench}
    {a : α} (h : act.runOn bench = (.ok a, bench')) :
    (act >>= next).runOn bench = (next a).runOn bench' := by
  rw [runOn, Keeps.run_bind]
  rw [runOn] at h
  rw [h]
  rfl

theorem runOn_state_bind {γ : Type} (next : RunState → Act γ) (bench : Bench) :
    (state >>= next).runOn bench = (next bench.state).runOn bench :=
  runOn_bind_of_ok rfl

theorem runOn_get_bind {γ : Type} (next : Bench → Act γ) (bench : Bench) :
    (get >>= next).runOn bench = (next bench).runOn bench :=
  runOn_bind_of_ok rfl

theorem runOn_ofAttempt_bind {α γ : Type} (a : α) (next : α → Act γ) (bench : Bench) :
    (ofAttempt (.ok a) >>= next).runOn bench = (next a).runOn bench :=
  runOn_bind_of_ok rfl

theorem Still.modest {act : Act α} (h : act.Still) : act.Modest :=
  h.mono fun _ _ => Bench.Still.spares

theorem ofAttempt_keeps {R : Bench → Bench → Prop} [IsPreorder Bench R] (a : Attempt α) :
    Keeps R (ofAttempt a) := by
  cases a with
  | ok a => exact Keeps.pure a
  | error f => exact Keeps.throw f

/-- What follows an attempt has to be followed for the value that it comes to. -/
theorem ofAttempt_bind_keeps {R : Bench → Bench → Prop} [IsPreorder Bench R] {a : Attempt α}
    {next : α → Act β} (h : ∀ v, a = .ok v → Keeps R (next v)) :
    Keeps R (ofAttempt a >>= next) := by
  intro b
  rw [Keeps.run_bind]
  cases a with
  | ok v => exact h v rfl b
  | error f => exact refl_of R b

theorem state_still : Still state := Keeps.bind Keeps.get fun _ => Keeps.pure _

theorem now_still : Still now := Keeps.bind Keeps.get fun _ => Keeps.pure _

theorem ofWork_still {work : Work α} (h : work.Modest) : Still (ofWork work) := by
  intro b
  -- the work leaves the state alone; whether it is given up is told afterwards
  have hstep : b.Still Event.isComment { b with world := (work.runIn b.world).2 } :=
    ⟨rfl, h b.world⟩
  exact trans_of (Bench.Still _) hstep (ofAttempt_keeps (work.runIn b.world).1 _)

theorem remark_still (level : Level) (source message : String) :
    Still (remark level source message) :=
  ofWork_still (Work.remark_modest level source message)

theorem evaluate_still (v : Value) : Still (evaluate v) := by
  refine Keeps.bind state_still fun s => ?_
  dsimp only
  split
  · split
    · exact Keeps.pure _
    · exact Keeps.bind (remark_still _ _ _) fun _ => Keeps.pure _
  · exact Keeps.pure _

theorem fillIn_still (v : Value) : Still (fillIn v) := by
  unfold fillIn
  split
  · split
    · exact Keeps.bind state_still fun s => ofAttempt_keeps _
    · exact Keeps.pure _
  · exact Keeps.throw _

theorem previousFields_still : Still previousFields :=
  Keeps.bind state_still fun _ => Keeps.pure _

end Act

namespace Node

open Act

variable (node : Node)

theorem runTrigger_still (event : TriggerEvent) : Still (runTrigger node event) := by
  refine Keeps.bind state_still fun s => ?_
  split
  · exact Keeps.pure _
  · refine Keeps.bind now_still fun now => ?_
    exact Keeps.bind (ofAttempt_keeps _) fun _ => Keeps.pure _

theorem runCondition_still : Still (runCondition node) := by
  refine Keeps.bind state_still fun s => ?_
  refine Keeps.bind (ofAttempt_keeps _) fun field => ?_
  refine Keeps.bind (ofAttempt_keeps _) fun operator => ?_
  refine Keeps.bind (ofAttempt_keeps _) fun value => ?_
  refine Keeps.bind (ofAttempt_keeps _) fun found => ?_
  exact Keeps.bind (ofAttempt_keeps _) fun _ => Keeps.pure _

theorem runSwitch_still : Still (runSwitch node) := by
  refine Keeps.bind state_still fun s => ?_
  refine Keeps.bind (ofAttempt_keeps _) fun field => ?_
  refine Keeps.bind (ofAttempt_keeps _) fun found => ?_
  refine Keeps.bind (ofAttempt_keeps _) fun items => ?_
  refine Keeps.bind (ofAttempt_keeps _) fun fallback => ?_
  exact Keeps.bind (ofAttempt_keeps _) fun _ => Keeps.pure _

theorem runMerge_still : Still (runMerge node) := by
  refine Keeps.bind state_still fun s => ?_
  refine Keeps.bind (ofAttempt_keeps _) fun mode => ?_
  dsimp only
  split
  · exact Keeps.pure _
  · split
    · exact Keeps.pure _
    · split
      · exact Keeps.pure _
      · exact Keeps.pure _

theorem mergeReady_still : Still (mergeReady node) := by
  refine Keeps.bind (ofAttempt_keeps _) fun waits => ?_
  split
  · exact Keeps.pure _
  · refine Keeps.bind state_still fun s => ?_
    dsimp only
    split
    · exact Keeps.pure _
    · exact Keeps.bind (ofWork_still (Work.note_modest rfl)) fun _ => Keeps.pure _

theorem convert_still (raw type : Value) : Still (convert raw type) := by
  refine Keeps.bind state_still fun s => ?_
  dsimp only
  split
  · exact Keeps.bind (ofAttempt_keeps _) fun _ => Keeps.pure _
  · split
    · exact Keeps.bind (ofAttempt_keeps _) fun _ => Keeps.pure _
    · split
      · exact evaluate_still raw
      · split
        · exact fillIn_still _
        · exact Keeps.pure _

section Writing

variable {R : Bench → Bench → Prop} [IsPreorder Bench R]

/-- Setting variables keeps what actions without a trace in the state keep, if each variable that an
entry names may be set. -/
theorem setAll_keeps (still : ∀ b b' : Bench, b.Still Event.isComment b' → R b b') (time : Nat)
    {entries : List Value} (set : ∀ entry ∈ entries, ∀ name,
      entry.entry "key" >>= Value.key = .ok name → ∀ v (b : Bench),
        R b { b with state := b.state.setVariable name v }) :
    ∀ (slot : Nat) (done : Fields), Keeps R (setAll time slot done entries) := by
  induction entries with
  | nil => exact fun _ done => Keeps.pure done
  | cons entry rest ih =>
    obtain ⟨hentry, hrest⟩ := List.forall_mem_cons.1 set
    intro slot done
    refine Keeps.bind (ofAttempt_keeps _) fun raw => ?_
    refine Keeps.bind (ofAttempt_keeps _) fun type => ?_
    refine Keeps.bind ((convert_still _ _).mono still) fun value => ?_
    refine ofAttempt_bind_keeps fun name hname => ?_
    exact Keeps.bind (Keeps.modify (hentry name hname _)) fun _ => ih hrest _ _

/-- An entry of the settings names a variable. -/
def Sets (node : Node) (name : Key) : Prop :=
  ∃ entries, node.settings.entry "variables" >>= Value.elements = .ok entries ∧
    ∃ entry ∈ entries, entry.entry "key" >>= Value.key = .ok name

theorem runSetVariable_keeps (still : ∀ b b' : Bench, b.Still Event.isComment b' → R b b')
    (set : ∀ name, node.Sets name → ∀ v (b : Bench),
      R b { b with state := b.state.setVariable name v }) : Keeps R (runSetVariable node) := by
  refine Keeps.bind (state_still.mono still) fun s => ?_
  refine ofAttempt_bind_keeps fun entries hentries => ?_
  refine Keeps.bind (setAll_keeps still _ (fun entry hentry name hname => ?_) _ _) fun done => ?_
  · exact set name ⟨entries, hentries, entry, hentry, hname⟩
  · exact Keeps.bind (previousFields_still.mono still) fun _ => Keeps.pure _

end Writing

theorem sleep_spares {kind : Event → Bool} (w : World) (seconds : Float) :
    w.Spares kind (w.sleep seconds).2 := by
  unfold World.sleep
  split <;> exact .of_eq rfl rfl rfl

theorem runWait_still : Still (runWait node) := by
  refine Keeps.bind (ofAttempt_keeps _) fun span => ?_
  refine Keeps.bind (remark_still _ _ _) fun _ => ?_
  refine Keeps.bind (ofWork_still (Work.ofStep_modest fun w => sleep_spares w _)) fun _ => ?_
  refine Keeps.bind previousFields_still fun before => ?_
  exact Keeps.bind now_still fun _ => Keeps.pure _

theorem runFilter_still : Still (runFilter node) := by
  refine Keeps.bind state_still fun s => ?_
  dsimp only
  split
  · exact Keeps.bind (ofAttempt_keeps _) fun _ => Keeps.pure _
  · split
    · exact Keeps.bind (ofAttempt_keeps _) fun _ => Keeps.pure _
    · exact Keeps.bind (ofAttempt_keeps _) fun _ => Keeps.pure _

theorem runSort_still : Still (runSort node) := by
  refine Keeps.bind state_still fun s => ?_
  dsimp only
  split
  · refine Keeps.bind (ofAttempt_keeps _) fun direction => ?_
    exact Keeps.bind (ofAttempt_keeps _) fun _ => Keeps.pure _
  · split
    · exact Keeps.bind (ofAttempt_keeps _) fun _ => Keeps.pure _
    · exact Keeps.pure _

theorem bodyArgument_still (method : String) : Still (bodyArgument node method) := by
  refine Keeps.bind (ofAttempt_keeps _) fun body => ?_
  split
  · exact Keeps.pure _
  · split
    · refine Keeps.bind (fillIn_still _) fun filled => ?_
      split
      · split
        · exact Keeps.pure _
        · exact Keeps.pure _
      · exact Keeps.pure _
    · exact Keeps.pure _

theorem buildRequest_still : Still (buildRequest node) := by
  refine Keeps.bind (ofAttempt_keeps _) fun method => ?_
  refine Keeps.bind (ofAttempt_keeps _) fun address => ?_
  refine Keeps.bind (fillIn_still address) fun url => ?_
  refine Keeps.bind (ofAttempt_keeps _) fun headers => ?_
  refine Keeps.bind Keeps.get fun bench => ?_
  refine Keeps.bind (bodyArgument_still node method) fun body => ?_
  exact Keeps.bind (ofAttempt_keeps _) fun _ => Keeps.pure _

theorem request_spares {kind : Event → Bool} (w : World) (arguments : Value) :
    w.Spares kind (w.request arguments).2 := by
  simp only [World.request]
  split <;> exact .of_eq rfl rfl rfl

theorem runRequest_still : Still (runRequest node) := by
  refine Keeps.bind (buildRequest_still node) fun request => ?_
  refine Keeps.bind (ofAttempt_keeps _) fun url => ?_
  refine Keeps.bind (ofAttempt_keeps _) fun method => ?_
  refine Keeps.bind (remark_still _ _ _) fun _ => ?_
  -- the call is listed with the others, not in the journal
  have hsend := Work.ofStep_modest fun w => request_spares w request
  refine Keeps.bind (ofWork_still hsend) fun response => ?_
  dsimp only
  split
  · exact Keeps.bind (remark_still _ _ _) fun _ => Keeps.pure _
  · exact Keeps.pure _

theorem valueToStore_still : Still (valueToStore node) := by
  refine Keeps.bind (ofAttempt_keeps _) fun raw => ?_
  split
  · exact Keeps.bind state_still fun _ => Keeps.pure _
  · split
    · refine Keeps.bind (fillIn_still _) fun filled => ?_
      split
      · split
        · exact Keeps.pure _
        · exact Keeps.pure _
      · exact Keeps.pure _
    · exact Keeps.pure _

theorem runStoring_still : Still (runStoring node) := by
  refine Keeps.bind state_still fun s => ?_
  split
  · exact Keeps.throw Failure.noStorage
  · refine Keeps.bind (ofAttempt_keeps _) fun name => ?_
    refine Keeps.bind (ofAttempt_keeps _) fun key => ?_
    refine Keeps.bind (valueToStore_still node) fun value => ?_
    refine Keeps.bind (ofAttempt_keeps _) fun stored => ?_
    exact Keeps.bind (ofWork_still (Store.setData_modest _ _)) fun _ => Keeps.pure _

theorem runResponse_still : Still (runResponse node) := by
  refine Keeps.bind (ofAttempt_keeps _) fun body => ?_
  refine Keeps.bind (ofAttempt_keeps _) fun status => ?_
  refine Keeps.bind (ofAttempt_keeps _) fun headers => ?_
  split
  · exact Keeps.bind (fillIn_still _) fun _ => Keeps.pure _
  · exact Keeps.pure _

theorem loopItems_still : Still (loopItems node) := by
  refine Keeps.bind (ofAttempt_keeps _) fun setting => ?_
  refine Keeps.bind state_still fun s => ?_
  refine Keeps.bind (evaluate_still _) fun items => ?_
  split
  · exact Keeps.pure _
  · exact Keeps.pure _
  · exact Keeps.throw _

/-- Asking a node whether it is ready leaves the state as it is. -/
theorem isReady_still : Still node.isReady := by
  unfold isReady
  split
  · exact mergeReady_still node
  · exact Keeps.pure _

/-- A merge is ready unless its setting lets it wait and an output of its sources is missing. -/
theorem mergeReady_runOn (bench : Bench) :
    (mergeReady node).runOn bench = match node.setting "waitForAll" with
      | .error f => (.error f, bench)
      | .ok waits =>
        if !waits.holds || (missingSources node bench.state).isEmpty then (.ok true, bench)
        else (.ok false, { bench with
          world := bench.world.note (.mergeWaits node.id (missingSources node bench.state)) }) := by
  unfold mergeReady Act.runOn
  rw [Keeps.run_bind]
  cases node.setting "waitForAll" with
  | error f => rfl
  | ok waits =>
    change StateT.run (ExceptT.run (if !waits.holds then _ else _)) bench =
      if !waits.holds || _ then _ else _
    cases waits.holds with
    | false => rfl
    | true =>
      change StateT.run (ExceptT.run (if (missingSources node bench.state).isEmpty then _ else _))
        bench = if !true || (missingSources node bench.state).isEmpty then _ else _
      cases (missingSources node bench.state).isEmpty <;> rfl

/-- Only a merge can fail to tell whether it is ready, and then its setting is what fails. -/
theorem isReady_error {bench : Bench} {f : Failure} (h : (node.isReady.runOn bench).1 = .error f) :
    (node.isReady.runOn bench).2 = bench ∧ node.cls.kind = .merge ∧
      node.setting "waitForAll" = .error f := by
  unfold isReady at h ⊢
  cases hkind : node.cls.kind with
  | merge =>
    simp only [hkind] at h ⊢
    rw [mergeReady_runOn] at h ⊢
    cases hset : node.setting "waitForAll" with
    | error g =>
      rw [hset] at h
      injection h with hfg
      exact ⟨rfl, trivial, by rw [hfg]⟩
    | ok waits =>
      rw [hset] at h
      dsimp only at h
      split at h <;> injection h
  | _ =>
    simp only [hkind] at h
    injection h

/-- Only an object has settings. -/
theorem dict_of_setting {node : Node} {name : String} {v : Value} (h : node.setting name = .ok v) :
    ∃ entries mark, node.settings = .dict entries mark := by
  unfold setting at h
  cases hsettings : node.settings with
  | dict entries mark => exact ⟨entries, mark, rfl⟩
  | _ =>
    rw [hsettings] at h
    cases h

/-- A merge that is ready has settings. -/
theorem dict_of_isReady {node : Node} (kind : node.cls.kind = .merge) {bench : Bench} {ready : Bool}
    (h : (node.isReady.runOn bench).1 = .ok ready) :
    ∃ entries mark, node.settings = .dict entries mark := by
  unfold isReady at h
  simp only [kind, mergeReady_runOn] at h
  cases hset : node.setting "waitForAll" with
  | ok waits => exact dict_of_setting hset
  | error f =>
    rw [hset] at h
    cases h

/-- A merge that its settings have wait for all that lead to it. -/
def Waits (node : Node) : Prop :=
  node.cls.kind = .merge ∧ ∃ setting, node.setting "waitForAll" = .ok setting ∧ setting.holds = true

/-- A merge that waits is ready when all its sources have outputs. -/
theorem isReady_waits {node : Node} (h : node.Waits) (bench : Bench) :
    (node.isReady.runOn bench).1 = .ok (missingSources node bench.state).isEmpty := by
  obtain ⟨hkind, setting, hset, hholds⟩ := h
  unfold isReady
  simp only [hkind, mergeReady_runOn, hset, hholds]
  cases (missingSources node bench.state).isEmpty <;> rfl

/-- Only a merge that waits is not ready, and then an output of its sources is missing. -/
theorem isReady_false {bench : Bench} (h : (node.isReady.runOn bench).1 = .ok false) :
    node.Waits ∧ (missingSources node bench.state).isEmpty = false := by
  have hwaits : node.Waits := by
    unfold isReady at h
    cases hkind : node.cls.kind with
    | merge =>
      simp only [hkind, mergeReady_runOn] at h
      cases hset : node.setting "waitForAll" with
      | error f => simp [hset] at h
      | ok setting =>
        refine ⟨hkind, setting, hset, ?_⟩
        cases hholds : setting.holds with
        | true => rfl
        | false => simp [hset, hholds] at h
    | _ =>
      simp only [hkind] at h
      cases h
  have hempty := isReady_waits hwaits bench
  rw [h] at hempty
  exact ⟨hwaits, (Except.ok.inj hempty).symm⟩

/-- A node of the library leaves the state alone, but for the variables that its entries name if it
is one that sets variables. -/
theorem execute_keeps {R : Bench → Bench → Prop} [IsPreorder Bench R]
    (native : ∀ run branching, node.cls.kind ≠ .custom run branching)
    (still : ∀ b b' : Bench, b.Still Event.isComment b' → R b b')
    (set : node.cls.kind = .setVariable → ∀ name, node.Sets name → ∀ v (b : Bench),
      R b { b with state := b.state.setVariable name v }) : Keeps R node.execute := by
  unfold execute
  cases hkind : node.cls.kind with
  | trigger event => exact (runTrigger_still node event).mono still
  | condition => exact (runCondition_still node).mono still
  | switch => exact (runSwitch_still node).mono still
  | loop => exact Keeps.throw _
  | merge => exact (runMerge_still node).mono still
  | setVariable => exact runSetVariable_keeps node still (set hkind)
  | wait => exact (runWait_still node).mono still
  | filter => exact (runFilter_still node).mono still
  | sort => exact (runSort_still node).mono still
  | httpRequest => exact (runRequest_still node).mono still
  | storeData => exact (runStoring_still node).mono still
  | webhookResponse => exact (runResponse_still node).mono still
  | passthrough => exact Keeps.bind (state_still.mono still) fun _ => Keeps.pure _
  | custom run branching => exact absurd hkind (native run branching)

/-- **Every node of the library spares what is the engine's.** Only functions from outside may write
more of the state. -/
theorem execute_modest (h : ∀ run branching, node.cls.kind ≠ .custom run branching) :
    Modest node.execute :=
  node.execute_keeps h (fun _ _ => Bench.Still.spares) fun _ _ _ _ _ =>
    ⟨⟨_, rfl⟩, refl_of (World.Spares _) _⟩

/-- A function from outside does to the state what it does, and nothing to the world. -/
theorem runCustom_runOn (run : Executor) (branching : Bool) (bench : Bench) :
    ((runCustom node run branching).runOn bench).2 =
      { bench with state := (StateT.run (ExceptT.run (run node.settings)) bench.state).2 } := by
  unfold Act.runOn runCustom
  rw [Keeps.run_bind]
  -- what follows the function only reads its reply, so it keeps the bench equal
  refine Eq.symm (Keeps.bind (R := Eq) (ofAttempt_keeps _) (fun reply => ?_) _)
  split
  · exact ofAttempt_keeps _
  · exact Keeps.pure _

end Node

end WorkflowEngine
