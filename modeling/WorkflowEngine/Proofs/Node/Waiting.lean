import WorkflowEngine.Proofs.Expression.Comparisons
import WorkflowEngine.Proofs.Node.Storing
import WorkflowEngine.Proofs.Number.Arithmetic

/-!
# How long a node waits

A node that waits measures its wait when its settings are checked and once more when it is executed.
The two measures are the same, so what is checked bounds the sleep: it is refused, or there is one
sleep, of a number of seconds that is not negative and within the limit (`execute_waits`). What
neither refuses nor sleeps is a wait that cannot be measured: a duration too large for a binary64
number, or a unit that nothing can be looked up by.
-/

namespace WorkflowEngine.Node

open Number

variable {node : Node} {duration unit limit : Value} {ms : Float} {bench : Bench}

/-! ## Limits -/

/-- A limit of waits: a number, and not negative. -/
inductive IsLimit : Value → Prop
  | int (n : Nat) (mark : Option Stamp) : IsLimit (.int n mark)
  | float {x : Float} (mark : Option Stamp) (nonnegative : Nonnegative x) : IsLimit (.float x mark)

/-- The longest sleep that a limit allows, in seconds. Pauses are compared in milliseconds, so that a
limit with a point is multiplied and divided again. -/
def longestSleep : Value → Float
  | .int n _ => nearest false n.toNat 1
  | .float x _ => x * nearest false 1000 1 / nearest false 1000 1
  | _ => infinity

/-- A limit that is whole is the longest sleep itself, unless it is beyond all waits. -/
theorem longestSleep_whole {n : Nat} (h : n * 1000 < 2 ^ 53) (mark : Option Stamp) :
    longestSleep (.float (nearest false n 1) mark) = nearest false n 1 :=
  whole_mul_div (by decide) (by decide) h

/-- **What does not exceed the limit is no longer than the longest sleep.** -/
theorem not_longestSleep_lt (hlimit : IsLimit limit) (hms : Nonnegative ms)
    (h : exceeds ms limit = false) : ¬ longestSleep limit < ms / nearest false 1000 1 := by
  obtain ⟨m', e', hthousand, hm', hvalue'⟩ :=
    decode_positive (show 0 < 1000 by decide) (show 1000 < 2 ^ 53 by decide)
  cases hlimit with
  | float mark hx =>
    exact hms.not_div_lt hthousand hm' (hx.mul hthousand hm') (of_decide_eq_false h)
  | int n mark =>
    have hcompare : compareInt? (n * 1000) ms ≠ some .lt := by
      simpa only [exceeds, beq_eq_false_iff_ne] using h
    rcases nonnegative_iff.1 hms with rfl | ⟨negative, m, e, hfinite, hsign⟩
    · exact absurd (compareInt?_infinity _) hcompare
    · rw [Ne, compareInt?_eq_lt_iff hfinite, exact_of_sign e hsign, not_lt] at hcompare
      obtain ⟨num, den, hden, hvalue⟩ :=
        exists_quotient (show (0 : ℚ) ≤ m * 2 ^ e / (m' * 2 ^ e') by positivity)
      rw [div_eq_nearest hfinite hthousand hm' hden hvalue, longestSleep, Int.toNat_natCast]
      refine not_nearest_lt hden Nat.one_pos ?_ (fun hnegative => ?_) (by simp)
      · rw [hvalue, hvalue', Nat.cast_one, div_one]
        push_cast at hcompare ⊢
        linarith
      · rw [Bool.bne_false] at hnegative
        exact num_eq_zero hden (by rw [hvalue, hsign hnegative]; simp)

/-! ## Measures -/

/-- The number that stands for a duration that is not outsized. -/
def amount (duration : Value) : Float := duration.written?.getD notANumber

/-- What a node that waits asks for. -/
structure Asks (node : Node) (duration unit : Value) : Prop where
  forDuration : node.settingOr "duration" (.int 0) = .ok duration
  inUnit : node.settingOr "unit" (.text "milliseconds") = .ok unit

/-- How a node measures its wait in milliseconds, and what becomes of a wait that it cannot measure.
-/
inductive Measures (node : Node) : Attempt Float → Prop
  | noTable (none : ∀ entries mark, node.settings ≠ .dict entries mark) :
      Measures node (.fault .missingMember)
  | tooLarge {duration unit : Value} (asks : node.Asks duration unit)
      (outsized : duration.isOutsized = true) : Measures node (.fault .tooLarge)
  | noKey {duration unit : Value} (asks : node.Asks duration unit)
      (fits : duration.isOutsized = false) (none : unit.key? = none) :
      Measures node (.fault .mismatched)
  | unknownUnit {duration unit : Value} {key : Key} {name : String} (asks : node.Asks duration unit)
      (fits : duration.isOutsized = false) (isKey : unit.key? = some key)
      (unknown : unitMilliseconds.lookup key = none) (named : unit.plain = .ok name) :
      Measures node (.error (.setting (.unknownUnit name)))
  | notANumber {duration unit : Value} {key : Key} {scale : Nat} (asks : node.Asks duration unit)
      (fits : duration.isOutsized = false) (isKey : unit.key? = some key)
      (known : unitMilliseconds.lookup key = some scale) (unusable : ¬ Nonnegative (amount duration)) :
      Measures node (.error (.setting .durationNotANumber))
  | span {duration unit : Value} {key : Key} {scale : Nat} (asks : node.Asks duration unit)
      (fits : duration.isOutsized = false) (isKey : unit.key? = some key)
      (known : unitMilliseconds.lookup key = some scale) (usable : Nonnegative (amount duration)) :
      Measures node (.ok (amount duration * nearest false scale 1))

theorem asks_of_dict {entries : Fields} {mark : Option Stamp}
    (hdict : node.settings = .dict entries mark) : ∃ duration unit, node.Asks duration unit := by
  have hask : ∀ name other, ∃ v, node.settingOr name other = .ok v := by
    intro name other
    rw [settingOr, setting, hdict]
    exact ⟨_, rfl⟩
  obtain ⟨duration, hduration⟩ := hask "duration" (.int 0)
  obtain ⟨unit, hunit⟩ := hask "unit" (.text "milliseconds")
  exact ⟨duration, unit, hduration, hunit⟩

theorem Asks.milliseconds_eq (asks : node.Asks duration unit) :
    node.milliseconds = (do
      let x ← duration.toNumber
      match unitMilliseconds.lookup (← unit.key) with
      | none => throw (.setting (.unknownUnit (← unit.plain)))
      | some scale =>
        if !(x == x) || x < nearest false 0 1 then throw (.setting .durationNotANumber)
        pure (x * nearest false scale 1)) := by
  rw [milliseconds, asks.forDuration, Attempt.ok_bind]
  refine congrArg _ (funext fun x => ?_)
  refine (congrArg (· >>= _) asks.inUnit).trans ?_
  rfl

/-- **How long a node waits**, whatever its settings say in JSON. -/
theorem measures_milliseconds (hsettings : node.settings.SaysJson) :
    node.Measures node.milliseconds := by
  cases hdict : node.settings with
  | dict entries mark =>
    obtain ⟨duration, unit, asks⟩ := asks_of_dict hdict
    have hunitJson : unit.SaysJson := by
      obtain ⟨v, hv, hunit⟩ := Attempt.bind_ok asks.inUnit
      exact Except.ok.inj hunit ▸ (hsettings.get hv).orElse (.text _ none)
    rw [asks.milliseconds_eq]
    cases hsize : duration.isOutsized with
    | true =>
      rw [Value.toNumber_of_outsized hsize]
      exact .tooLarge asks hsize
    | false =>
      rw [Value.toNumber_of_fits hsize, Attempt.ok_bind, Value.key]
      cases hkey : unit.key? with
      | none => exact .noKey asks hsize hkey
      | some key =>
        rw [Attempt.ok_bind]
        cases hscale : unitMilliseconds.lookup key with
        | none =>
          obtain ⟨name, hname⟩ := hunitJson.plain_ok
          simp only [hname]
          exact .unknownUnit asks hsize hkey hscale hname
        | some scale =>
          dsimp only
          split
          · next hunusable =>
            refine .notANumber asks hsize hkey hscale fun h => ?_
            rw [← amount, h.number, decide_eq_false h.notLess] at hunusable
            cases hunusable
          · next husable =>
            rw [← amount, Bool.or_eq_true, not_or, decide_eq_true_iff] at husable
            exact .span asks hsize hkey hscale ⟨by simpa using husable.1, husable.2⟩
  | _ =>
    rw [milliseconds, settingOr, setting, hdict]
    exact .noTable fun entries mark h => by rw [hdict] at h; cases h

/-- Every unit is a number of milliseconds that is one exactly. -/
theorem unitMilliseconds_bounds {key : Key} {scale : Nat}
    (h : unitMilliseconds.lookup key = some scale) : 0 < scale ∧ scale < 2 ^ 53 := by
  have hall : ∀ entry ∈ unitMilliseconds, 0 < entry.2 ∧ entry.2 < 2 ^ 53 := by decide
  exact hall _ (Entries.mem_of_lookup h)

theorem Measures.nonnegative (h : node.Measures (.ok ms)) : Nonnegative ms := by
  cases h with
  | span asks fits isKey known usable =>
    obtain ⟨hpos, hsmall⟩ := unitMilliseconds_bounds known
    obtain ⟨m, e, hscale, hm, -⟩ := decode_positive hpos hsmall
    exact usable.mul hscale hm

/-! ## Sleeps -/

/-- What comes of a node that waits, its settings checked first. -/
inductive Pauses (node : Node) (limit : Value) (bench : Bench) : Attempt Reply → Bench → Prop
  | refused {fault : SettingFault} (measured : node.milliseconds = .error (.setting fault)) :
      Pauses node limit bench (.error (.setting fault)) bench
  | tooLong {ms : Float} (measured : node.milliseconds = .ok ms) (long : exceeds ms limit = true) :
      Pauses node limit bench (.error (.setting .durationTooLong)) bench
  | failed {fault : DataFault} (measured : node.milliseconds = .error (.data fault)) :
      Pauses node limit bench (.error (.data fault)) bench
  | slept {ms : Float} {result : Attempt Reply} {bench' : Bench}
      (measured : node.milliseconds = .ok ms) (short : exceeds ms limit = false)
      (once : bench'.world.sleeps = bench.world.sleeps ++ [ms / nearest false 1000 1])
      (nonnegative : Nonnegative (ms / nearest false 1000 1))
      (within : ¬ longestSleep limit < ms / nearest false 1000 1)
      (answered : (∃ reply, result = .ok reply) ∨
        result = .error .interrupted ∧ bench.world.interruptAfter = some 1) :
      Pauses node limit bench result bench'

theorem sleep_once (w : World) (seconds : Float) :
    (w.sleep seconds).2.sleeps = w.sleeps ++ [seconds] ∧
      ((w.sleep seconds).1 = .ok () ∨
        (w.sleep seconds).1 = .error .interrupted ∧ w.interruptAfter = some 1) := by
  unfold World.sleep
  split
  · exact ⟨rfl, .inl rfl⟩
  · next h => exact ⟨rfl, .inr ⟨rfl, h⟩⟩
  · exact ⟨rfl, .inl rfl⟩
  · exact ⟨rfl, .inl rfl⟩

theorem runIn_ofStep {α : Type} (step : World → Attempt α × World) (w : World) :
    (Work.ofStep step).runIn w = step w := by
  have hrun : (Work.ofStep step).runIn w = (Work.ofAttempt (step w).1).runIn (step w).2 := rfl
  rw [hrun]
  cases h : step w with
  | mk result w' => cases result <;> rfl

theorem runOn_remark (level : Level) (source message : String) (bench : Bench) :
    (Act.remark level source message).runOn bench =
      (.ok (), { bench with world := bench.world.note (.note level source message) }) :=
  Act.runOn_ofWork_eq _ bench

theorem runOn_sleep (seconds : Float) (bench : Bench) :
    (Act.ofWork (Work.ofStep fun w => w.sleep seconds)).runOn bench =
      ((bench.world.sleep seconds).1,
        { bench with world := (bench.world.sleep seconds).2 }) := by
  rw [Act.runOn_ofWork_eq, runIn_ofStep]

/-- A wait that has been measured is one sleep. -/
theorem runWait_runOn (h : node.milliseconds = .ok ms) (bench : Bench) :
    ∃ result bench', (runWait node).runOn bench = (result, bench') ∧
      bench'.world.sleeps = bench.world.sleeps ++ [ms / nearest false 1000 1] ∧
      ((∃ reply, result = .ok reply) ∨
        result = .error .interrupted ∧ bench.world.interruptAfter = some 1) := by
  -- what is noted before the sleep changes nothing but the journal
  let noted := bench.world.note (.note .info "wait" ("Waiting " ++ shortText ms ++ "ms"))
  have hsleep := runOn_sleep (ms / nearest false 1000 1) { bench with world := noted }
  obtain ⟨honce, hok | ⟨hinterrupted, hafter⟩⟩ := sleep_once noted (ms / nearest false 1000 1)
  · rw [hok] at hsleep
    unfold runWait
    rw [h, Act.runOn_ofAttempt_bind, Act.runOn_bind_of_ok (runOn_remark _ _ _ bench),
      Act.runOn_bind_of_ok hsleep]
    exact ⟨_, _, rfl, honce, .inl ⟨_, rfl⟩⟩
  · rw [hinterrupted] at hsleep
    unfold runWait
    rw [h, Act.runOn_ofAttempt_bind, Act.runOn_bind_of_ok (runOn_remark _ _ _ bench),
      Act.runOn_bind_of_error hsleep]
    exact ⟨_, _, rfl, honce, .inr ⟨rfl, hafter⟩⟩

/-- **A wait is refused before anything sleeps, or it is one sleep within the limit.**
What comes first is what the settings ask for (`Measures`). A wait that is measured and within the
limit is one sleep; any other leaves the world as it is, and is refused for its unit, its duration
or its length, unless it cannot be measured: of JSON settings only a duration beyond all numbers, a
unit that is a list or an object, and settings that are no object cannot. A whole limit is itself
the longest sleep. -/
theorem execute_waits (settings : Settings) (node : Node) (bench : Bench)
    (hkind : node.cls.kind = .wait) (hsettings : node.settings.SaysJson)
    (hlimit : IsLimit settings.waitMax) :
    node.Measures node.milliseconds ∧
    (∃ result bench',
      (Act.ofAttempt (node.validate settings) >>= fun _ => node.execute).runOn bench =
        (result, bench') ∧
      node.Pauses settings.waitMax bench result bench') ∧
    ∀ (n : Nat) (mark : Option Stamp), n * 1000 < 2 ^ 53 →
      settings.waitMax = .int n mark ∨ settings.waitMax = .float (nearest false n 1) mark →
        longestSleep settings.waitMax = nearest false n 1 := by
  have hmeasures := measures_milliseconds hsettings
  refine ⟨hmeasures, ?_, ?_⟩
  · unfold validate execute
    rw [hkind]
    dsimp only
    rw [validateWait]
    cases hms : node.milliseconds with
    | error f =>
      rw [hms] at hmeasures
      refine ⟨.error f, bench, rfl, ?_⟩
      cases f with
      | setting fault => exact .refused hms
      | data fault => exact .failed hms
      | _ => cases hmeasures
    | ok ms =>
      rw [hms] at hmeasures
      rw [Attempt.ok_bind]
      cases hlong : exceeds ms settings.waitMax with
      | true => exact ⟨_, bench, rfl, .tooLong hms hlong⟩
      | false =>
        have hnonnegative := hmeasures.nonnegative
        obtain ⟨result, bench', hrun, honce, hanswered⟩ := runWait_runOn hms bench
        obtain ⟨m, e, hthousand, hm, -⟩ :=
          decode_positive (show 0 < 1000 by decide) (show 1000 < 2 ^ 53 by decide)
        exact ⟨result, bench', hrun, .slept hms hlong honce (hnonnegative.div hthousand hm)
          (not_longestSleep_lt hlimit hnonnegative hlong) hanswered⟩
  · rintro n mark hwhole (hmax | hmax)
    · rw [hmax]
      rfl
    · rw [hmax]
      exact longestSleep_whole hwhole mark

/-! ## Two waits -/

/-- A node that waits for so many milliseconds. -/
def waitFor (duration : Int) : Node where
  id := .text "w"
  type := .text "wait"
  label := .text "w"
  settings := .object [("duration", .int duration)]
  cls := { name := "WaitNode", kind := .wait }

theorem waitFor_saysJson {n : Int} (hshort : n.natAbs < longIntegerBound) :
    (waitFor n).settings.SaysJson :=
  .dict _ none (by simp) (by simpa using .int n none hshort)

theorem waitFor_asks {n : Int} (hn : n ≠ 0) :
    (waitFor n).Asks (.int n) (.text "milliseconds") := by
  refine ⟨?_, by rfl⟩
  have hholds : (Value.int n).holds = true := by simpa [Value.holds, Value.isTrue] using hn
  change Except.ok ((Value.int n).orElse (.int 0)) = _
  rw [Value.orElse, if_pos hholds]

theorem waitFor_outsized :
    (waitFor overflowBound).milliseconds = .fault .tooLarge := by
  have houtsized : (Value.int overflowBound).isOutsized = true :=
    Value.isOutsized_int.2 (Int.natAbs_natCast _).ge
  rw [(waitFor_asks (by decide +kernel)).milliseconds_eq, Value.toNumber_of_outsized houtsized]
  rfl

theorem execute_waits_briefly :
    ((waitFor 1500).settings.SaysJson ∧ (waitFor overflowBound).settings.SaysJson ∧
      IsLimit Settings.standard.waitMax) ∧
    (∃ reply bench', (Act.ofAttempt ((waitFor 1500).validate .standard) >>= fun _ =>
        (waitFor 1500).execute).runOn default = (.ok reply, bench') ∧
      bench'.world.sleeps = [nearest false 3 2]) ∧
    (Act.ofAttempt ((waitFor overflowBound).validate .standard) >>= fun _ =>
        (waitFor overflowBound).execute).runOn default = (.error (.data .tooLarge), default) := by
  have hjson := @waitFor_saysJson 1500 (by decide +kernel)
  have houtsized := @waitFor_saysJson overflowBound (by decide +kernel)
  have hlimit : IsLimit Settings.standard.waitMax :=
    .float none (nonnegative_nearest 3600 Nat.one_pos Bool.noConfusion)
  refine ⟨⟨hjson, houtsized, hlimit⟩, ?_, ?_⟩
  · have hms : (waitFor 1500).milliseconds = .ok (nearest false 1500 1) := by decide +kernel
    have hshort : exceeds (nearest false 1500 1) Settings.standard.waitMax = false := by
      decide +kernel
    have hseconds : nearest false 1500 1 / nearest false 1000 1 = nearest false 3 2 := by
      decide +kernel
    obtain ⟨-, ⟨result, bench', hrun, hpauses⟩, -⟩ :=
      execute_waits .standard (waitFor 1500) default rfl hjson hlimit
    cases hpauses with
    | refused measured | failed measured => cases hms.symm.trans measured
    | tooLong measured long =>
      cases hms.symm.trans measured
      cases hshort.symm.trans long
    | slept measured short once nonnegative within answered =>
      cases hms.symm.trans measured
      rw [hseconds] at once
      obtain ⟨reply, rfl⟩ | ⟨-, hinterrupted⟩ := answered
      · exact ⟨reply, bench', hrun, once⟩
      · cases hinterrupted
  · obtain ⟨-, ⟨result, bench', hrun, hpauses⟩, -⟩ :=
      execute_waits .standard (waitFor overflowBound) default rfl houtsized hlimit
    cases hpauses with
    | refused measured | tooLong measured | slept measured =>
      cases waitFor_outsized.symm.trans measured
    | failed measured =>
      cases waitFor_outsized.symm.trans measured
      exact hrun

end WorkflowEngine.Node
