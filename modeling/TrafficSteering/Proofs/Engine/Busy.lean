import TrafficSteering.Proofs.Control.Session
import TrafficSteering.Proofs.Engine.Undisturbed
set_option autoImplicit false

/-!
# While the permit is held

Three things need the permit: triggering a switch run, a look of the monitor, and a forced choice,
whether it is asked for directly or in a control session.  While somebody holds the permit they are
answered, and nothing else comes of them: the whole engine stays as it is.

So a switch run does not notice them.  `Crowd` stands for others who try these things at every
instant of a run: while it waits, before it computes rules, before each rule, before each reading,
when it chooses and commits its winner, and before it files its report.  The functions whose names
end in `Amid` are the work of a run amid such a crowd, and each is equal to the work of a run that
is left in peace.
-/

namespace TrafficSteering.Engine

variable {engine : Engine}

/-! ## What needs the permit -/

/-- The actions that need the permit: to trigger a run, to look at the active path, and to force a
new choice, be it in a control session that asks for nothing else. -/
def Action.Gated : Action → Prop
  | .trigger | .tick | .reroute => True
  | .control stream => ∀ command ∈ (Session.serve stream).1, command = .reroute
  | _ => False

/-- What such an action answers while somebody holds the permit. -/
def turnedAway (engine : Engine) : Action → Answer
  | .trigger => .flag false
  | .tick => .outcome (if engine.selector.session then .busy else .inactive)
  | .reroute => .selection none
  | .control stream => .ending (Session.serve stream).2
  | _ => .nothing

theorem trigger_of_busy (hbusy : engine.guard.busy = true) : engine.trigger = (engine, none) := by
  simp only [trigger, Guard.tryBegin?_of_busy hbusy]

/-- Of the commands of a control session, forced choices can be left out. -/
theorem obeyAll_of_busy (hbusy : engine.guard.busy = true) (commands : List Command) :
    commands.foldl obey engine = (commands.filter (· ≠ .reroute)).foldl obey engine := by
  induction commands generalizing engine with
  | nil => rfl
  | cons command rest ih =>
    cases command with
    | reroute =>
      have hnothing : engine.obey .reroute = engine := congrArg Prod.fst (rerouteWith_of_busy hbusy)
      rw [List.foldl_cons, hnothing, List.filter_cons_of_neg (by decide)]
      exact ih hbusy
    | start | stop =>
      rw [List.filter_cons_of_pos (by decide), List.foldl_cons, List.foldl_cons]
      exact ih hbusy

theorem act_of_gated (hbusy : engine.guard.busy = true) {action : Action} (h : action.Gated) :
    engine.act action = (engine, engine.turnedAway action) := by
  cases action with
  | trigger => simp only [act, trigger_of_busy hbusy, turnedAway]
  | tick => simp only [act, tick_of_busy hbusy, turnedAway]
  | reroute =>
    have hreroute : engine.reroute = (engine, .ok none) := rerouteWith_of_busy hbusy
    simp only [act, hreroute, turnedAway, Answer.ofExcept]
  | control stream =>
    have hnone : (Session.serve stream).1.filter (· ≠ .reroute) = [] := by
      rw [List.filter_eq_nil_iff]
      intro command hcommand
      simp [h command hcommand]
    simp only [act, turnedAway]
    rw [obeyAll_of_busy hbusy, hnone, List.foldl_nil]
  | _ => exact h.elim

/-! ## Crowds -/

/-- Others who need the permit: what they try at an instant, one thing after another. -/
structure Crowd where
  tries : Engine → List Action
  gated : ∀ engine, ∀ action ∈ tries engine, action.Gated

/-- The engine after a crowd has tried what it tries now. -/
def amid (engine : Engine) (crowd : Crowd) : Engine :=
  (crowd.tries engine).foldl (fun engine action => (engine.act action).1) engine

/-- While somebody holds the permit, a crowd changes nothing. -/
theorem amid_of_busy (hbusy : engine.guard.busy = true) (crowd : Crowd) :
    engine.amid crowd = engine := by
  have hall : ∀ actions : List Action, (∀ action ∈ actions, action.Gated) →
      actions.foldl (fun engine action => (engine.act action).1) engine = engine := by
    intro actions
    induction actions with
    | nil => exact fun _ => rfl
    | cons action rest ih =>
      intro hgated
      rw [List.foldl_cons, act_of_gated hbusy (hgated action List.mem_cons_self)]
      exact ih fun other hother => hgated other (List.mem_cons_of_mem action hother)
  exact hall _ (crowd.gated engine)

/-! ## Runs amid a crowd -/

section

variable (crowd : Crowd)

/-- Offers a rule that a crowd comes before. -/
def offerAmid : Offer := fun engine rule => (engine.amid crowd).offer rule

/-- Computes the rules of a path and offers them. -/
def installPathAmid (engine : Engine) (computation : Computation) : Engine × Except Fault Nat :=
  (engine.amid crowd).installWith (offerAmid crowd) computation

/-- Installs the winner and makes it active. -/
def installWinnerAmid (engine : Engine) (number : Nat) (probe : Probe) (winner : Option Nat) :
    Engine × Bool :=
  match winner with
  | none => (engine, false)
  | some index =>
    match probe.paths[index]? with
    | none => (engine, false)
    | some path =>
      match engine.installPathAmid crowd
          ⟨.winner number index, path, probe.generation, probe.routing⟩ with
      | (engine, .ok _) =>
        (engine.amid crowd).perform fun selector => selector.commit probe.generation index
      | (engine, .error _) => (engine, false)

/-- Concludes a run after the last candidate. -/
def concludeAmid (engine : Engine) (number : Nat) (probe : Probe) : Engine :=
  let engine := { engine.amid crowd with phase := .installing }
  let throughputs := (engine.amid crowd).recorder.table.samples
  let selected := (engine.amid crowd).recorder.table.best?.map Prod.fst
  let (engine, committed) := (engine.amid crowd).installWinnerAmid crowd number probe selected
  { engine.amid crowd with phase := .idle }.finishRun number
    { generation := probe.generation, throughputs, selected, committed
      elapsed := (engine.amid crowd).now - probe.started }

/-- Tries candidates from a place on. -/
def tryFromAmid (engine : Engine) (number : Nat) (probe : Probe) (index : Nat) :
    List Path → Engine
  | [] => engine.concludeAmid crowd number probe
  | path :: rest =>
    let engine : Engine :=
      { engine.amid crowd with
        phase := .probing index
        run := some { number, stage := .settling probe index, due := engine.now } }
    match engine.installPathAmid crowd
        ⟨.candidate number index, path, probe.generation, probe.routing⟩ with
    | (engine, .error _) => engine.tryFromAmid number probe (index + 1) rest
    | (engine, .ok _) =>
      { engine.amid crowd with
        run := some { number, stage := .settling probe index
                      due := engine.after engine.settings.settlePeriod } }

/-- Begins the work of a run. -/
def beginRunAmid (engine : Engine) (number : Nat) : Engine :=
  let candidates := (engine.amid crowd).selector.candidates
  match (engine.amid crowd).selector.routing with
  | some routing =>
    if routing.generation = candidates.generation ∧ candidates.paths ≠ [] then
      let probe : Probe := ⟨engine.now, candidates.generation, routing, candidates.paths⟩
      ((engine.amid crowd).takeUp number probe).tryFromAmid crowd number probe 0 probe.paths
    else (engine.amid crowd).finishRun number { generation := candidates.generation }
  | none => (engine.amid crowd).finishRun number { generation := candidates.generation }

/-- Takes a run that is due to its next wait or to its end. -/
def resumeRunAmid (engine : Engine) (run : Run) : Engine :=
  match run.stage with
  | .spawned => engine.beginRunAmid crowd run.number
  | .settling probe index =>
    let (engine, _) :=
      (engine.amid crowd).measure probe.routing.graph probe.generation probe.paths index
    engine.tryFromAmid crowd run.number probe (index + 1) (probe.paths.drop (index + 1))

end

/-! ## The crowd goes unnoticed -/

section

variable {crowd : Crowd} {probe : Probe} {number : Nat}

theorem offerAll_amid (hbusy : engine.guard.busy = true) (rules : List Rule) :
    Installer.offerAll (offerAmid crowd) engine rules = Installer.offerAll offer engine rules := by
  induction rules generalizing engine with
  | nil => rfl
  | cons rule rest ih =>
    have hoffer : offerAmid crowd engine rule = offer engine rule := by
      rw [offerAmid, amid_of_busy hbusy]
    obtain ⟨_, hwork, -⟩ := offer_of_busy hbusy rule
    rw [Installer.offerAll, Installer.offerAll, hoffer]
    rcases hanswer : offer engine rule with ⟨next, fault | ⟨⟩⟩
    · rfl
    · rw [hanswer] at hwork
      exact ih (hwork.busy hbusy)

theorem installWith_amid (hbusy : engine.guard.busy = true) (computation : Computation) :
    engine.installWith (offerAmid crowd) computation = engine.installPath computation := by
  have hnoted : (engine.note (.computed computation)).guard.busy = true := hbusy
  simp only [installPath, installWith, Installer.installPath, offerAll_amid hnoted]

theorem installPath_amid (hbusy : engine.guard.busy = true) (computation : Computation) :
    engine.installPathAmid crowd computation = engine.installPath computation := by
  rw [installPathAmid, amid_of_busy hbusy, installWith_amid hbusy]

theorem chooseWith_amid (hbusy : engine.guard.busy = true) :
    engine.chooseWith (offerAmid crowd) = engine.chooseWith offer := by
  have hchosen : (engine.perform Selector.reroute).1.guard.busy = true := hbusy
  simp only [chooseWith]
  rcases hanswer : engine.perform Selector.reroute with ⟨next, fault | _ | selection⟩
  · rfl
  · rfl
  · rw [hanswer] at hchosen
    simp only [installChoice, installWith_amid hchosen, installPath]

/-- A forced choice amid a crowd does what it does in peace: once it has the permit, it is the one
that holds it. -/
theorem rerouteWith_amid (engine : Engine) :
    engine.rerouteWith (offerAmid crowd) = engine.reroute := by
  cases hbusy : engine.guard.busy with
  | true => rw [reroute, rerouteWith_of_busy hbusy, rerouteWith_of_busy hbusy]
  | false =>
    have hheld : ({ engine with
        guard := ⟨true⟩, forcing := engine.forcing + 1 } : Engine).guard.busy = true := rfl
    simp only [reroute, rerouteWith, Guard.tryBegin?_of_free hbusy]
    rw [chooseWith_amid hheld]

theorem installWinner_amid (hbusy : engine.guard.busy = true) (winner : Option Nat) :
    engine.installWinnerAmid crowd number probe winner =
      engine.installWinner number probe winner := by
  cases winner with
  | none => rfl
  | some index =>
    cases hpath : probe.paths[index]? with
    | none => simp only [installWinnerAmid, installWinner, hpath]
    | some path =>
      simp only [installWinnerAmid, installWinner, hpath, installPath_amid hbusy]
      obtain ⟨_, hwork, -⟩ := installPath_of_busy hbusy
        ⟨.winner number index, path, probe.generation, probe.routing⟩
      rcases hanswer : engine.installPath
          ⟨.winner number index, path, probe.generation, probe.routing⟩ with ⟨next, fault | count⟩
      · rfl
      · rw [hanswer] at hwork
        simp only [amid_of_busy (hwork.busy hbusy)]

theorem conclude_amid (hbusy : engine.guard.busy = true) :
    engine.concludeAmid crowd number probe = engine.conclude number probe := by
  have hsame : ({ engine with phase := .installing } : Engine).amid crowd =
      { engine with phase := .installing } :=
    @amid_of_busy { engine with phase := .installing } hbusy crowd
  have hdecided : ({ engine with phase := .installing } : Engine).guard.busy = true := hbusy
  have hwinner := installWinner_of_busy hdecided number probe
    (engine.recorder.table.best?.map Prod.fst)
  simp only [concludeAmid, conclude, amid_of_busy hbusy, hsame, installWinner_amid hdecided]
  rcases hanswer : installWinner { engine with phase := .installing } number probe
      (engine.recorder.table.best?.map Prod.fst) with ⟨next, committed⟩
  rw [hanswer] at hwinner
  simp only [amid_of_busy ((congrArg Guard.busy hwinner.guard).trans hbusy)]

/-- The induction is on the candidates that are left. -/
theorem tryFrom_amid (hbusy : engine.guard.busy = true) (index : Nat) (rest : List Path) :
    engine.tryFromAmid crowd number probe index rest = engine.tryFrom number probe index rest := by
  induction rest generalizing engine index with
  | nil => exact conclude_amid hbusy
  | cons path rest ih =>
    let tried : Engine := { engine with
      phase := .probing index, run := some ⟨number, .settling probe index, engine.now⟩ }
    have htried : tried.guard.busy = true := hbusy
    obtain ⟨_, hwork, -⟩ := installPath_of_busy htried
      ⟨.candidate number index, path, probe.generation, probe.routing⟩
    simp only [tryFromAmid, tryFrom, amid_of_busy hbusy]
    rw [installPath_amid htried]
    rcases hanswer : tried.installPath
        ⟨.candidate number index, path, probe.generation, probe.routing⟩ with ⟨next, fault | count⟩
    · rw [hanswer] at hwork
      exact ih (hwork.busy hbusy) (index + 1)
    · rw [hanswer] at hwork
      simp only [amid_of_busy (hwork.busy hbusy)]

theorem beginRun_amid (hbusy : engine.guard.busy = true) :
    engine.beginRunAmid crowd number = engine.beginRun number := by
  simp only [beginRunAmid, beginRun, amid_of_busy hbusy]
  cases engine.selector.routing with
  | none => rfl
  | some routing =>
    have htaken : (engine.takeUp number ⟨engine.now, engine.selector.candidates.generation, routing,
        engine.selector.candidates.paths⟩).guard.busy = true := hbusy
    simp only [tryFrom_amid htaken]

/-- A switch run amid a crowd does what it does in peace. -/
theorem resumeRun_amid (hbusy : engine.guard.busy = true) (run : Run) :
    engine.resumeRunAmid crowd run = engine.resumeRun run := by
  cases hstage : run.stage with
  | spawned =>
    simp only [resumeRunAmid, resumeRun, hstage]
    exact beginRun_amid hbusy
  | settling probe index =>
    obtain ⟨_, hwork, -⟩ :=
      measure_of_busy hbusy probe.routing.graph probe.generation probe.paths index
    simp only [resumeRunAmid, resumeRun, hstage, amid_of_busy hbusy]
    exact tryFrom_amid (hwork.busy hbusy) _ _

end

/-! ## Whatever happens -/

/-- What can happen to an engine: something is done to it from outside, what is due first happens,
or the clock goes on. -/
inductive Happening where
  | acted (action : Action)
  | due
  | passed (limit : Nat)

/-- The engine after something has happened. -/
def undergo (engine : Engine) : Happening → Engine
  | .acted action => (engine.act action).1
  | .due =>
    match engine.nextTask? with
    | some task => engine.happen task
    | none => engine
  | .passed limit => { engine with now := max engine.now limit }

/-- The engine after the same has happened amid a crowd, which comes whenever somebody holds the
permit: before anything happens, at every instant of a switch run, and before each rule of a forced
choice. -/
def undergoAmid (crowd : Crowd) (engine : Engine) (happening : Happening) : Engine :=
  let engine := if engine.guard.busy then engine.amid crowd else engine
  match happening with
  | .acted .reroute => (engine.rerouteWith (offerAmid crowd)).1
  | .acted action => (engine.act action).1
  | .due =>
    match engine.nextTask? with
    | some (.goOn run) => ({ engine with now := max engine.now run.due }).resumeRunAmid crowd run
    | some (.look due) => engine.happen (.look due)
    | none => engine
  | .passed limit => { engine with now := max engine.now limit }

theorem undergo_turns (h : engine.Steady) (happening : Happening) :
    Turns engine (engine.undergo happening) := by
  cases happening with
  | acted action => exact act_turns h action
  | due =>
    unfold undergo
    cases htask : engine.nextTask? with
    | none => exact .refl
    | some task => exact happen_turns h (nextTask?_pending htask)
  | passed limit => exact .single (waited_turn _ _ _ _)

theorem undergoAll_turns (h : engine.Steady) (happenings : List Happening) :
    Turns engine (happenings.foldl undergo engine) := by
  induction happenings generalizing engine with
  | nil => exact .refl
  | cons happening rest ih =>
    have hfirst := undergo_turns h happening
    exact hfirst.trans (ih (hfirst.steady h))

theorem undergo_amid (h : engine.Steady) (crowd : Crowd) (happening : Happening) :
    engine.undergoAmid crowd happening = engine.undergo happening := by
  have hunnoticed : (if engine.guard.busy then engine.amid crowd else engine) = engine := by
    split
    · rename_i hbusy
      exact amid_of_busy hbusy crowd
    · rfl
  unfold undergoAmid
  rw [hunnoticed]
  cases happening with
  | acted action =>
    cases action with
    | reroute => exact congrArg Prod.fst (rerouteWith_amid engine)
    | _ => rfl
  | passed limit => rfl
  | due =>
    simp only [undergo]
    cases htask : engine.nextTask? with
    | none => rfl
    | some task =>
      cases task with
      | look due => rfl
      | goOn run =>
        -- a run holds the permit
        have hrun : engine.run = some run := nextTask?_pending htask
        have hbusy := (h.exclusive.of_run hrun).1
        exact @resumeRun_amid { engine with now := max engine.now run.due } crowd hbusy run

/-- Whatever happens to an engine, a crowd changes nothing about it. -/
theorem undergoAll_amid (h : engine.Steady) (crowd : Crowd) (happenings : List Happening) :
    happenings.foldl (undergoAmid crowd) engine = happenings.foldl undergo engine := by
  induction happenings generalizing engine with
  | nil => rfl
  | cons happening rest ih =>
    rw [List.foldl_cons, List.foldl_cons, undergo_amid h crowd happening]
    exact ih ((undergo_turns h happening).steady h)

/-- A passing of time is such happenings, one after another. -/
theorem passUntil_undergoes (engine : Engine) (limit : Nat) :
    ∃ happenings : List Happening, engine.passUntil limit = happenings.foldl undergo engine := by
  refine passUntil_induction
    (motive := fun later => ∃ happenings : List Happening, later = happenings.foldl undergo engine)
    ?_ ?_ ⟨[], rfl⟩ limit
  · rintro later task ⟨happenings, rfl⟩ htask
    exact ⟨happenings ++ [.due], by simp only [List.foldl_concat, undergo, htask]⟩
  · rintro later bound ⟨happenings, rfl⟩
    exact ⟨happenings ++ [.passed bound], by simp only [List.foldl_concat, undergo]⟩

/-! ## Inert engines -/

/-- What needs the permit is answered, and leaves the engine as it is. -/
structure Inert (engine : Engine) : Prop where
  trigger : engine.trigger = (engine, none)
  tick : engine.tick = (engine, if engine.selector.session then .busy else .inactive)
  reroute : engine.reroute = (engine, .ok none)
  /-- Nor does anything come of a forced choice that is interjected, -/
  interjected : ∀ offer, engine.interject offer .reroute = engine
  /-- or asked for on a line of a control session. -/
  session : ∀ stream, engine.act (.control stream) =
    (((Session.serve stream).1.filter (· ≠ .reroute)).foldl obey engine,
      .ending (Session.serve stream).2)

/-- While somebody holds the permit, nothing comes of all that needs it.  A switch run holds the
permit, so others may try these things at every instant of it, as often as they like: the engine,
its rules, its reports and what it commits are the same as without them. -/
theorem Reachable.inert_while_busy {storage : Storage} {settings : Settings}
    (h : Reachable storage settings engine) :
    (engine.guard.busy = true → engine.Inert ∧
      ∀ action : Action, action.Gated →
        engine.act action = (engine, engine.turnedAway action)) ∧
    (∀ run, engine.run = some run → engine.guard.busy = true ∧
      ∀ crowd, engine.resumeRunAmid crowd run = engine.resumeRun run) ∧
    (∀ (crowd : Crowd) (happenings : List Happening),
      happenings.foldl (undergoAmid crowd) engine = happenings.foldl undergo engine) ∧
    ∀ limit, ∃ happenings : List Happening,
      engine.passUntil limit = happenings.foldl undergo engine := by
  refine ⟨fun hbusy => ⟨?_, fun action => act_of_gated hbusy⟩, ?_, ?_, engine.passUntil_undergoes⟩
  · exact {
      trigger := trigger_of_busy hbusy
      tick := tick_of_busy hbusy
      reroute := rerouteWith_of_busy hbusy
      interjected := fun offer => congrArg Prod.fst (rerouteWith_of_busy hbusy)
      session := fun stream => Prod.ext (obeyAll_of_busy hbusy (Session.serve stream).1) rfl }
  · exact fun run hrun => ⟨(h.steady.exclusive.of_run hrun).1, fun _ =>
      resumeRun_amid (h.steady.exclusive.of_run hrun).1 run⟩
  · exact fun crowd happenings => undergoAll_amid h.steady crowd happenings

/-- A client that sends one line. -/
def rerouteLine : List Chunk := [.data [82, 101, 114, 111, 117, 116, 101, 10]]

theorem serve_rerouteLine : Session.serve rerouteLine = ([.reroute], .closed) := by
  rw [Session.serve, Session.serveFrom_eq]
  decide

/-- A crowd that tries everything at every instant. -/
def hasty : Crowd where
  tries := fun _ => [.trigger, .tick, .reroute, .control rerouteLine]
  gated := by
    simp [Action.Gated, serve_rerouteLine]

/-- The run goes on amid this crowd and makes its winner active. -/
theorem inert_while_busy_settling :
    settling.guard.busy = true ∧ settling.Inert ∧
    ([.due].foldl (undergoAmid hasty) settling).reports =
      [(0, ⟨1, [0, 0, 800], some 2, true, 2000⟩)] ∧
    ([.due].foldl (undergoAmid hasty) settling).selector.candidates.active = some 2 := by
  obtain ⟨hinert, -, hamid, -⟩ := settling_reachable.inert_while_busy
  have hbusy : settling.guard.busy = true := by decide
  refine ⟨hbusy, (hinert hbusy).1, ?_, ?_⟩
  · rw [hamid]
    decide
  · rw [hamid]
    decide

end TrafficSteering.Engine
