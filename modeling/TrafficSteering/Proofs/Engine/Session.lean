import TrafficSteering.Proofs.Engine.Busy
import TrafficSteering.Proofs.Selector.Announcements
set_option autoImplicit false

/-!
# The session during a switch run

Only the monitor asks whether there is a traffic session, and it asks in vain while somebody holds
the permit.  So a session may be started and stopped at any instant of a switch run: nothing of the
run comes out differently.

`hushed` puts the session aside: the flag and the calls that tell of it.  The functions whose names
end in `Toggled` are the work of a run, and the handling of a packet, while others start and stop
the session at every instant.  Whatever happens during a run, two engines that are alike but for the
session stay alike, also if the session of one of them is toggled all the time.
-/

namespace TrafficSteering

/-! ## The session put aside -/

/-- Whether an event tells that the session starts or stops. -/
def Event.isSession : Event → Bool
  | .started | .stopped => true
  | .rerouted | .pathChanged _ => false

def Selector.hushed (selector : Selector) : Selector := { selector with session := false }

def Call.hushed (call : Call Selector) : Call Selector := { call with found := call.found.hushed }

/-- The selector without its session, and the calls that tell of something else. -/
def SelectorForum.hushed (forum : SelectorForum) : SelectorForum :=
  { forum with
    state := forum.state.hushed
    calls := (forum.calls.filter fun call => !call.event.isSession).map Call.hushed }

def Moment.hushed (moment : Moment) : Moment := { moment with forum := moment.forum.hushed }

def Entry.hushed (entry : Entry) : Entry := { entry with found := entry.found.hushed }

/-- The engine with the session put aside, at all moments of its history, too. -/
def Engine.hushed (engine : Engine) : Engine :=
  ⟨engine.toMoment.hushed, engine.history.map Entry.hushed⟩

/-! ## Operations that do not notice the session -/

namespace Selector

/-- An operation that neither reads the session nor tells of it. -/
structure Unaware {α : Type} (operation : Selector → Outcome Selector α) : Prop where
  hushed : ∀ selector, operation selector.hushed =
    ⟨(operation selector).state.hushed, (operation selector).events, (operation selector).answer⟩
  events : ∀ selector, ∀ event ∈ (operation selector).events, event.isSession = false

theorem changeOf_isSession {selector : Selector} {reason : ChangeReason}
    {found : Option (Path × Option Nat)} {event : Event}
    (h : event ∈ selector.changeOf reason found) : event.isSession = false := by
  simp only [changeOf] at h
  split at h
  · split at h
    · cases h
    · obtain rfl := List.mem_singleton.mp h
      rfl
  · cases h

theorem selectFor_unaware (reason : ChangeReason) (src dst : SwitchId) :
    Unaware fun selector => selector.selectFor reason src dst where
  hushed := by
    intro selector
    have hrequired : selector.hushed.requireRouting = selector.requireRouting := rfl
    have hcandidates : selector.hushed.candidates = selector.candidates := rfl
    simp only [selectFor, hrequired, hcandidates]
    cases selector.requireRouting with
    | error fault => rfl
    | ok routing =>
      simp only
      split <;> rfl
  events := by
    intro selector event hevent
    simp only [selectFor] at hevent
    split at hevent
    · cases hevent
    · split at hevent
      · rcases List.mem_append.mp hevent with hforced | hchange
        · split at hforced
          · obtain rfl := List.mem_singleton.mp hforced
            rfl
          · cases hforced
        · exact changeOf_isSession hchange
      · cases hevent

theorem select_unaware (src dst : SwitchId) : Unaware fun selector => selector.select src dst :=
  selectFor_unaware .selected src dst

theorem commit_unaware (generation : Option Nat) (index : Nat) :
    Unaware fun selector =>
      selector.commit (generation.getD selector.candidates.generation) index where
  hushed := by
    intro selector
    have hsame : selector.hushed.candidates = selector.candidates := rfl
    simp only [commit, hsame]
    split
    · split <;> rfl
    · rfl
  events := by
    intro selector event hevent
    simp only [commit] at hevent
    split at hevent
    · split at hevent
      · split at hevent
        · cases hevent
        · obtain rfl := List.mem_singleton.mp hevent
          rfl
      · cases hevent
    · cases hevent

theorem disable_hushed (selector : Selector) :
    selector.hushed.disable = selector.disable.hushed := by
  have hsame : selector.hushed.routing = selector.routing := rfl
  simp only [disable, hsame]
  split <;> rfl

theorem update_hushed (selector : Selector) (report : Snapshot) :
    selector.hushed.update report =
      ((selector.update report).1.hushed, (selector.update report).2) := by
  have hsame : selector.hushed.expected = selector.expected := rfl
  simp only [update, hsame, disable_hushed]
  split
  · split <;> rfl
  · rfl

end Selector

namespace SelectorForum

variable {forum : SelectorForum}

/-- Of calls that all tell of the session nothing is left, and calls that tell of something else are
all left. -/
theorem hushed_calls (members : List Handle) (found : Selector) {events : List Event}
    (session : Bool) (hevents : ∀ event ∈ events, event.isSession = session) :
    ((Forum.callsFor members found events).filter fun call => !call.event.isSession).map
        Call.hushed =
      if session then [] else Forum.callsFor members found.hushed events := by
  have hcalls : ∀ call ∈ Forum.callsFor members found events, call.event.isSession = session := by
    intro call hcall
    obtain ⟨event, hevent, hcall⟩ := List.mem_flatMap.mp hcall
    obtain ⟨member, -, rfl⟩ := List.mem_map.mp hcall
    exact hevents event hevent
  cases session with
  | true =>
    rw [List.filter_eq_nil_iff.mpr fun call hcall => by simp [hcalls call hcall]]
    rfl
  | false =>
    rw [List.filter_eq_self.mpr fun call hcall => by simp [hcalls call hcall]]
    simp [Forum.callsFor, List.map_flatMap, Call.hushed, Function.comp_def]

/-- What an operation comes to before listeners that do not call back, without the session. -/
theorem perform_fst_hushed (hquiet : forum.audience.Quiet) {α : Type}
    (operation : Selector → Outcome Selector α) (session : Bool)
    (hevents : ∀ event ∈ (operation forum.state).events, event.isSession = session) :
    (forum.perform operation).1.hushed =
      { forum.hushed with
        state := (operation forum.state).state.hushed
        calls := forum.hushed.calls ++ if session then [] else
          Forum.callsFor forum.audience.members (operation forum.state).state.hushed
            (operation forum.state).events } := by
  unfold perform
  rw [Forum.settle_of_quiet _ hquiet]
  simp only [hushed, List.filter_append, List.map_append, hushed_calls _ _ session hevents]

theorem perform_hushed (hquiet : forum.audience.Quiet) {α : Type}
    {operation : Selector → Outcome Selector α} (h : Selector.Unaware operation) :
    forum.hushed.perform operation =
      ((forum.perform operation).1.hushed, (forum.perform operation).2) := by
  have hhushed : forum.hushed.audience.Quiet := hquiet
  have hstate : forum.hushed.state = forum.state.hushed := rfl
  rw [perform_fst_hushed hquiet operation false (h.events forum.state)]
  unfold perform
  rw [Forum.settle_of_quiet _ hhushed, hstate, h.hushed]
  rfl

/-- An operation that changes nothing but the session and tells of nothing else. -/
theorem perform_session (hquiet : forum.audience.Quiet) {α : Type}
    {operation : Selector → Outcome Selector α}
    (hstate : (operation forum.state).state.hushed = forum.state.hushed)
    (hevents : ∀ event ∈ (operation forum.state).events, event.isSession = true) :
    (forum.perform operation).1.hushed = forum.hushed := by
  rw [perform_fst_hushed hquiet operation true hevents, hstate]
  simp [hushed]

theorem disturb_hushed (hquiet : forum.audience.Quiet) (interjection : Interjection) :
    forum.hushed.disturb interjection = (forum.disturb interjection).hushed := by
  cases interjection with
  | grab | reroute => rfl
  | disable => simp only [disturb, modify, hushed, Selector.disable_hushed]
  | update report => simp only [disturb, update, hushed, Selector.update_hushed]
  | select src dst =>
    exact congrArg Prod.fst (perform_hushed hquiet (Selector.select_unaware src dst))

theorem disturb_quiet (hquiet : forum.audience.Quiet) (interjection : Interjection) :
    (forum.disturb interjection).audience.Quiet := by
  cases interjection with
  | grab | reroute | disable | update => exact hquiet
  | select src dst => exact perform_audience hquiet _ ▸ hquiet

end SelectorForum

namespace Engine

variable {engine first second : Engine}

theorem UnderPermit.quiet {new : List Entry} (h : UnderPermit first second new)
    (hquiet : first.forum.audience.Quiet) : second.forum.audience.Quiet := by
  rw [h.forum, disturbed]
  generalize first.forum = forum at hquiet
  induction interjectionsIn new generalizing forum with
  | nil => exact hquiet
  | cons interjection rest ih => exact ih _ (SelectorForum.disturb_quiet hquiet interjection)

/-! ## Others start and stop the session -/

/-- Starts or stops the session. -/
def toggle (engine : Engine) (on : Bool) : Engine := if on then engine.start else engine.stop

/-- Others who start and stop the session: what they ask for at an instant, one thing after
another. -/
abbrev Sessions := Engine → List Bool

/-- The engine after others have started and stopped the session as they do now. -/
def toggled (engine : Engine) (sessions : Sessions) : Engine :=
  (sessions engine).foldl toggle engine

section

variable (sessions : Sessions)

/-- Offers a rule. -/
def offerToggled : Offer := fun engine rule => (engine.toggled sessions).offer rule

/-- Computes the rules of a path and offers them. -/
def installPathToggled (engine : Engine) (computation : Computation) : Engine × Except Fault Nat :=
  (engine.toggled sessions).installWith (offerToggled sessions) computation

/-- Installs the winner and makes it active. -/
def installWinnerToggled (engine : Engine) (number : Nat) (probe : Probe) (winner : Option Nat) :
    Engine × Bool :=
  match winner with
  | none => (engine, false)
  | some index =>
    match probe.paths[index]? with
    | none => (engine, false)
    | some path =>
      match engine.installPathToggled sessions
          ⟨.winner number index, path, probe.generation, probe.routing⟩ with
      | (engine, .ok _) =>
        (engine.toggled sessions).perform fun selector => selector.commit probe.generation index
      | (engine, .error _) => (engine, false)

/-- Concludes a run after the last candidate. -/
def concludeToggled (engine : Engine) (number : Nat) (probe : Probe) : Engine :=
  let engine : Engine := { engine.toggled sessions with phase := .installing }
  let engine := engine.toggled sessions
  let throughputs := engine.recorder.table.samples
  let selected := engine.recorder.table.best?.map Prod.fst
  let (engine, committed) := engine.installWinnerToggled sessions number probe selected
  let engine := engine.toggled sessions
  { engine with phase := .idle }.finishRun number
    { generation := probe.generation, throughputs, selected, committed
      elapsed := engine.now - probe.started }

/-- Tries candidates from a place on. -/
def tryFromToggled (engine : Engine) (number : Nat) (probe : Probe) (index : Nat) :
    List Path → Engine
  | [] => engine.concludeToggled sessions number probe
  | path :: rest =>
    let engine := engine.toggled sessions
    let engine : Engine :=
      { engine with
        phase := .probing index
        run := some { number, stage := .settling probe index, due := engine.now } }
    match engine.installPathToggled sessions
        ⟨.candidate number index, path, probe.generation, probe.routing⟩ with
    | (engine, .error _) => engine.tryFromToggled number probe (index + 1) rest
    | (engine, .ok _) =>
      let engine := engine.toggled sessions
      { engine with
        run := some { number, stage := .settling probe index
                      due := engine.after engine.settings.settlePeriod } }

/-- Begins the work of a run. -/
def beginRunToggled (engine : Engine) (number : Nat) : Engine :=
  let engine := engine.toggled sessions
  let candidates := engine.selector.candidates
  match engine.selector.routing with
  | some routing =>
    if routing.generation = candidates.generation ∧ candidates.paths ≠ [] then
      let probe : Probe := ⟨engine.now, candidates.generation, routing, candidates.paths⟩
      (engine.takeUp number probe).tryFromToggled sessions number probe 0 probe.paths
    else engine.finishRun number { generation := candidates.generation }
  | none => engine.finishRun number { generation := candidates.generation }

/-- Takes a run that is due to its next wait or to its end. -/
def resumeRunToggled (engine : Engine) (run : Run) : Engine :=
  match run.stage with
  | .spawned => engine.beginRunToggled sessions run.number
  | .settling probe index =>
    let (engine, _) :=
      (engine.toggled sessions).measure probe.routing.graph probe.generation probe.paths index
    engine.tryFromToggled sessions run.number probe (index + 1) (probe.paths.drop (index + 1))

/-- Installs the rule for a packet. -/
def answerPacketToggled (engine : Engine) (packet : Packet) :
    Except Fault (Option Selection) → Engine × Except Fault (Option Rule)
  | .error fault => (engine, .error fault)
  | .ok none => (engine, .ok none)
  | .ok (some selection) =>
    match engine.selector.routing with
    | none => (engine, .ok none)
    | some routing =>
      engine.installer.installForPacket (offerToggled sessions) routing.graph selection.path packet
        (engine.note (.computed ⟨.packet packet, selection.path, selection.generation, routing⟩))

/-- Answers a packet. -/
def handlePacketToggled (engine : Engine) (packet : Packet) :
    Engine × Except Fault (Option Rule) :=
  if !packet.etherType.isRoutable || !engine.selector.isEnabled then (engine, .ok none)
  else match engine.installer.host packet.src, engine.installer.host packet.dst with
    | .error fault, _ => (engine, .error fault)
    | _, .error fault => (engine, .error fault)
    | .ok src, .ok dst =>
      let (engine, answer) := engine.perform fun selector => selector.select src.switch dst.switch
      (engine.toggled sessions).answerPacketToggled sessions packet answer

end

/-- The engine after something has happened while others started and stopped the session. -/
def undergoToggled (sessions : Sessions) (engine : Engine) : Happening → Engine
  | .acted (.packet packet) => (engine.handlePacketToggled sessions packet).1
  | .due =>
    match engine.nextTask? with
    | some (.goOn run) =>
      ({ engine with now := max engine.now run.due }).resumeRunToggled sessions run
    | some (.look due) => engine.happen (.look due)
    | none => engine
  | happening => engine.undergo happening

/-- Where nobody touches the session, all this is the work of the engine itself. -/
theorem tryFromToggled_nobody (engine : Engine) (number : Nat) (probe : Probe) (index : Nat)
    (rest : List Path) :
    engine.tryFromToggled (fun _ => []) number probe index rest =
      engine.tryFrom number probe index rest := by
  induction rest generalizing engine index with
  | nil => rfl
  | cons path rest ih =>
    simp only [tryFromToggled, ih]
    rfl

theorem resumeRunToggled_nobody (engine : Engine) (run : Run) :
    engine.resumeRunToggled (fun _ => []) run = engine.resumeRun run := by
  cases hstage : run.stage with
  | spawned =>
    simp only [resumeRunToggled, resumeRun, hstage, beginRunToggled, tryFromToggled_nobody]
    rfl
  | settling probe index =>
    simp only [resumeRunToggled, resumeRun, hstage, tryFromToggled_nobody]
    rfl

theorem undergoToggled_nobody (engine : Engine) (happening : Happening) :
    engine.undergoToggled (fun _ => []) happening = engine.undergo happening := by
  cases happening with
  | acted action => cases action <;> rfl
  | passed limit => rfl
  | due =>
    simp only [undergoToggled, undergo]
    cases engine.nextTask? with
    | none => rfl
    | some task =>
      cases task with
      | goOn run => exact resumeRunToggled_nobody _ run
      | look due => rfl

/-! ## Engines that are alike -/

/-- Two engines differ in nothing but the session, and nobody calls back. -/
structure Alike (first second : Engine) : Prop where
  hushed : first.hushed = second.hushed
  quiet : first.forum.audience.Quiet

/-- Two operations have left engines that are alike, and have answered the same. -/
structure AlikeWith {α : Type} (first second : Engine × α) : Prop where
  alike : Alike first.1 second.1
  answer : first.2 = second.2

theorem AlikeWith.split {α : Type} {answer : α} {outcome : Engine × α}
    (h : AlikeWith (first, answer) outcome) :
    ∃ second, outcome = (second, answer) ∧ Alike first second :=
  ⟨outcome.1, Prod.ext rfl h.answer.symm, h.alike⟩

/-- An operation does the same to an engine without its session. -/
def Hushes {α : Type} (operation : Engine → Engine × α) (engine : Engine) : Prop :=
  operation engine.hushed = ((operation engine).1.hushed, (operation engine).2)

namespace Alike

theorem refl (hquiet : engine.forum.audience.Quiet) : Alike engine engine := ⟨rfl, hquiet⟩

/-- What has nothing to do with the session is the same. -/
theorem same (h : Alike first second) {α : Type} (field : Engine → α)
    (hfield : ∀ engine, field engine.hushed = field engine) :
    field second = field first := by
  rw [← hfield second, ← h.hushed, hfield first]

theorem busy (h : Alike first second) (hbusy : first.guard.busy = true) :
    second.guard.busy = true :=
  (h.same (·.guard.busy) fun _ => rfl).trans hbusy

theorem second_quiet (h : Alike first second) : second.forum.audience.Quiet :=
  h.same (·.forum.audience) (fun _ => rfl) ▸ h.quiet

theorem symm (h : Alike first second) : Alike second first := ⟨h.hushed.symm, h.second_quiet⟩

theorem of_change (h : Alike first second) (change : Engine → Engine)
    (hhushed : ∀ engine, Alike first engine → (change engine).hushed = change engine.hushed)
    (hquiet : (change first).forum.audience.Quiet) : Alike (change first) (change second) where
  hushed := by rw [hhushed first (.refl h.quiet), hhushed second h, h.hushed]
  quiet := hquiet

/-- A change that leaves the selector and its listeners alone. -/
theorem change (h : Alike first second) (change : Engine → Engine)
    (hhushed : ∀ engine, (change engine).hushed = change engine.hushed)
    (haudience : (change first).forum.audience = first.forum.audience) :
    Alike (change first) (change second) :=
  h.of_change change (fun engine _ => hhushed engine) (haudience ▸ h.quiet)

/-- What others may interject while somebody holds the permit. -/
theorem disturb (h : Alike first second) (interjection : Interjection) :
    Alike { first with forum := first.forum.disturb interjection }
      { second with forum := second.forum.disturb interjection } := by
  refine h.of_change (fun engine => { engine with forum := engine.forum.disturb interjection }) ?_
    (SelectorForum.disturb_quiet h.quiet interjection)
  intro engine hengine
  exact congrArg (fun forum => ({ engine.hushed with forum } : Engine))
    (SelectorForum.disturb_hushed hengine.second_quiet interjection).symm

/-- An operation to which the session does not matter. -/
theorem operate (h : Alike first second) {α : Type} (operation : Engine → Engine × α)
    (hhushes : ∀ engine, Alike first engine → Hushes operation engine)
    (hquiet : (operation first).1.forum.audience.Quiet) :
    AlikeWith (operation first) (operation second) := by
  have hfirst : Hushes operation first := hhushes first (.refl h.quiet)
  have hsecond : Hushes operation second := hhushes second h
  rw [Hushes, ← h.hushed, hfirst] at hsecond
  obtain ⟨hhushed, hanswer⟩ := Prod.mk.inj hsecond
  exact ⟨⟨hhushed, hquiet⟩, hanswer⟩

theorem perform (h : Alike first second) {α : Type} {operation : Selector → Outcome Selector α}
    (hunaware : Selector.Unaware operation) :
    AlikeWith (first.perform operation) (second.perform operation) := by
  refine h.operate (·.perform operation) ?_ ?_
  · intro engine hengine
    have hforum : engine.hushed.forum = engine.forum.hushed := rfl
    simp only [Hushes, Engine.perform, hforum,
      SelectorForum.perform_hushed hengine.second_quiet hunaware]
    rfl
  · exact SelectorForum.perform_audience h.quiet operation ▸ h.quiet

theorem offer (h : Alike first second) (hbusy : first.guard.busy = true) (rule : Rule) :
    AlikeWith (first.offer rule) (second.offer rule) := by
  refine h.operate (·.offer rule) ?_ ?_
  · intro engine hengine
    have hbefore : engine.hushed.beforeRule = engine.beforeRule := rfl
    have hhushed : engine.hushed.guard.busy = true := hengine.busy hbusy
    simp only [Hushes, Engine.offer, hbefore]
    cases engine.beforeRule with
    | none => rfl
    | some interjection =>
      have hforum : engine.hushed.forum = engine.forum.hushed := rfl
      simp only [interjected_of_busy hhushed, interjected_of_busy (hengine.busy hbusy), hforum,
        SelectorForum.disturb_hushed hengine.second_quiet]
      rfl
  · obtain ⟨_, hwork, -⟩ := offer_of_busy hbusy rule
    exact hwork.quiet h.quiet

theorem measure (h : Alike first second) (hbusy : first.guard.busy = true) (graph : Graph)
    (generation : Nat) (paths : List Path) (index : Nat) :
    AlikeWith (first.measure graph generation paths index)
      (second.measure graph generation paths index) := by
  refine h.operate (·.measure graph generation paths index) ?_ ?_
  · intro engine hengine
    have hbefore : engine.hushed.beforeReading = engine.beforeReading := rfl
    have hhushed : engine.hushed.guard.busy = true := hengine.busy hbusy
    simp only [Hushes, Engine.measure, hbefore]
    cases paths[index]?.bind graph.measuredAt? with
    | none => rfl
    | some port =>
      cases engine.beforeReading with
      | none => rfl
      | some interjection =>
        have hforum : engine.hushed.forum = engine.forum.hushed := rfl
        simp only [interjected_of_busy hhushed, interjected_of_busy (hengine.busy hbusy), hforum,
          SelectorForum.disturb_hushed hengine.second_quiet]
        rfl
  · obtain ⟨_, hwork, -⟩ := measure_of_busy hbusy graph generation paths index
    exact hwork.quiet h.quiet

end Alike

/-! ## The run does not notice the session -/

theorem toggle_hushed (hquiet : engine.forum.audience.Quiet) (on : Bool) :
    (engine.toggle on).hushed = engine.hushed := by
  have hforum : (engine.toggle on).forum.hushed = engine.forum.hushed := by
    cases on with
    | true => exact SelectorForum.perform_session hquiet rfl fun _ hevent =>
        List.mem_singleton.mp hevent ▸ rfl
    | false => exact SelectorForum.perform_session hquiet rfl fun _ hevent =>
        List.mem_singleton.mp hevent ▸ rfl
  cases on with
  | true | false => exact congrArg (fun forum => ({ engine.hushed with forum } : Engine)) hforum

theorem Alike.toggle (h : Alike first second) (on : Bool) : Alike first (second.toggle on) :=
  ⟨h.hushed.trans (toggle_hushed h.second_quiet on).symm, h.quiet⟩

theorem Alike.toggled (h : Alike first second) (sessions : Sessions) :
    Alike first (second.toggled sessions) := by
  have hall : ∀ (calls : List Bool) {engine : Engine}, Alike first engine →
      Alike first (calls.foldl Engine.toggle engine) := by
    intro calls
    induction calls with
    | nil => exact fun hengine => hengine
    | cons on rest ih => exact fun hengine => ih (hengine.toggle on)
  exact hall _ h

section

variable (sessions : Sessions)

theorem Alike.offerAll (h : Alike first second) (hbusy : first.guard.busy = true)
    (rules : List Rule) :
    AlikeWith (Installer.offerAll Engine.offer first rules)
      (Installer.offerAll (offerToggled sessions) second rules) := by
  induction rules generalizing first second with
  | nil => exact ⟨h, rfl⟩
  | cons rule rest ih =>
    have hone := (h.toggled sessions).offer hbusy rule
    obtain ⟨_, hwork, -⟩ := offer_of_busy hbusy rule
    rw [Installer.offerAll, Installer.offerAll, offerToggled]
    rcases hfirst : Engine.offer first rule with ⟨next, fault | ⟨⟩⟩
    · rw [hfirst] at hone
      obtain ⟨other, hsecond, halike⟩ := hone.split
      rw [hsecond]
      exact ⟨halike, rfl⟩
    · rw [hfirst] at hone hwork
      obtain ⟨other, hsecond, halike⟩ := hone.split
      rw [hsecond]
      exact ih halike (hwork.busy hbusy)

theorem Alike.installPath (h : Alike first second) (hbusy : first.guard.busy = true)
    (computation : Computation) :
    AlikeWith (first.installPath computation) (second.installPathToggled sessions computation) := by
  have hnoted := (h.toggled sessions).change (·.note (.computed computation)) (fun _ => rfl) rfl
  have hinstaller := (h.toggled sessions).same (·.installer) fun _ => rfl
  unfold Engine.installPath installPathToggled installWith Installer.installPath
  rw [hinstaller]
  cases first.installer.rulesForPath computation.routing.graph computation.path with
  | error fault => exact ⟨hnoted, rfl⟩
  | ok rules =>
    have hoffers := hnoted.offerAll sessions hbusy rules
    rcases hfirst : Installer.offerAll Engine.offer (first.note (.computed computation)) rules with
      ⟨next, fault | ⟨⟩⟩
    · rw [hfirst] at hoffers
      obtain ⟨other, hsecond, halike⟩ := hoffers.split
      simp only [hfirst, hsecond]
      exact ⟨halike, rfl⟩
    · rw [hfirst] at hoffers
      obtain ⟨other, hsecond, halike⟩ := hoffers.split
      simp only [hfirst, hsecond]
      exact ⟨halike, rfl⟩

theorem Alike.installWinner (h : Alike first second) (hbusy : first.guard.busy = true)
    (number : Nat) (probe : Probe) (winner : Option Nat) :
    AlikeWith (first.installWinner number probe winner)
      (second.installWinnerToggled sessions number probe winner) := by
  cases winner with
  | none => exact ⟨h, rfl⟩
  | some index =>
    cases hpath : probe.paths[index]? with
    | none =>
      simp only [Engine.installWinner, installWinnerToggled, hpath]
      exact ⟨h, rfl⟩
    | some path =>
      have hinstall := h.installPath sessions hbusy
        ⟨.winner number index, path, probe.generation, probe.routing⟩
      simp only [Engine.installWinner, installWinnerToggled, hpath]
      rcases hfirst : first.installPath
          ⟨.winner number index, path, probe.generation, probe.routing⟩ with ⟨next, fault | count⟩
      · rw [hfirst] at hinstall
        obtain ⟨other, hsecond, halike⟩ := hinstall.split
        simp only [hsecond]
        exact ⟨halike, rfl⟩
      · rw [hfirst] at hinstall
        obtain ⟨other, hsecond, halike⟩ := hinstall.split
        simp only [hsecond]
        exact (halike.toggled sessions).perform
          (Selector.commit_unaware (some probe.generation) index)

theorem Alike.conclude (h : Alike first second) (hbusy : first.guard.busy = true) (number : Nat)
    (probe : Probe) :
    Alike (first.conclude number probe) (second.concludeToggled sessions number probe) := by
  have hdeciding := ((h.toggled sessions).change (fun engine =>
    { engine with phase := .installing }) (fun _ => rfl) rfl).toggled sessions
  have hrecorder := hdeciding.same (·.recorder) fun _ => rfl
  have hwinner := hdeciding.installWinner sessions hbusy number probe
    (first.recorder.table.best?.map Prod.fst)
  simp only [Engine.conclude, concludeToggled, hrecorder]
  rcases hfirst : Engine.installWinner { first with phase := .installing } number probe
      (first.recorder.table.best?.map Prod.fst) with ⟨next, committed⟩
  rw [hfirst] at hwinner
  obtain ⟨other, hsecond, halike⟩ := hwinner.split
  simp only [hsecond]
  exact (halike.toggled sessions).change (fun engine =>
    { engine with phase := .idle }.finishRun number
      { generation := probe.generation, throughputs := first.recorder.table.samples
        selected := first.recorder.table.best?.map Prod.fst, committed
        elapsed := engine.now - probe.started }) (fun _ => rfl) rfl

/-- The induction is on the candidates that are left. -/
theorem Alike.tryFrom (h : Alike first second) (hbusy : first.guard.busy = true) (number : Nat)
    (probe : Probe) (index : Nat) (rest : List Path) :
    Alike (first.tryFrom number probe index rest)
      (second.tryFromToggled sessions number probe index rest) := by
  induction rest generalizing first second index with
  | nil => exact h.conclude sessions hbusy number probe
  | cons path rest ih =>
    let turn : Engine → Engine := fun engine => { engine with
      phase := .probing index, run := some ⟨number, .settling probe index, engine.now⟩ }
    have htried := (h.toggled sessions).change turn (fun _ => rfl) rfl
    have hinstall := htried.installPath sessions hbusy
      ⟨.candidate number index, path, probe.generation, probe.routing⟩
    obtain ⟨_, hwork, -⟩ := @installPath_of_busy (turn first) hbusy
      ⟨.candidate number index, path, probe.generation, probe.routing⟩
    simp only [Engine.tryFrom, tryFromToggled]
    rcases hfirst : (turn first).installPath
        ⟨.candidate number index, path, probe.generation, probe.routing⟩ with ⟨next, fault | count⟩
    · rw [hfirst] at hinstall hwork
      obtain ⟨other, hsecond, halike⟩ := hinstall.split
      rw [hsecond]
      exact ih halike (hwork.busy hbusy) (index + 1)
    · rw [hfirst] at hinstall
      obtain ⟨other, hsecond, halike⟩ := hinstall.split
      rw [hsecond]
      exact (halike.toggled sessions).change (fun engine => { engine with
        run := some ⟨number, .settling probe index, engine.after engine.settings.settlePeriod⟩ })
        (fun _ => rfl) rfl

theorem Alike.beginRun (h : Alike first second) (hbusy : first.guard.busy = true) (number : Nat) :
    Alike (first.beginRun number) (second.beginRunToggled sessions number) := by
  have htoggled := h.toggled sessions
  have hcandidates := htoggled.same (·.selector.candidates) fun _ => rfl
  have hrouting := htoggled.same (·.selector.routing) fun _ => rfl
  have hnow := htoggled.same (·.now) fun _ => rfl
  have hnothing := htoggled.change (fun engine =>
    engine.finishRun number { generation := engine.selector.candidates.generation })
    (fun _ => rfl) rfl
  simp only [hcandidates] at hnothing
  simp only [Engine.beginRun, beginRunToggled, hcandidates, hrouting, hnow]
  cases first.selector.routing with
  | none => exact hnothing
  | some routing =>
    by_cases hfound : routing.generation = first.selector.candidates.generation ∧
        first.selector.candidates.paths ≠ []
    · have htaken := htoggled.change (·.takeUp number ⟨first.now,
        first.selector.candidates.generation, routing, first.selector.candidates.paths⟩)
        (fun _ => rfl) rfl
      simp only [if_pos hfound]
      exact htaken.tryFrom sessions hbusy number _ 0 _
    · simp only [if_neg hfound]
      exact hnothing

theorem Alike.resumeRun (h : Alike first second) (hbusy : first.guard.busy = true) (run : Run) :
    Alike (first.resumeRun run) (second.resumeRunToggled sessions run) := by
  cases hstage : run.stage with
  | spawned =>
    simp only [Engine.resumeRun, resumeRunToggled, hstage]
    exact h.beginRun sessions hbusy run.number
  | settling probe index =>
    have hmeasured := (h.toggled sessions).measure hbusy probe.routing.graph probe.generation
      probe.paths index
    obtain ⟨_, hwork, -⟩ :=
      measure_of_busy hbusy probe.routing.graph probe.generation probe.paths index
    simp only [Engine.resumeRun, resumeRunToggled, hstage]
    exact hmeasured.alike.tryFrom sessions (hwork.busy hbusy) run.number probe (index + 1) _

theorem Alike.installForPacket (h : Alike first second) (hbusy : first.guard.busy = true)
    (installer : Installer) (graph : Graph) (path : Path) (packet : Packet) :
    AlikeWith (installer.installForPacket Engine.offer graph path packet first)
      (installer.installForPacket (offerToggled sessions) graph path packet second) := by
  unfold Installer.installForPacket
  cases installer.ruleForPacket graph path packet with
  | error fault => exact ⟨h, rfl⟩
  | ok rule =>
    cases rule with
    | none => exact ⟨h, rfl⟩
    | some rule =>
      have hone := (h.toggled sessions).offer hbusy rule
      simp only [offerToggled]
      rcases hfirst : Engine.offer first rule with ⟨next, fault | ⟨⟩⟩
      · rw [hfirst] at hone
        obtain ⟨other, hsecond, halike⟩ := hone.split
        simp only [hsecond]
        exact ⟨halike, rfl⟩
      · rw [hfirst] at hone
        obtain ⟨other, hsecond, halike⟩ := hone.split
        simp only [hsecond]
        exact ⟨halike, rfl⟩

theorem Alike.answerPacket (h : Alike first second) (hbusy : first.guard.busy = true)
    (packet : Packet) (answer : Except Fault (Option Selection)) :
    AlikeWith (first.answerPacket packet answer)
      (second.answerPacketToggled sessions packet answer) := by
  match answer with
  | .error fault => exact ⟨h, rfl⟩
  | .ok none => exact ⟨h, rfl⟩
  | .ok (some selection) =>
    have hrouting := h.same (·.selector.routing) fun _ => rfl
    have hinstaller := h.same (·.installer) fun _ => rfl
    simp only [Engine.answerPacket, answerPacketToggled, hrouting, hinstaller]
    cases first.selector.routing with
    | none => exact ⟨h, rfl⟩
    | some routing =>
      have hnoted := h.change (·.note (.computed
        ⟨.packet packet, selection.path, selection.generation, routing⟩)) (fun _ => rfl) rfl
      exact hnoted.installForPacket sessions hbusy _ routing.graph selection.path packet

theorem Alike.handlePacket (h : Alike first second) (hbusy : first.guard.busy = true)
    (packet : Packet) :
    AlikeWith (first.handlePacket packet) (second.handlePacketToggled sessions packet) := by
  have henabled := h.same (·.selector.isEnabled) fun _ => rfl
  have hinstaller := h.same (·.installer) fun _ => rfl
  simp only [Engine.handlePacket, handlePacketToggled, henabled, hinstaller]
  by_cases hignored : (!packet.etherType.isRoutable || !first.selector.isEnabled) = true
  · simp only [if_pos hignored]
    exact ⟨h, rfl⟩
  · simp only [if_neg hignored]
    rcases first.installer.host packet.src with fault | src
    · exact ⟨h, rfl⟩
    · rcases first.installer.host packet.dst with fault | dst
      · exact ⟨h, rfl⟩
      · have hselected := h.perform (Selector.select_unaware src.switch dst.switch)
        have hkept : (first.perform fun selector =>
            selector.select src.switch dst.switch).1.guard.busy = true := hbusy
        rcases hfirst : first.perform fun selector => selector.select src.switch dst.switch with
          ⟨next, answer⟩
        rw [hfirst] at hselected hkept
        obtain ⟨other, hsecond, halike⟩ := hselected.split
        simp only [hfirst, hsecond]
        exact (halike.toggled sessions).answerPacket sessions hkept packet answer

end

/-! ## Whatever happens during a run -/

/-- What happens at an instant, and brings no listener that calls back. -/
def Happening.Still : Happening → Prop
  | .acted (.listen listener) => listener.reactions = []
  | .acted action => ¬ action.Lasting
  | .due | .passed _ => True

theorem Alike.toggleBoth (h : Alike first second) (on : Bool) :
    Alike (first.toggle on) (second.toggle on) :=
  (h.symm.toggle on).symm.toggle on

theorem Alike.obeyAll (h : Alike first second) (hbusy : first.guard.busy = true)
    (commands : List Command) : Alike (commands.foldl obey first) (commands.foldl obey second) := by
  induction commands generalizing first second with
  | nil => exact h
  | cons command rest ih =>
    cases command with
    | start => exact ih (h.toggleBoth true) hbusy
    | stop => exact ih (h.toggleBoth false) hbusy
    | reroute =>
      have hnothing : ∀ {engine : Engine}, engine.guard.busy = true →
          engine.obey .reroute = engine := fun hheld =>
        congrArg Prod.fst (rerouteWith_of_busy hheld)
      rw [List.foldl_cons, List.foldl_cons, hnothing hbusy, hnothing (h.busy hbusy)]
      exact ih h hbusy

theorem Alike.measureNow (h : Alike first second) (hbusy : first.guard.busy = true) (index : Nat) :
    AlikeWith (first.measureNow index) (second.measureNow index) := by
  have hrouting := h.same (·.selector.requireRouting) fun _ => rfl
  have hcandidates := h.same (·.selector.candidates) fun _ => rfl
  simp only [Engine.measureNow, hrouting, hcandidates]
  cases first.selector.requireRouting with
  | error fault => exact ⟨h, rfl⟩
  | ok routing =>
    have hmeasured := h.measure hbusy routing.graph first.selector.candidates.generation
      first.selector.candidates.paths index
    exact ⟨hmeasured.alike, congrArg Except.ok hmeasured.answer⟩

theorem Alike.act (h : Alike first second) (hbusy : first.guard.busy = true) {action : Action}
    (hstill : (Happening.acted action).Still) (hpacket : ∀ packet, action ≠ .packet packet) :
    Alike (first.act action).1 (second.act action).1 := by
  by_cases hgated : action.Gated
  · rw [act_of_gated hbusy hgated, act_of_gated (h.busy hbusy) hgated]
    exact h
  have hsecond := h.busy hbusy
  cases action with
  | tick | trigger | reroute => exact absurd trivial hgated
  | await | sleep => exact (hstill trivial).elim
  | packet packet => exact absurd rfl (hpacket packet)
  | route | allPaths | candidates | nothing => exact h
  | listen listener =>
    exact h.of_change (fun engine => { engine with forum := engine.forum.enlist listener })
      (fun _ _ => rfl) (h.quiet.enlist hstill)
  | unlisten listener =>
    exact h.of_change (fun engine => { engine with forum := engine.forum.dismiss listener })
      (fun _ _ => rfl) (h.quiet.dismiss listener)
  | disable => exact h.disturb .disable
  | update report => exact h.disturb (.update report)
  | select src dst => exact (h.perform (Selector.select_unaware src dst)).alike
  | commit generation index => exact (h.perform (Selector.commit_unaware generation index)).alike
  | start => exact h.toggleBoth true
  | stop => exact h.toggleBoth false
  | control stream => exact h.obeyAll hbusy _
  | measure index => exact (h.measureNow hbusy index).alike
  | grab =>
    simp only [Engine.act, grab, Guard.tryBegin?_of_busy hbusy, Guard.tryBegin?_of_busy hsecond]
    exact h
  | release =>
    have hkept := h.same (·.kept) fun _ => rfl
    simp only [Engine.act, release, hkept]
    split
    · exact h
    · exact h.change (fun engine =>
        { engine with guard := engine.guard.release, kept := first.kept - 1 }) (fun _ => rfl) rfl
  | signal value =>
    have hmonitor := h.same (·.monitor) fun _ => rfl
    simp only [Engine.act, signal, hmonitor]
    split
    · exact h
    · exact h
    · exact h.change (fun engine => { engine with monitor := .ended }) (fun _ => rfl) rfl
    · exact h.change (fun engine => { engine with monitor := .off }) (fun _ => rfl) rfl
  | telemetry interface reading =>
    cases reading <;>
      exact h.change (fun engine => (engine.act (.telemetry interface _)).1) (fun _ => rfl) rfl
  | table _ | verdict _ | limit _ | beforeReading _ | beforeRule _ =>
    exact h.change (fun engine => (engine.act _).1) (fun _ => rfl) rfl
  | monitor => exact h.change Engine.startMonitor (fun _ => rfl) rfl

theorem Alike.resumeMonitor (h : Alike first second) (hbusy : first.guard.busy = true) :
    Alike first.resumeMonitor second.resumeMonitor := by
  rw [resumeMonitor_of_busy hbusy, resumeMonitor_of_busy (h.busy hbusy)]
  exact h.change (fun engine =>
    { engine with monitor := .waiting (engine.after engine.settings.monitorPeriod) })
    (fun _ => rfl) rfl

/-- What happens to both engines leaves them alike, whoever starts and stops the session of the
second meanwhile. -/
theorem Alike.undergo (h : Alike first second) (hbusy : first.guard.busy = true)
    {happening : Happening} (hstill : happening.Still) (sessions : Sessions) :
    Alike (first.undergo happening) (second.undergoToggled sessions happening) := by
  cases happening with
  | acted action =>
    cases action with
    | packet packet => exact (h.handlePacket sessions hbusy packet).alike
    | _ => exact h.act hbusy hstill (fun _ hpacket => Action.noConfusion hpacket)
  | passed limit =>
    exact h.change (fun engine => { engine with now := max engine.now limit }) (fun _ => rfl) rfl
  | due =>
    have htask := h.same (·.nextTask?) fun _ => rfl
    simp only [Engine.undergo, undergoToggled, htask]
    cases first.nextTask? with
    | none => exact h
    | some task =>
      cases task with
      | goOn run =>
        have hlater := h.change (fun engine => { engine with now := max engine.now run.due })
          (fun _ => rfl) rfl
        exact hlater.resumeRun sessions hbusy run
      | look due =>
        have hlater := h.change (fun engine => { engine with now := max engine.now due })
          (fun _ => rfl) rfl
        exact hlater.resumeMonitor hbusy

/-! ## Two continuations -/

/-- Two continuations of a switch run.  The same happens in both, but in the second, others start
and stop the session at any instants before the end of the run. -/
inductive Continues (start : Engine) : Engine → Engine → Prop where
  | begun : Continues start start start
  /-- The same happens in both, and others start and stop the session of the second meanwhile. -/
  | shared {first second : Engine} (h : Continues start first second)
      (hrun : first.run.isSome = true) (happening : Happening) (hstill : happening.Still)
      (sessions : Sessions) :
      Continues start (first.undergo happening) (second.undergoToggled sessions happening)
  /-- The session of the second is started or stopped. -/
  | toggled {first second : Engine} (h : Continues start first second)
      (hrun : first.run.isSome = true) (on : Bool) : Continues start first (second.toggle on)

/-- What two engines that are alike agree on. -/
structure Agrees (first second : Engine) : Prop where
  /-- The installed graph with its generation, -/
  routing : second.selector.routing = first.selector.routing
  generation : second.selector.lastGeneration = first.selector.lastGeneration
  /-- the candidates with the active one, -/
  candidates : second.selector.candidates = first.selector.candidates
  endpoints : second.selector.endpoints = first.selector.endpoints
  table : second.recorder.table = first.recorder.table
  run : second.run = first.run
  phase : second.phase = first.phase
  guard : second.guard = first.guard
  /-- what has been offered and taken, -/
  offers : offersIn second.history = offersIn first.history
  plane : second.plane = first.plane
  reports : second.reports = first.reports
  /-- and what each listener has been told of other things than the session. -/
  told : ∀ listener, (second.forum.told listener).filter (fun event => !event.isSession) =
    (first.forum.told listener).filter fun event => !event.isSession

theorem offersIn_hushed (history : List Entry) :
    offersIn (history.map Entry.hushed) = offersIn history := by
  simp only [offersIn, ← List.map_reverse, List.filterMap_map]
  rfl

/-- What a listener has been told of other things than the session. -/
theorem told_hushed (forum : SelectorForum) (listener : Handle) :
    forum.hushed.told listener = (forum.told listener).filter fun event => !event.isSession := by
  simp only [SelectorForum.hushed, Forum.told, List.filter_map, List.map_map, List.filter_filter]
  exact congrArg (List.map Call.event) (List.filter_congr fun _ _ => Bool.and_comm _ _)

theorem Alike.agrees (h : Alike first second) : Agrees first second where
  routing := h.same (·.selector.routing) fun _ => rfl
  generation := h.same (·.selector.lastGeneration) fun _ => rfl
  candidates := h.same (·.selector.candidates) fun _ => rfl
  endpoints := h.same (·.selector.endpoints) fun _ => rfl
  table := h.same (·.recorder.table) fun _ => rfl
  run := h.same (·.run) fun _ => rfl
  phase := h.same (·.phase) fun _ => rfl
  guard := h.same (·.guard) fun _ => rfl
  offers := h.same (fun engine => offersIn engine.history) fun _ => offersIn_hushed _
  plane := h.same (·.plane) fun _ => rfl
  reports := h.same (·.reports) fun _ => rfl
  told := by
    intro listener
    rw [← told_hushed, ← told_hushed]
    exact (congrArg (fun engine : Engine => engine.forum.told listener) h.hushed).symm

theorem Continues.alike {start : Engine} (hsteady : start.Steady)
    (hquiet : start.forum.audience.Quiet) (h : Continues start first second) :
    Alike first second ∧ first.Steady := by
  induction h with
  | begun => exact ⟨.refl hquiet, hsteady⟩
  | shared _ hrun happening hstill sessions ih =>
    obtain ⟨run, hgoing⟩ := Option.isSome_iff_exists.mp hrun
    have hbusy := (ih.2.exclusive.of_run hgoing).1
    exact ⟨ih.1.undergo hbusy hstill sessions, (undergo_turns ih.2 happening).steady ih.2⟩
  | toggled _ _ on ih => exact ⟨ih.1.toggle on, ih.2⟩

/-- Starting and stopping the session does not touch a switch run.  Nobody calls back; from an
engine in a run, the same happens in two continuations, but in the second, others start and stop the
session at any instants before the end of the run.  Up to and including its end, the two engines
differ in nothing but the flag of the session and the calls that tell of it, and so do all the
moments that are written down in their histories.  While the others leave the session alone, the
second engine does what every engine does. -/
theorem Reachable.session_unnoticed {storage : Storage} {settings : Settings} {start : Engine}
    (h : Reachable storage settings start) (hquiet : start.forum.audience.Quiet)
    (hcontinues : Continues start first second) :
    first.hushed = second.hushed ∧ Agrees first second ∧
      ∀ happening, second.undergoToggled (fun _ => []) happening = second.undergo happening := by
  obtain ⟨halike, -⟩ := hcontinues.alike h.steady hquiet
  exact ⟨halike.hushed, halike.agrees, second.undergoToggled_nobody⟩

/-- The session is started, stopped and started again at every instant at which nobody has asked for
it yet. -/
def restless : Sessions := fun engine => if engine.selector.session then [] else [true, false, true]

/-- The run ends as it does without anybody asking for a session. -/
theorem session_unnoticed_settling :
    ∃ first second, Continues settling first second ∧ first.run = none ∧
      first.selector.session = false ∧ second.selector.session = true ∧ Agrees first second ∧
      second.reports = [(0, ⟨1, [0, 0, 800], some 2, true, 2000⟩)] := by
  have hquiet : settling.forum.audience.Quiet := by
    have hnobody : settling.forum.audience.members = [] := by decide
    simp [Audience.Quiet, hnobody]
  have hbegun : Continues settling settling settling := .begun
  have hticked := (hbegun.toggled (by decide) true).shared (by decide) (.acted .tick) id restless
  have hended := (hticked.toggled (by decide) false).shared (by decide) .due trivial restless
  have hagrees := (settling_reachable.session_unnoticed hquiet hended).2.1
  refine ⟨_, _, hended, by decide, by decide, by decide, hagrees, ?_⟩
  rw [hagrees.reports]
  decide

end Engine

end TrafficSteering
