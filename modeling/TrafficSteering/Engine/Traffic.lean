import TrafficSteering.Engine.Basic
set_option autoImplicit false

/-!
# Rules and readings

How the engine offers rules to the data plane, forces a new choice of path, answers packets, and
reads telemetry.  Others may interject something just before a rule or a reading.  An interjection
is used up before it happens, and what it brings about can itself be interrupted only by the
interjection of the other kind; so the operations come in layers, each on top of the one before:
offers without interruption, offers, readings.
-/

namespace TrafficSteering.Engine

/-- A way to offer a rule to the data plane. -/
abbrev Offer := Engine → Rule → Engine × Except Fault Unit

/-- Offers a rule without an interruption. -/
def offerAtOnce : Offer := fun engine rule =>
  let (plane, answer) := engine.plane.install rule
  ({ engine.note (.offered rule) with plane }, answer)

/-- Computes the rules of a path and offers them. -/
def installWith (offer : Offer) (engine : Engine) (computation : Computation) :
    Engine × Except Fault Nat :=
  engine.installer.installPath offer computation.routing.graph computation.path
    (engine.note (.computed computation))

/-- Installs the path of a forced choice on the graph that is installed, if there are both. -/
def installChoice (offer : Offer) (engine : Engine) :
    Except Fault (Option Selection) → Engine × Except Fault (Option Selection)
  | .error fault => (engine, .error fault)
  | .ok none => (engine, .ok none)
  | .ok (some selection) =>
    match engine.selector.routing with
    | none => (engine, .ok (some selection))
    | some routing =>
      match engine.installWith offer ⟨.reroute, selection.path, selection.generation, routing⟩ with
      | (engine, .ok _) => (engine, .ok (some selection))
      | (engine, .error fault) => (engine, .error fault)

/-- Chooses again for the last flow and installs the choice. -/
def chooseWith (offer : Offer) (engine : Engine) : Engine × Except Fault (Option Selection) :=
  let (engine, answer) := engine.perform Selector.reroute
  engine.installChoice offer answer

/-- Forces a new choice for the last flow and installs it.  Nothing happens while somebody holds
the permit; the permit is held until everything is over. -/
def rerouteWith (offer : Offer) (engine : Engine) : Engine × Except Fault (Option Selection) :=
  match engine.guard.tryBegin? with
  | none => (engine, .ok none)
  | some guard =>
    let (engine, answer) :=
      { engine with guard, forcing := engine.forcing + 1 }.chooseWith offer
    ({ engine with guard := engine.guard.release, forcing := engine.forcing - 1 }, answer)

/-- Does what others interject. -/
def interject (offer : Offer) (engine : Engine) : Interjection → Engine
  | .grab => engine.grab.1
  | .disable => engine.disable
  | .reroute => (engine.rerouteWith offer).1
  | .update report => (engine.update report).1
  | .select src dst => (engine.perform fun selector => selector.select src dst).1

/-- Offers a rule to the data plane. -/
def offer : Offer := fun engine rule =>
  match engine.beforeRule with
  | none => engine.offerAtOnce rule
  | some interjection =>
    let engine := { engine.note (.interjected interjection) with beforeRule := none }
    (engine.interject offerAtOnce interjection).offerAtOnce rule

/-- Forces a new choice for the last flow and installs it. -/
def reroute (engine : Engine) : Engine × Except Fault (Option Selection) :=
  engine.rerouteWith offer

/-- Computes the rules of a path, installs them, and returns their number. -/
def installPath (engine : Engine) (computation : Computation) : Engine × Except Fault Nat :=
  engine.installWith offer computation

/-- Samples a candidate and records its throughput. -/
def record (engine : Engine) (graph : Graph) (generation : Nat) (paths : List Path)
    (index : Nat) : Engine × Option UInt32 :=
  let (recorder, answer) := engine.recorder.measure graph generation paths index
  ({ engine.note (.measured ⟨graph, generation, paths, index, answer⟩) with recorder }, answer)

/-- Measures a candidate, if there is a port to read. -/
def measure (engine : Engine) (graph : Graph) (generation : Nat) (paths : List Path)
    (index : Nat) : Engine × Option UInt32 :=
  match paths[index]?.bind graph.measuredAt? with
  | none => (engine, none)
  | some _ =>
    match engine.beforeReading with
    | none => engine.record graph generation paths index
    | some interjection =>
      let engine := { engine.note (.interjected interjection) with beforeReading := none }
      (engine.interject offer interjection).record graph generation paths index

/-- Measures one of the present candidates on the present graph. -/
def measureNow (engine : Engine) (index : Nat) : Engine × Except Fault (Option UInt32) :=
  match engine.selector.requireRouting with
  | .error fault => (engine, .error fault)
  | .ok routing =>
    let candidates := engine.selector.candidates
    let (engine, answer) :=
      engine.measure routing.graph candidates.generation candidates.paths index
    (engine, .ok answer)

/-- Installs the rule for a packet on the path of a selection, on the graph that is installed, if
there are both. -/
def answerPacket (engine : Engine) (packet : Packet) :
    Except Fault (Option Selection) → Engine × Except Fault (Option Rule)
  | .error fault => (engine, .error fault)
  | .ok none => (engine, .ok none)
  | .ok (some selection) =>
    match engine.selector.routing with
    | none => (engine, .ok none)
    | some routing =>
      engine.installer.installForPacket offer routing.graph selection.path packet
        (engine.note (.computed ⟨.packet packet, selection.path, selection.generation, routing⟩))

/-- Answers a packet: selects the path of its flow and installs the rule for the switch that the
packet came from.  Packets that are not routed, and all packets while routing is disabled, are
ignored. -/
def handlePacket (engine : Engine) (packet : Packet) : Engine × Except Fault (Option Rule) :=
  if !packet.etherType.isRoutable || !engine.selector.isEnabled then (engine, .ok none)
  else match engine.installer.host packet.src, engine.installer.host packet.dst with
    | .error fault, _ => (engine, .error fault)
    | _, .error fault => (engine, .error fault)
    | .ok src, .ok dst =>
      let (engine, answer) := engine.perform fun selector => selector.select src.switch dst.switch
      engine.answerPacket packet answer

def start (engine : Engine) : Engine := (engine.perform Selector.start).1

def stop (engine : Engine) : Engine := (engine.perform Selector.stop).1

/-- Does what a remote client asks for. -/
def obey (engine : Engine) : Command → Engine
  | .start => engine.start
  | .stop => engine.stop
  | .reroute => engine.reroute.1

end TrafficSteering.Engine
