import TrafficSteering.Proofs.Engine.Clock
import TrafficSteering.Proofs.Engine.Reroute
import TrafficSteering.Proofs.Installer.Installation
import TrafficSteering.Proofs.Installer.Packets
set_option autoImplicit false

/-!
# Packets of a flow

For every packet the path of its flow is chosen anew, while switch runs, forced choices and other
flows go on changing the candidates and the active one.  But what is chosen depends on the graph
only, so as long as the graph is installed, all packets of a flow see one path, and each of them
gets the one rule of its switch on this path, in whatever order they come.
-/

namespace TrafficSteering

/-- A switch and the one after it are neighbours on the path. -/
theorem Path.hop_of_place {path : Path} {index : Nat} {switch next : SwitchId}
    (hswitch : path.switches[index]? = some switch) (hnext : path.after? index = some next) :
    (switch, next) ∈ path.hops := by
  refine List.mem_iff_getElem?.mpr ⟨index, List.getElem?_zip_eq_some.mpr ⟨hswitch, ?_⟩⟩
  rw [List.getElem?_tail]
  exact hnext

namespace Installer

variable {installer : Installer} {ip : Address.IPv4}

/-- An address without a binding is an unknown host. -/
theorem host_of_not_mem (h : ip ∉ installer.hosts.map HostBinding.ip) :
    installer.host ip = .error (.unknownHost ip) := by
  unfold host
  cases hfound : installer.hosts.reverse.find? fun binding => binding.ip == ip with
  | none => rfl
  | some binding =>
    have hmem := List.mem_reverse.mp (List.mem_of_find?_eq_some hfound)
    have hip : binding.ip = ip := by simpa using List.find?_some hfound
    exact absurd (List.mem_map.mpr ⟨binding, hmem, hip⟩) h

theorem exists_host_of_mem (h : ip ∈ installer.hosts.map HostBinding.ip) :
    ∃ binding, installer.host ip = .ok binding := by
  obtain ⟨binding, hmem, rfl⟩ := List.mem_map.mp h
  exact exists_host (List.any_eq_true.mpr ⟨binding, hmem, by simp⟩)

/-- On every switch of a walk to the switch of a host, packets to the host get a rule. -/
theorem exists_ruleForPacket {graph : Graph} {path : Path} {src dst : HostBinding}
    (hwalk : graph.IsSimplePath src.switch dst.switch path) (hdst : installer.Knows dst)
    {index : Nat} {switch : SwitchId} (hindex : path.switches[index]? = some switch)
    (type : EtherType) :
    ∃ rule, installer.ruleForPacket graph path ⟨switch, type, src.ip, dst.ip⟩ = .ok (some rule) ∧
      rule.Forwards graph switch ⟨type, src.ip, dst.ip⟩ (path.after? index) dst := by
  obtain ⟨port, hport⟩ : ∃ port, portTowards graph switch (path.after? index) dst = .ok port := by
    cases hnext : path.after? index with
    | none => exact ⟨dst.port, rfl⟩
    | some next =>
      exact Graph.egressPort_of_adjacent (hwalk.joined _ (Path.hop_of_place hindex hnext))
  have hforwards := forwards_permanent hport ⟨type, src.ip, dst.ip⟩
  exact ⟨_, ruleForPacket_of_forwards hwalk.distinct hindex hdst hforwards type src.ip, hforwards⟩

end Installer

/-- What a selection comes to where there is a path: the path is chosen on the graph alone. -/
theorem Selector.select_of_some {selector : Selector} {routing : Routing} {src dst : SwitchId}
    (h : Consistent selector) (hrouting : selector.routing = some routing) {path : Path}
    (hpath : (routing.graph.shortestPaths src).path? dst = some path) :
    selector.select src dst =
      ⟨selector.chosen routing src dst, selector.changeOf .selected (compute routing src dst).2,
        .ok (some (choice routing src dst path))⟩ := by
  simp only [select, selectFor, requireRouting, hrouting, h.generation_eq hrouting, if_true,
    compute_of_some hpath, chosen, choice, Option.map_some]
  rfl

namespace Engine

variable {engine : Engine} {packet : Packet}

/-! ## Packets that are ignored -/

/-- Packets that get no rule leave everything as it is. -/
structure Ignores (engine : Engine) : Prop where
  disabled : engine.selector.routing = none →
    ∀ packet, engine.handlePacket packet = (engine, .ok none)
  unrouted : ∀ packet, packet.etherType.isRoutable = false →
    engine.handlePacket packet = (engine, .ok none)
  unknownSource : engine.selector.routing ≠ none → ∀ packet, packet.etherType.isRoutable = true →
    packet.src ∉ engine.settings.hosts.map HostBinding.ip →
    engine.handlePacket packet = (engine, .error (.unknownHost packet.src))
  /-- The source is looked up first. -/
  unknownDestination : engine.selector.routing ≠ none →
    ∀ packet, packet.etherType.isRoutable = true →
    packet.src ∈ engine.settings.hosts.map HostBinding.ip →
    packet.dst ∉ engine.settings.hosts.map HostBinding.ip →
    engine.handlePacket packet = (engine, .error (.unknownHost packet.dst))

theorem ignores (engine : Engine) : Ignores engine where
  disabled := by
    intro hdisabled packet
    simp [handlePacket, Selector.isEnabled, hdisabled]
  unrouted := by
    intro packet hunrouted
    simp [handlePacket, hunrouted]
  unknownSource := by
    intro henabled packet hroutable hunknown
    have hsrc : engine.installer.host packet.src = _ := Installer.host_of_not_mem hunknown
    simp [handlePacket, Selector.isEnabled, Option.isSome_iff_ne_none.mpr henabled, hroutable, hsrc]
  unknownDestination := by
    intro henabled packet hroutable hknown hunknown
    obtain ⟨src, hsrc⟩ : ∃ src, engine.installer.host packet.src = .ok src :=
      Installer.exists_host_of_mem hknown
    have hdst : engine.installer.host packet.dst = _ := Installer.host_of_not_mem hunknown
    simp [handlePacket, Selector.isEnabled, Option.isSome_iff_ne_none.mpr henabled, hroutable, hsrc,
      hdst]

/-! ## Packets that are answered -/

/-- A selection has been made and announced. -/
def selecting (engine : Engine) (src dst : SwitchId) : Engine :=
  { engine with
    forum := engine.forum.settled (engine.selector.select src dst).state
      (engine.selector.select src dst).events }

/-- A packet between known hosts with a path between them is answered by the rule for it on the
path. -/
theorem handlePacket_of_path (hconsistent : engine.selector.Consistent)
    (hquiet : engine.forum.audience.Quiet) {routing : Routing}
    (hrouting : engine.selector.routing = some routing)
    (hroutable : packet.etherType.isRoutable = true) {src dst : HostBinding}
    (hsrc : engine.installer.host packet.src = .ok src)
    (hdst : engine.installer.host packet.dst = .ok dst) {path : Path}
    (hpath : (routing.graph.shortestPaths src.switch).path? dst.switch = some path) :
    engine.handlePacket packet = engine.installer.installForPacket offer routing.graph path packet
      ((engine.selecting src.switch dst.switch).note
        (.computed ⟨.packet packet, path, routing.generation, routing⟩)) := by
  have hselect := Selector.select_of_some hconsistent hrouting hpath
  have hstill : (engine.selecting src.switch dst.switch).selector.routing = some routing := by
    show (engine.selector.select src.switch dst.switch).state.routing = some routing
    rw [hselect]
    exact hrouting
  have hanswer : (engine.selector.select src.switch dst.switch).answer =
      .ok (some (Selector.choice routing src.switch dst.switch path)) := by rw [hselect]
  simp only [handlePacket, Selector.isEnabled, hrouting, Option.isSome_some, hroutable,
    Bool.not_true, Bool.or_false, Bool.false_eq_true, if_false, hsrc, hdst,
    perform_of_quiet hquiet, hanswer]
  show (engine.selecting src.switch dst.switch).answerPacket packet _ = _
  simp only [answerPacket, hstill]
  rfl

/-- The graph is installed, no listener calls back, the switches take every rule, and nobody is
about to interject anything. -/
structure Serves (engine : Engine) (graph : Graph) : Prop where
  installed : engine.selector.graph? = some graph
  quiet : engine.forum.audience.Quiet
  accepting : ∀ rule, engine.plane.refusal? rule = none
  beforeRule : engine.beforeRule = none

/-- A packet is answered with a rule, if there is one for it, and this rule is installed and no
other. -/
structure Hands (engine : Engine) (packet : Packet) (rule? : Option Rule) : Prop where
  answer : (engine.handlePacket packet).2 = .ok rule?
  rules : (engine.handlePacket packet).1.plane.rules = engine.plane.rules ++ rule?.toList

/-- Switches that take every rule take one that is offered. -/
theorem offer_of_accepting (haccepting : ∀ rule, engine.plane.refusal? rule = none)
    (hbefore : engine.beforeRule = none) (rule : Rule) :
    (engine.offer rule).2 = .ok () ∧
      (engine.offer rule).1.plane.rules = engine.plane.rules ++ [rule] := by
  have hinstall : engine.plane.install rule =
      ({ engine.plane with offers := engine.plane.offers + 1 }.take rule, .ok ()) := by
    simp only [DataPlane.install, haccepting rule]
  simp only [offer, hbefore, offerAtOnce, hinstall]
  exact ⟨trivial, rfl⟩

theorem installForPacket_of_accepting (haccepting : ∀ rule, engine.plane.refusal? rule = none)
    (hbefore : engine.beforeRule = none) {graph : Graph} {path : Path} {rule? : Option Rule}
    (hrule : engine.installer.ruleForPacket graph path packet = .ok rule?) :
    (engine.installer.installForPacket offer graph path packet engine).2 = .ok rule? ∧
      (engine.installer.installForPacket offer graph path packet engine).1.plane.rules =
        engine.plane.rules ++ rule?.toList := by
  unfold Installer.installForPacket
  cases rule? with
  | none => simp [hrule]
  | some rule =>
    obtain ⟨hanswer, hrules⟩ := offer_of_accepting haccepting hbefore rule
    rcases hoffer : offer engine rule with ⟨next, fault | ⟨⟩⟩
    · simp [hoffer] at hanswer
    · have hnext : next.plane.rules = engine.plane.rules ++ [rule] := by simpa [hoffer] using hrules
      simp [hrule, hoffer, hnext]

/-! ## One rule each -/

/-- On each switch of the path one rule for the flow, which takes it to the next switch and at the
end to the host; and on no other switch. -/
structure OneEach (graph : Graph) (src dst : HostBinding) (path : Path)
    (ruleOf : EtherType → SwitchId → Option Rule) : Prop where
  placed : ∀ type (index : Nat) switch, path.switches[index]? = some switch →
    ∃ rule, ruleOf type switch = some rule ∧
      rule.Forwards graph switch ⟨type, src.ip, dst.ip⟩ (path.after? index) dst
  beside : ∀ type switch, switch ∉ path.switches → ruleOf type switch = none

/-- The rule that a packet of the flow gets from a switch. -/
def ruleOf (installer : Installer) (graph : Graph) (path : Path) (src dst : HostBinding)
    (type : EtherType) (switch : SwitchId) : Option Rule :=
  match installer.ruleForPacket graph path ⟨switch, type, src.ip, dst.ip⟩ with
  | .ok rule? => rule?
  | .error _ => none

section

variable {installer : Installer} {graph : Graph} {path : Path} {src dst : HostBinding}

theorem ruleOf_eq {type : EtherType} {switch : SwitchId} {rule? : Option Rule}
    (h : installer.ruleForPacket graph path ⟨switch, type, src.ip, dst.ip⟩ = .ok rule?) :
    ruleOf installer graph path src dst type switch = rule? := by
  simp only [ruleOf, h]

theorem oneEach (hsimple : graph.IsSimplePath src.switch dst.switch path)
    (hdst : installer.Knows dst) :
    OneEach graph src dst path (ruleOf installer graph path src dst) where
  placed := by
    intro type index switch hindex
    obtain ⟨rule, hrule, hforwards⟩ :=
      Installer.exists_ruleForPacket hsimple hdst hindex type
    exact ⟨rule, ruleOf_eq hrule, hforwards⟩
  beside := fun _ _ hmem => ruleOf_eq (Installer.ruleForPacket_of_not_mem hmem)

/-- The rule for a packet never lacks anything. -/
theorem ruleForPacket_eq_ruleOf (hsimple : graph.IsSimplePath src.switch dst.switch path)
    (hdst : installer.Knows dst) (type : EtherType) (switch : SwitchId) :
    installer.ruleForPacket graph path ⟨switch, type, src.ip, dst.ip⟩ =
      .ok (ruleOf installer graph path src dst type switch) := by
  obtain ⟨rule?, hrule⟩ :
      ∃ rule?, installer.ruleForPacket graph path ⟨switch, type, src.ip, dst.ip⟩ = .ok rule? := by
    by_cases hmem : switch ∈ path.switches
    · obtain ⟨index, hindex⟩ := List.getElem?_of_mem hmem
      obtain ⟨rule, hrule, -⟩ := Installer.exists_ruleForPacket hsimple hdst hindex type
      exact ⟨some rule, hrule⟩
    · exact ⟨none, Installer.ruleForPacket_of_not_mem hmem⟩
  rw [ruleOf_eq hrule, hrule]

end

/-- Whatever the selector has been through, a packet of a flow gets the rule of its switch on the
shortest path of the installed graph. -/
theorem Serves.hands {graph : Graph} (h : engine.Serves graph)
    (hconsistent : engine.selector.Consistent) {src dst : HostBinding}
    (hsrc : engine.installer.Knows src) (hdst : engine.installer.Knows dst) {path : Path}
    (hpath : (graph.shortestPaths src.switch).path? dst.switch = some path)
    (hroutable : packet.etherType.isRoutable = true) (hfrom : packet.src = src.ip)
    (hto : packet.dst = dst.ip) :
    engine.Hands packet
      (ruleOf engine.installer graph path src dst packet.etherType packet.switch) := by
  obtain ⟨routing, hrouting, rfl⟩ := Option.map_eq_some_iff.mp h.installed
  have hflow : packet = ⟨packet.switch, packet.etherType, src.ip, dst.ip⟩ := by rw [← hfrom, ← hto]
  have hrule := ruleForPacket_eq_ruleOf (Graph.path?_isSimplePath hpath) hdst packet.etherType
    packet.switch
  rw [← hflow] at hrule
  have hhandled := handlePacket_of_path hconsistent h.quiet hrouting hroutable (hfrom ▸ hsrc)
    (hto ▸ hdst) hpath
  obtain ⟨hanswer, hrules⟩ := @installForPacket_of_accepting
    ((engine.selecting src.switch dst.switch).note
      (.computed ⟨.packet packet, path, routing.generation, routing⟩)) packet
    h.accepting h.beforeRule _ _ _ hrule
  exact ⟨by rw [hhandled]; exact hanswer, by rw [hhandled]; exact hrules⟩

/-- Packets of a flow build its shortest path, one rule each.  Between any two known hosts whose
switches are connected there is one path, and on each of its switches one rule for each type of
packet, fixed beforehand; and whatever has happened in between, whenever the graph is installed, a
packet of the flow gets the rule of its switch, and no rule from a switch beside the path. -/
theorem Reachable.packets_build_path {storage : Storage} {settings : Settings}
    (h : Reachable storage settings engine) :
    engine.Ignores ∧
    ∀ {graph : Graph} {src dst : HostBinding}, engine.installer.Knows src →
      engine.installer.Knows dst →
      Relation.ReflTransGen graph.Adjacent src.switch dst.switch →
      ∃ path ruleOf, (graph.shortestPaths src.switch).path? dst.switch = some path ∧
        graph.IsSimplePath src.switch dst.switch path ∧ OneEach graph src dst path ruleOf ∧
        ∀ (happenings : List Happening) packet, (happenings.foldl undergo engine).Serves graph →
          packet.etherType.isRoutable = true → packet.src = src.ip → packet.dst = dst.ip →
          (happenings.foldl undergo engine).selector.route src.switch dst.switch =
              .ok (some path) ∧
            (happenings.foldl undergo engine).Hands packet
              (ruleOf packet.etherType packet.switch) := by
  refine ⟨ignores engine, ?_⟩
  intro graph src dst hsrc hdst hconnected
  obtain ⟨path, hpath⟩ := Option.isSome_iff_exists.mp
    (Graph.path?_isSome_iff.mpr (Graph.distance?_isSome_iff.mpr hconnected))
  have hsimple := Graph.path?_isSimplePath hpath
  refine ⟨path, ruleOf engine.installer graph path src dst, hpath, hsimple, oneEach hsimple hdst,
    ?_⟩
  intro happenings packet hserves hroutable hfrom hto
  have hturns := undergoAll_turns h.steady happenings
  generalize happenings.foldl undergo engine = found at hturns hserves
  have hinstaller : found.installer = engine.installer := by
    simp only [Moment.installer, hturns.settings]
  have hhands := hserves.hands (hturns.steady h.steady).consistent (hinstaller ▸ hsrc)
    (hinstaller ▸ hdst) hpath hroutable hfrom hto
  obtain ⟨routing, hrouting, rfl⟩ := Option.map_eq_some_iff.mp hserves.installed
  rw [Selector.route_of_routing hrouting, hpath]
  exact ⟨rfl, hinstaller ▸ hhands⟩

/-- The flow from the first switch to the fourth appears, somebody makes the last of its candidates
active, and another flow appears. -/
def crossing : List Happening :=
  [.acted (.packet (packetBetween 1 4)), .acted (.commit none 2),
    .acted (.packet (packetBetween 2 3))]

/-- A packet of the first flow still follows the path by the second switch, where it leaves by the
third port, and the third switch gets no rule for it. -/
theorem packets_build_path_crossing :
    ((crossing.take 2).foldl undergo tangled).selector.candidates.active = some 2 ∧
    (∃ rule, (crossing.foldl undergo tangled).Hands
        ⟨⟨2⟩, .arp, ⟨10, 0, 0, 1⟩, ⟨10, 0, 0, 4⟩⟩ (some rule) ∧
      rule.switch = ⟨2⟩ ∧ rule.out = ⟨3⟩) ∧
    (crossing.foldl undergo tangled).Hands ⟨⟨3⟩, .arp, ⟨10, 0, 0, 1⟩, ⟨10, 0, 0, 4⟩⟩ none := by
  obtain ⟨-, hbuild⟩ := tangled_reachable.packets_build_path
  have hconnected : Relation.ReflTransGen Graph.tangle.Adjacent ⟨1⟩ ⟨4⟩ :=
    Graph.distance?_isSome_iff.mp (by decide)
  obtain ⟨path, ruleOf, hpath, -, heach, hpackets⟩ := hbuild
    (show tangled.installer.Knows ⟨⟨10, 0, 0, 1⟩, ⟨1⟩, ⟨11⟩⟩ from rfl)
    (show tangled.installer.Knows ⟨⟨10, 0, 0, 4⟩, ⟨4⟩, ⟨14⟩⟩ from rfl) hconnected
  obtain rfl : path = ⟨[⟨1⟩, ⟨2⟩, ⟨4⟩]⟩ := Option.some.inj (hpath.symm.trans (by decide))
  have hnobody : (crossing.foldl undergo tangled).forum.audience.members = [] := by decide
  have hserves : (crossing.foldl undergo tangled).Serves Graph.tangle :=
    ⟨by decide, Audience.quiet_of_nobody hnobody, fun _ => rfl, by decide⟩
  obtain ⟨rule, hrule, hforwards⟩ := heach.placed .arp 1 ⟨2⟩ rfl
  have hsecond := (hpackets crossing ⟨⟨2⟩, .arp, _, _⟩ hserves rfl rfl rfl).2
  have hthird := (hpackets crossing ⟨⟨3⟩, .arp, _, _⟩ hserves rfl rfl rfl).2
  rw [hrule] at hsecond
  rw [heach.beside .arp ⟨3⟩ (by decide)] at hthird
  have hport := (hforwards.towards ⟨4⟩ rfl).symm.trans (by decide : _ = Except.ok ⟨3⟩)
  have hswitch : rule.switch = ⟨2⟩ := congrArg Rule.switch hforwards.permanent
  exact ⟨by decide, ⟨rule, hsecond, hswitch, Except.ok.inj hport⟩, hthird⟩

end Engine

end TrafficSteering
