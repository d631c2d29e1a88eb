import TrafficSteering.Proofs.Installer.Steering
set_option autoImplicit false

/-!
# Rules for packets

A packet that a switch hands in gets the rule of its own switch only, which is found by the place of
the switch on the path of the packet.  The rules of a whole path are computed along the path, for
both directions at once.  The two agree: what a packet gets is the rule that the path has for its
flow there, where packets of the opposite direction go by the reversed path.
-/

namespace TrafficSteering

/-- A place counted from the other end.  What comes after it there is what comes before it here. -/
theorem Path.reverse_place {path : Path} {index : Nat} {switch : SwitchId}
    (hindex : path.switches[index]? = some switch) :
    path.reverse.switches[path.size - 1 - index]? = some switch ∧
      path.reverse.after? (path.size - 1 - index) = path.before? index := by
  obtain ⟨hlt, _⟩ := List.getElem?_eq_some_iff.mp hindex
  constructor
  · rw [Path.reverse, Path.size, List.getElem?_reverse (by omega)]
    rw [show path.switches.length - 1 - (path.switches.length - 1 - index) = index by omega]
    exact hindex
  · rw [Path.after?, Path.before?, Path.reverse, Path.size]
    cases index with
    | zero =>
      rw [List.getElem?_eq_none (by rw [List.length_reverse]; omega)]
      rfl
    | succ index =>
      rw [List.getElem?_reverse (by omega), behind?]
      congr 1
      omega

namespace Installer

variable {installer : Installer} {graph : Graph} {path : Path} {near far : HostBinding}
  {rules : List Rule} {rule : Rule} {src dst : HostBinding} {index : Nat} {switch : SwitchId}

/-- Where a rule takes a flow on along a path, a packet to the same host gets a rule with the same
port. -/
theorem ruleForPacket_of_forwards (hnodup : path.switches.Nodup)
    (hindex : path.switches[index]? = some switch) (hdst : installer.Knows dst) {flow : FlowMatch}
    (h : rule.Forwards graph switch flow (path.after? index) dst) (type : EtherType)
    (src : Address.IPv4) :
    installer.ruleForPacket graph path ⟨switch, type, src, dst.ip⟩ =
      .ok (some (.permanent switch ⟨type, src, dst.ip⟩ rule.out)) := by
  obtain ⟨hlt, hswitch⟩ := List.getElem?_eq_some_iff.mp hindex
  have hplace : path.position? switch = some index := by
    refine List.idxOf?_eq_some_iff.mpr ⟨hlt, hswitch, ?_⟩
    intro earlier hearlier hsame
    have hunique := (List.Nodup.getElem_inj_iff hnodup).mp (hsame.trans hswitch.symm)
    omega
  unfold ruleForPacket
  simp only [hplace]
  rw [Path.after?] at h
  cases hnext : path.switches[index + 1]? with
  | some next =>
    have hport := h.towards next hnext
    simp only [hport]
    rfl
  | none =>
    have hport := h.arrived hnext
    simp only [show installer.host dst.ip = .ok dst from hdst, hport]
    rfl

/-- A packet from a switch that is not on its path gets no rule. -/
theorem ruleForPacket_of_not_mem {packet : Packet} (h : packet.switch ∉ path.switches) :
    installer.ruleForPacket graph path packet = .ok none := by
  have hplace : path.position? packet.switch = none := List.idxOf?_eq_none_iff.mpr h
  unfold ruleForPacket
  simp only [hplace]

/-- On a switch, the packets that one host sends to another get, along their way, the one rule that
there is for their flow. -/
structure Agrees (installer : Installer) (graph : Graph) (way : Path) (rules : List Rule)
    (src dst : HostBinding) (switch : SwitchId) (rule : Rule) : Prop where
  mem : rule ∈ rules
  switch_eq : rule.switch = switch
  flow_eq : rule.flow = flowBetween src dst
  only : ∀ other ∈ rules, other.switch = switch → other.flow = flowBetween src dst → other = rule
  ipv4 : installer.ruleForPacket graph way ⟨switch, .ipv4, src.ip, dst.ip⟩ = .ok (some rule)
  /-- The rule for address resolution differs in its type only. -/
  arp : installer.ruleForPacket graph way ⟨switch, .arp, src.ip, dst.ip⟩ =
    .ok (some { rule with flow := { rule.flow with etherType := .arp } })

/-- The rules of a path never expire and have the priority of steered flows. -/
theorem rulesForPath_permanent (h : installer.rulesForPath graph path = .ok rules) :
    ∀ rule ∈ rules, rule = .permanent rule.switch rule.flow rule.out := by
  intro rule hrule
  obtain ⟨_, _, _, _, _, _, _, hcarries⟩ := rulesForPath_carry h rule hrule
  rw [hcarries.switch_eq, hcarries.flow_eq]
  cases hcarries with
  | onward _ _ hforwards | back _ _ hforwards => exact hforwards.permanent

/-- A rule of a path that takes a flow on along some way is the only one for it, and what packets of
the flow get there. -/
theorem agrees_of_forwards {way : Path} (hnodup : path.switches.Nodup)
    (h : installer.rulesForPath graph path = .ok rules) (hrule : rule ∈ rules)
    (hway : way.switches.Nodup) (hindex : way.switches[index]? = some switch)
    (hdst : installer.Knows dst)
    (hforwards : rule.Forwards graph switch (flowBetween src dst) (way.after? index) dst) :
    installer.Agrees graph way rules src dst switch rule := by
  have hswitch : rule.switch = switch := congrArg Rule.switch hforwards.permanent
  have hflow : rule.flow = flowBetween src dst := congrArg Rule.flow hforwards.permanent
  have hpacket := ruleForPacket_of_forwards hway hindex hdst hforwards
  refine ⟨hrule, hswitch, hflow, ?_, ?_, ?_⟩
  · intro other hother hsame hsent
    have hout := rulesForPath_functional hnodup h hother hrule (hsame.trans hswitch.symm)
      (hsent.trans hflow.symm)
    rw [rulesForPath_permanent h other hother, hsame, hsent, hout]
    exact hforwards.permanent.symm
  · rw [hpacket, ← flowBetween, ← hforwards.permanent]
  · rw [hpacket, hforwards.permanent]
    rfl

/-- On every switch of a path that passes no switch twice, the packets of an anchored pair get the
rule that the path has for their flow, in both directions.  On any other switch a packet gets no
rule. -/
theorem ruleForPacket_agrees (hnodup : path.switches.Nodup)
    (h : installer.rulesForPath graph path = .ok rules) :
    (∀ pair ∈ installer.pairs, ∀ near far, installer.Anchors path pair near far →
      ∀ (index : Nat) (switch : SwitchId), path.switches[index]? = some switch →
        (∃ rule, installer.Agrees graph path rules near far switch rule) ∧
        ∃ rule, installer.Agrees graph path.reverse rules far near switch rule) ∧
    ∀ way packet, packet.switch ∉ way.switches →
      installer.ruleForPacket graph way packet = .ok none := by
  refine ⟨?_, fun way packet => ruleForPacket_of_not_mem⟩
  intro pair hpair near far hanchors index switch hindex
  obtain ⟨hnear, hfar⟩ := hanchors.knows
  obtain ⟨⟨onward, honward, hnext⟩, back, hback, hbefore⟩ :=
    rulesForPath_steers hnodup h hpair hanchors hindex
  obtain ⟨hplace, hafter⟩ := Path.reverse_place hindex
  have hreverse : path.reverse.switches.Nodup := List.nodup_reverse.mpr hnodup
  rw [← hafter] at hbefore
  exact ⟨⟨onward, agrees_of_forwards hnodup h honward hnodup hindex hfar hnext⟩,
    ⟨back, agrees_of_forwards hnodup h hback hreverse hplace hnear hbefore⟩⟩

/-- What the third host of the line sends to the first leaves the last switch by its second port. -/
def homeward : Rule := .permanent ⟨3⟩ ⟨.ipv4, ⟨10, 0, 0, 3⟩, ⟨10, 0, 0, 1⟩⟩ ⟨2⟩

/-- This is what a packet gets on the last switch and what is installed there, and beside the line a
packet gets no rule. -/
theorem ruleForPacket_agrees_line : ∃ rules,
    threeHosts.rulesForPath lineGraph ⟨[⟨1⟩, ⟨2⟩, ⟨3⟩]⟩ = .ok rules ∧ homeward ∈ rules ∧
    threeHosts.ruleForPacket lineGraph ⟨[⟨3⟩, ⟨2⟩, ⟨1⟩]⟩
      ⟨⟨3⟩, .ipv4, ⟨10, 0, 0, 3⟩, ⟨10, 0, 0, 1⟩⟩ = .ok (some homeward) ∧
    threeHosts.ruleForPacket lineGraph ⟨[⟨3⟩, ⟨2⟩, ⟨1⟩]⟩
      ⟨⟨4⟩, .ipv4, ⟨10, 0, 0, 3⟩, ⟨10, 0, 0, 1⟩⟩ = .ok none := by
  obtain ⟨rules, hrules⟩ : ∃ rules,
      threeHosts.rulesForPath lineGraph ⟨[⟨1⟩, ⟨2⟩, ⟨3⟩]⟩ = .ok rules := ⟨_, rfl⟩
  obtain ⟨hagrees, hbeside⟩ := ruleForPacket_agrees (by decide) hrules
  obtain ⟨_, rule, hrule⟩ := hagrees ⟨⟨10, 0, 0, 1⟩, ⟨10, 0, 0, 3⟩⟩ (by decide)
    ⟨⟨10, 0, 0, 1⟩, ⟨1⟩, ⟨11⟩⟩ ⟨⟨10, 0, 0, 3⟩, ⟨3⟩, ⟨13⟩⟩ ⟨.inl (by decide), rfl, rfl⟩ 2 ⟨3⟩ rfl
  have hpacket : threeHosts.ruleForPacket lineGraph ⟨[⟨3⟩, ⟨2⟩, ⟨1⟩]⟩
      ⟨⟨3⟩, .ipv4, ⟨10, 0, 0, 3⟩, ⟨10, 0, 0, 1⟩⟩ = .ok (some homeward) := rfl
  obtain rfl : homeward = rule :=
    Option.some.inj (Except.ok.inj (hpacket.symm.trans hrule.ipv4))
  exact ⟨rules, hrules, hrule.mem, hpacket, hbeside _ _ (by decide)⟩

end Installer

end TrafficSteering
