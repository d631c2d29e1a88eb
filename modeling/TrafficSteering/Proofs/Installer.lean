import TrafficSteering.Installer
import TrafficSteering.Proofs.Except
import TrafficSteering.Proofs.Graph.Walk
set_option autoImplicit false

/-!
# Ports of rules

A rule leaves by the port of an edge to a neighbouring switch of its path, or by the port of a host.
No rules are computed only if a host is unknown or an edge is missing, and an edge that is reported
missing is not there.
-/

namespace TrafficSteering

namespace Path

/-- Two switches that follow each other in a path are a hop of it. -/
theorem mem_hops_of_getElem? {path : Path} {index : Nat} {first second : SwitchId}
    (hfirst : path.switches[index]? = some first)
    (hsecond : path.switches[index + 1]? = some second) : (first, second) ∈ path.hops := by
  apply List.mem_of_getElem? (i := index)
  unfold hops
  rw [List.getElem?_zip_eq_some]
  exact ⟨hfirst, by rw [List.getElem?_tail]; exact hsecond⟩

/-- The hops from the second switch on are hops. -/
theorem hops_tail_subset (first : SwitchId) (rest : List SwitchId) :
    (⟨rest⟩ : Path).hops ⊆ (⟨first :: rest⟩ : Path).hops := by
  cases rest with
  | nil => exact List.nil_subset _
  | cons second others =>
    rw [hops_cons_cons]
    exact List.subset_cons_self _ _

end Path

namespace Rule

/-- The rule leaves by the port of an edge to the switch before or after it on a path. -/
def LeavesTowardsNeighbor (rule : Rule) (graph : Graph) (path : Path) : Prop :=
  ∃ neighbor edge,
    ((rule.switch, neighbor) ∈ path.hops ∨ (neighbor, rule.switch) ∈ path.hops) ∧
    graph.edge? rule.switch neighbor = some edge ∧ rule.out = edge.port

theorem LeavesTowardsNeighbor.mono {rule : Rule} {graph : Graph} {path longer : Path}
    (h : rule.LeavesTowardsNeighbor graph path) (hhops : path.hops ⊆ longer.hops) :
    rule.LeavesTowardsNeighbor graph longer := by
  obtain ⟨neighbor, edge, hhop, hedge⟩ := h
  exact ⟨neighbor, edge, hhop.imp (hhops ·) (hhops ·), hedge⟩

/-- The rule leaves by the port of a host. -/
def LeavesTowardsHost (rule : Rule) (installer : Installer) : Prop :=
  ∃ host ∈ installer.hosts, rule.out = host.port

end Rule

namespace Installer

variable {installer : Installer} {graph : Graph} {path : Path}

theorem mem_of_host {ip : Address.IPv4} {binding : HostBinding}
    (h : installer.host ip = .ok binding) : binding ∈ installer.hosts := by
  unfold host at h
  split at h
  · rename_i found hfound
    obtain rfl := Except.ok.inj h
    exact List.mem_reverse.mp (List.mem_of_find?_eq_some hfound)
  · simp at h

theorem host_ne_missingEdge {ip : Address.IPv4} {src dst : SwitchId} :
    installer.host ip ≠ .error (.missingEdge src dst) := by
  unfold host
  split <;> simp

theorem orient?_mem {first last : SwitchId} {a b near far : HostBinding}
    (h : orient? first last a b = some (near, far)) : near ∈ [a, b] ∧ far ∈ [a, b] := by
  unfold orient? at h
  split at h
  · obtain ⟨rfl, rfl⟩ := Prod.mk.inj (Option.some.inj h)
    simp
  · split at h
    · obtain ⟨rfl, rfl⟩ := Prod.mk.inj (Option.some.inj h)
      simp
    · simp at h

theorem portTowards_eq_ok {switch : SwitchId} {neighbor : Option SwitchId} {host : HostBinding}
    {port : PortNo} (h : portTowards graph switch neighbor host = .ok port) :
    (∃ other edge, neighbor = some other ∧ graph.edge? switch other = some edge ∧
      port = edge.port) ∨ port = host.port := by
  cases neighbor with
  | none =>
    right
    exact (Except.ok.inj h).symm
  | some other =>
    obtain ⟨edge, hedge, hport⟩ := Graph.egressPort_eq_ok_iff.mp h
    exact .inl ⟨other, edge, rfl, hedge, hport.symm⟩

theorem portTowards_missingEdge {switch src dst : SwitchId} {neighbor : Option SwitchId}
    {host : HostBinding}
    (h : portTowards graph switch neighbor host = .error (.missingEdge src dst)) :
    graph.edge? src dst = none := by
  cases neighbor with
  | none => simp [portTowards] at h
  | some other =>
    obtain ⟨hnone, hfault⟩ := Graph.egressPort_eq_error_iff.mp h
    obtain ⟨rfl, rfl⟩ := Fault.missingEdge.inj hfault
    exact hnone

/-! ## Ports of computed rules -/

/-- Where the rules along the rest of a path leave, given the switch before it. -/
theorem rulesAlong_leave {near far : HostBinding} {previous : Option SwitchId}
    {switches : List SwitchId} {rules : List Rule}
    (h : rulesAlong graph near far previous switches = .ok rules) :
    ∀ rule ∈ rules, rule.LeavesTowardsNeighbor graph ⟨previous.toList ++ switches⟩ ∨
      rule.out ∈ [near.port, far.port] := by
  induction switches generalizing previous rules with
  | nil =>
    obtain rfl := Except.ok.inj h
    simp
  | cons switch rest ih =>
    unfold rulesAlong at h
    obtain ⟨out, hout, h⟩ := bind_eq_ok_iff.mp h
    obtain ⟨back, hback, h⟩ := bind_eq_ok_iff.mp h
    obtain ⟨others, hothers, h⟩ := bind_eq_ok_iff.mp h
    obtain rfl := Except.ok.inj h
    intro rule hrule
    rcases List.mem_cons.mp hrule with rfl | hrule
    · -- Towards the far host, to the next switch if there is one.
      rcases portTowards_eq_ok hout with ⟨next, edge, hnext, hedge, hport⟩ | hport
      · left
        refine ⟨next, edge, .inl ?_, hedge, hport⟩
        obtain ⟨others, rfl⟩ := List.head?_eq_some_iff.mp hnext
        cases previous with
        | none => exact List.mem_cons_self
        | some before => exact List.mem_cons_of_mem _ List.mem_cons_self
      · exact .inr (by simp [Rule.permanent, hport])
    · rcases List.mem_cons.mp hrule with rfl | hrule
      · -- Back towards the near host, to the switch before if there is one.
        rcases portTowards_eq_ok hback with ⟨before, edge, rfl, hedge, hport⟩ | hport
        · exact .inl ⟨before, edge, .inr List.mem_cons_self, hedge, hport⟩
        · exact .inr (by simp [Rule.permanent, hport])
      · rcases ih hothers rule hrule with hneighbor | hhost
        · left
          apply hneighbor.mono
          cases previous with
          | none => exact List.Subset.refl _
          | some before => exact Path.hops_tail_subset before _
        · exact .inr hhost

theorem rulesAlong_missingEdge {near far : HostBinding} {previous : Option SwitchId}
    {switches : List SwitchId} {src dst : SwitchId}
    (h : rulesAlong graph near far previous switches = .error (.missingEdge src dst)) :
    graph.edge? src dst = none := by
  induction switches generalizing previous with
  | nil => simp [rulesAlong] at h
  | cons switch rest ih =>
    unfold rulesAlong at h
    rcases bind_eq_error_iff.mp h with hout | ⟨out, _, h⟩
    · exact portTowards_missingEdge hout
    · rcases bind_eq_error_iff.mp h with hback | ⟨back, _, h⟩
      · exact portTowards_missingEdge hback
      · rcases bind_eq_error_iff.mp h with hothers | ⟨others, _, h⟩
        · exact ih hothers
        · simp [pure, Except.pure] at h

theorem rulesForPair_leave {first last : SwitchId} {pair : HostPair} {rules : List Rule}
    (h : installer.rulesForPair graph path first last pair = .ok rules) :
    ∀ rule ∈ rules,
      rule.LeavesTowardsNeighbor graph path ∨ rule.LeavesTowardsHost installer := by
  unfold rulesForPair at h
  obtain ⟨a, ha, h⟩ := bind_eq_ok_iff.mp h
  obtain ⟨b, hb, h⟩ := bind_eq_ok_iff.mp h
  split at h
  · rename_i near far horient
    obtain ⟨hnear, hfar⟩ := orient?_mem horient
    have hbound : ∀ host ∈ [a, b], host ∈ installer.hosts := by
      simp [mem_of_host ha, mem_of_host hb]
    intro rule hrule
    refine (rulesAlong_leave h rule hrule).imp_right fun hport => ?_
    rcases List.mem_cons.mp hport with hport | hport
    · exact ⟨near, hbound near hnear, hport⟩
    · exact ⟨far, hbound far hfar, List.mem_singleton.mp hport⟩
  · obtain rfl := Except.ok.inj h
    simp

theorem rulesForPair_missingEdge {first last src dst : SwitchId} {pair : HostPair}
    (h : installer.rulesForPair graph path first last pair = .error (.missingEdge src dst)) :
    graph.edge? src dst = none := by
  unfold rulesForPair at h
  rcases bind_eq_error_iff.mp h with ha | ⟨a, _, h⟩
  · exact absurd ha host_ne_missingEdge
  · rcases bind_eq_error_iff.mp h with hb | ⟨b, _, h⟩
    · exact absurd hb host_ne_missingEdge
    · split at h
      · exact rulesAlong_missingEdge h
      · simp [pure, Except.pure] at h

/-- Every rule for a path leaves towards a neighbour on the path or towards a host. -/
theorem rulesForPath_leave {rules : List Rule} (h : installer.rulesForPath graph path = .ok rules) :
    ∀ rule ∈ rules,
      rule.LeavesTowardsNeighbor graph path ∨ rule.LeavesTowardsHost installer := by
  unfold rulesForPath at h
  split at h
  · obtain ⟨groups, hgroups, rfl⟩ := map_eq_ok_iff.mp h
    intro rule hrule
    obtain ⟨group, hgroup, hmem⟩ := List.mem_flatten.mp hrule
    obtain ⟨pair, _, hpair⟩ := exists_of_mapM_eq_ok hgroups group hgroup
    exact rulesForPair_leave hpair rule hmem
  · obtain rfl := Except.ok.inj h
    simp

theorem rulesForPath_missingEdge {src dst : SwitchId}
    (h : installer.rulesForPath graph path = .error (.missingEdge src dst)) :
    graph.edge? src dst = none := by
  unfold rulesForPath at h
  split at h
  · obtain ⟨pair, _, hpair⟩ := exists_of_mapM_eq_error (map_eq_error_iff.mp h)
    exact rulesForPair_missingEdge hpair
  · simp at h

/-- The rule for a packet leaves towards the next switch of the path or towards the receiver. -/
theorem ruleForPacket_leave {packet : Packet} {rule : Rule}
    (h : installer.ruleForPacket graph path packet = .ok (some rule)) :
    rule.LeavesTowardsNeighbor graph path ∨ rule.LeavesTowardsHost installer := by
  unfold ruleForPacket at h
  split at h
  · simp at h
  · rename_i index hindex
    simp only at h
    split at h
    · rename_i next hnext
      obtain ⟨out, hout, h⟩ := bind_eq_ok_iff.mp h
      obtain rfl := Option.some.inj (Except.ok.inj h)
      obtain ⟨edge, hedge, rfl⟩ := Graph.egressPort_eq_ok_iff.mp hout
      obtain ⟨hlt, hswitch, _⟩ := List.idxOf?_eq_some_iff.mp hindex
      have hhop := Path.mem_hops_of_getElem? (List.getElem?_eq_some_iff.mpr ⟨hlt, hswitch⟩) hnext
      exact .inl ⟨next, edge, .inl hhop, hedge, rfl⟩
    · obtain ⟨out, hout, h⟩ := bind_eq_ok_iff.mp h
      obtain rfl := Option.some.inj (Except.ok.inj h)
      obtain ⟨host, hhost, rfl⟩ := map_eq_ok_iff.mp hout
      exact .inr ⟨host, mem_of_host hhost, rfl⟩

theorem ruleForPacket_missingEdge {packet : Packet} {src dst : SwitchId}
    (h : installer.ruleForPacket graph path packet = .error (.missingEdge src dst)) :
    graph.edge? src dst = none := by
  unfold ruleForPacket at h
  split at h
  · simp at h
  · simp only at h
    split at h
    · rcases bind_eq_error_iff.mp h with hout | ⟨out, _, h⟩
      · obtain ⟨hnone, hfault⟩ := Graph.egressPort_eq_error_iff.mp hout
        obtain ⟨rfl, rfl⟩ := Fault.missingEdge.inj hfault
        exact hnone
      · simp [pure, Except.pure] at h
    · rcases bind_eq_error_iff.mp h with hout | ⟨out, _, h⟩
      · exact absurd (map_eq_error_iff.mp hout) host_ne_missingEdge
      · simp [pure, Except.pure] at h

end Installer

end TrafficSteering
