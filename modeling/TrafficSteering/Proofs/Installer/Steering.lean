import TrafficSteering.Proofs.Installer
set_option autoImplicit false

/-!
# What the rules of a path do

The rules of a path carry every pair of hosts that is attached to its two ends: on each switch one
rule leaves towards the far host and one towards the near host, and no other pair has any rule.  On
a path that passes no switch twice, place and direction of a flow are determined by its switch and
its two hosts, so no two rules of the path contradict each other.
-/

namespace TrafficSteering

/-! ## Rules on a path -/

/-- The rule takes a flow out of a switch, to the next switch or, where there is none, to a host. -/
structure Rule.Forwards (rule : Rule) (graph : Graph) (switch : SwitchId) (flow : FlowMatch)
    (next : Option SwitchId) (host : HostBinding) : Prop where
  permanent : rule = .permanent switch flow rule.out
  /-- To the next switch it leaves by the port of the edge. -/
  towards : ∀ neighbor, next = some neighbor → graph.egressPort switch neighbor = .ok rule.out
  /-- To the host it leaves by the port that faces the host. -/
  arrived : next = none → rule.out = host.port

/-- The switch before a place in a list, given the switch before the list. -/
def behind? (previous : Option SwitchId) (switches : List SwitchId) : Nat → Option SwitchId
  | 0 => previous
  | index + 1 => switches[index]?

/-- The switch before a place on a path. -/
def Path.before? (path : Path) (index : Nat) : Option SwitchId := behind? none path.switches index

/-- The switch after a place on a path. -/
def Path.after? (path : Path) (index : Nat) : Option SwitchId := path.switches[index + 1]?

theorem behind?_cons (previous : Option SwitchId) (switch : SwitchId) (rest : List SwitchId)
    (index : Nat) :
    behind? previous (switch :: rest) (index + 1) = behind? (some switch) rest index := by
  cases index <;> rfl

namespace Installer

variable {installer : Installer} {graph : Graph} {path : Path} {near far : HostBinding}

/-- Where there is a port, a rule takes the flow out by it. -/
theorem forwards_permanent {switch : SwitchId} {next : Option SwitchId} {host : HostBinding}
    {port : PortNo} (h : portTowards graph switch next host = .ok port) (flow : FlowMatch) :
    (Rule.permanent switch flow port).Forwards graph switch flow next host := by
  refine ⟨rfl, ?_, ?_⟩
  · rintro neighbor rfl
    exact h
  · rintro rfl
    exact (Except.ok.inj h).symm

/-! ## Rules along a path -/

/-- Every rule along a path takes the flow on to the far host or the opposite flow back to the near
host. -/
theorem rulesAlong_forward {previous : Option SwitchId} {switches : List SwitchId}
    {rules : List Rule} (h : rulesAlong graph near far previous switches = .ok rules) :
    ∀ rule ∈ rules, ∃ index switch, switches[index]? = some switch ∧
      (rule.Forwards graph switch (flowBetween near far) switches[index + 1]? far ∨
        rule.Forwards graph switch (flowBetween far near) (behind? previous switches index)
          near) := by
  induction switches generalizing previous rules with
  | nil =>
    obtain rfl := Except.ok.inj h
    simp
  | cons switch rest ih =>
    unfold rulesAlong at h
    obtain ⟨out, hout, h⟩ := bind_eq_ok_iff.mp h
    obtain ⟨back, hback, h⟩ := bind_eq_ok_iff.mp h
    obtain ⟨others, hothers, h⟩ := bind_eq_ok_iff.mp h
    obtain rfl := Except.ok.inj h
    rw [List.head?_eq_getElem?] at hout
    intro rule hrule
    rcases List.mem_cons.mp hrule with rfl | hrule
    · exact ⟨0, switch, rfl, .inl (forwards_permanent hout _)⟩
    · rcases List.mem_cons.mp hrule with rfl | hrule
      · exact ⟨0, switch, rfl, .inr (forwards_permanent hback _)⟩
      · obtain ⟨index, later, hlater, hforwards⟩ := ih hothers rule hrule
        rw [← behind?_cons previous] at hforwards
        exact ⟨index + 1, later, hlater, hforwards⟩

/-- On every switch of the path there is a rule for each direction. -/
theorem exists_mem_rulesAlong {previous : Option SwitchId} {switches : List SwitchId}
    {rules : List Rule} (h : rulesAlong graph near far previous switches = .ok rules)
    {index : Nat} {switch : SwitchId} (hswitch : switches[index]? = some switch) :
    (∃ rule ∈ rules,
      rule.Forwards graph switch (flowBetween near far) switches[index + 1]? far) ∧
    (∃ rule ∈ rules, rule.Forwards graph switch (flowBetween far near)
      (behind? previous switches index) near) := by
  induction switches generalizing previous rules index with
  | nil => simp at hswitch
  | cons first rest ih =>
    unfold rulesAlong at h
    obtain ⟨out, hout, h⟩ := bind_eq_ok_iff.mp h
    obtain ⟨back, hback, h⟩ := bind_eq_ok_iff.mp h
    obtain ⟨others, hothers, h⟩ := bind_eq_ok_iff.mp h
    obtain rfl := Except.ok.inj h
    cases index with
    | zero =>
      obtain rfl := Option.some.inj hswitch
      rw [List.head?_eq_getElem?] at hout
      exact ⟨⟨_, List.mem_cons_self, forwards_permanent hout _⟩,
        ⟨_, List.mem_cons_of_mem _ List.mem_cons_self, forwards_permanent hback _⟩⟩
    | succ index =>
      obtain ⟨⟨onward, honward, hnext⟩, back, hback, hbefore⟩ := ih hothers hswitch
      rw [← behind?_cons previous] at hbefore
      exact ⟨⟨onward, List.mem_cons_of_mem _ (List.mem_cons_of_mem _ honward), hnext⟩,
        ⟨back, List.mem_cons_of_mem _ (List.mem_cons_of_mem _ hback), hbefore⟩⟩

theorem length_rulesAlong {previous : Option SwitchId} {switches : List SwitchId}
    {rules : List Rule} (h : rulesAlong graph near far previous switches = .ok rules) :
    rules.length = 2 * switches.length := by
  induction switches generalizing previous rules with
  | nil =>
    obtain rfl := Except.ok.inj h
    rfl
  | cons switch rest ih =>
    unfold rulesAlong at h
    obtain ⟨out, _, h⟩ := bind_eq_ok_iff.mp h
    obtain ⟨back, _, h⟩ := bind_eq_ok_iff.mp h
    obtain ⟨others, hothers, h⟩ := bind_eq_ok_iff.mp h
    obtain rfl := Except.ok.inj h
    rw [List.length_cons, List.length_cons, ih hothers, List.length_cons]
    omega

/-! ## Anchored pairs -/

/-- The two hosts of a pair are attached to the two ends of a path, the near one to the first switch
and the far one to the last. -/
structure Anchors (installer : Installer) (path : Path) (pair : HostPair)
    (near far : HostBinding) : Prop where
  hosts : installer.host pair.first = .ok near ∧ installer.host pair.second = .ok far ∨
    installer.host pair.second = .ok near ∧ installer.host pair.first = .ok far
  near_attached : path.source? = some near.switch
  far_attached : path.destination? = some far.switch

/-- The two hosts of a pair are attached to the two ends of a path. -/
def Anchored (installer : Installer) (path : Path) (pair : HostPair) : Prop :=
  ∃ near far, installer.Anchors path pair near far

theorem anchors_iff {pair : HostPair} {a b : HostBinding} (ha : installer.host pair.first = .ok a)
    (hb : installer.host pair.second = .ok b) :
    installer.Anchors path pair near far ↔
      (a = near ∧ b = far ∨ b = near ∧ a = far) ∧
        path.source? = some near.switch ∧ path.destination? = some far.switch := by
  constructor
  · rintro ⟨hhosts, hnear, hfar⟩
    simp only [ha, hb, Except.ok.injEq] at hhosts
    exact ⟨hhosts, hnear, hfar⟩
  · rintro ⟨hhosts, hnear, hfar⟩
    refine ⟨?_, hnear, hfar⟩
    simp only [ha, hb, Except.ok.injEq]
    exact hhosts

instance (installer : Installer) (path : Path) (pair : HostPair) :
    Decidable (installer.Anchored path pair) :=
  match ha : installer.host pair.first, hb : installer.host pair.second with
  | .ok a, .ok b =>
    decidable_of_iff
      (path.source? = some a.switch ∧ path.destination? = some b.switch ∨
        path.source? = some b.switch ∧ path.destination? = some a.switch) <| by
      simp only [Anchored, anchors_iff ha hb, or_and_right, exists_or, and_assoc,
        exists_and_left, exists_eq_left']
  | .error _, _ => isFalse <| by
    rintro ⟨near, far, ⟨⟨hnear, _⟩ | ⟨_, hfar⟩, _, _⟩⟩
    · simp [ha] at hnear
    · simp [ha] at hfar
  | _, .error _ => isFalse <| by
    rintro ⟨near, far, ⟨⟨_, hfar⟩ | ⟨hnear, _⟩, _, _⟩⟩
    · simp [hb] at hfar
    · simp [hb] at hnear

/-- The hosts of a pair are known, so only their order is open. -/
theorem Anchors.eq_or_swapped {pair : HostPair} {near' far' : HostBinding}
    (h : installer.Anchors path pair near far) (h' : installer.Anchors path pair near' far') :
    near' = near ∧ far' = far ∨ near' = far ∧ far' = near := by
  obtain ⟨hhosts, _, _⟩ := h
  obtain ⟨hhosts', _, _⟩ := h'
  rcases hhosts with ⟨hnear, hfar⟩ | ⟨hnear, hfar⟩
  all_goals
    simp only [hnear, hfar, Except.ok.injEq] at hhosts'
    grind

/-- If a path ends where it begins and passes no switch twice, it stays there. -/
theorem eq_single_of_ends_eq {switches : List SwitchId} (hnodup : switches.Nodup)
    {switch : SwitchId} (hfirst : switches.head? = some switch)
    (hlast : switches.getLast? = some switch) : switches = [switch] := by
  obtain ⟨rest, rfl⟩ := List.head?_eq_some_iff.mp hfirst
  cases rest with
  | nil => rfl
  | cons next others =>
    rw [List.getLast?_cons_cons] at hlast
    exact absurd (List.mem_of_getLast? hlast) (List.nodup_cons.mp hnodup).1

theorem anchors_of_orient? {first last : SwitchId} {pair : HostPair} {a b : HostBinding}
    (hfirst : path.source? = some first) (hlast : path.destination? = some last)
    (ha : installer.host pair.first = .ok a) (hb : installer.host pair.second = .ok b)
    (h : orient? first last a b = some (near, far)) : installer.Anchors path pair near far := by
  rw [anchors_iff ha hb]
  unfold orient? at h
  grind

theorem not_anchored_of_orient? {first last : SwitchId} {pair : HostPair} {a b : HostBinding}
    (hfirst : path.source? = some first) (hlast : path.destination? = some last)
    (ha : installer.host pair.first = .ok a) (hb : installer.host pair.second = .ok b)
    (h : orient? first last a b = none) : ¬ installer.Anchored path pair := by
  rintro ⟨near, far, hanchors⟩
  rw [anchors_iff ha hb] at hanchors
  unfold orient? at h
  grind

theorem rulesForPair_cases {first last : SwitchId} {pair : HostPair} {rules : List Rule}
    (hfirst : path.source? = some first) (hlast : path.destination? = some last)
    (h : installer.rulesForPair graph path first last pair = .ok rules) :
    (∃ near far, installer.Anchors path pair near far ∧
      rulesAlong graph near far none path.switches = .ok rules) ∨
    ¬ installer.Anchored path pair ∧ rules = [] := by
  unfold rulesForPair at h
  obtain ⟨a, ha, h⟩ := bind_eq_ok_iff.mp h
  obtain ⟨b, hb, h⟩ := bind_eq_ok_iff.mp h
  split at h
  · rename_i near far horient
    exact .inl ⟨near, far, anchors_of_orient? hfirst hlast ha hb horient, h⟩
  · rename_i horient
    exact .inr ⟨not_anchored_of_orient? hfirst hlast ha hb horient, (Except.ok.inj h).symm⟩

theorem ip_of_host {ip : Address.IPv4} {binding : HostBinding}
    (h : installer.host ip = .ok binding) : binding.ip = ip := by
  unfold host at h
  split at h
  · rename_i found hfound
    obtain rfl := Except.ok.inj h
    simpa using List.find?_some hfound
  · simp at h

/-- A host is known by its own address. -/
def Knows (installer : Installer) (host : HostBinding) : Prop :=
  installer.host host.ip = .ok host

theorem knows_of_host {ip : Address.IPv4} {binding : HostBinding}
    (h : installer.host ip = .ok binding) : installer.Knows binding := by
  unfold Knows
  rw [ip_of_host h]
  exact h

theorem Knows.eq_of_ip_eq {a b : HostBinding} (ha : installer.Knows a) (hb : installer.Knows b)
    (h : a.ip = b.ip) : a = b := by
  unfold Knows at ha hb
  rw [h] at ha
  exact Except.ok.inj (ha.symm.trans hb)

theorem Anchors.knows {pair : HostPair} (h : installer.Anchors path pair near far) :
    installer.Knows near ∧ installer.Knows far := by
  rcases h.hosts with ⟨hnear, hfar⟩ | ⟨hnear, hfar⟩
  · exact ⟨knows_of_host hnear, knows_of_host hfar⟩
  · exact ⟨knows_of_host hnear, knows_of_host hfar⟩

/-! ## Rules of a path -/

/-- The rule takes what one host sends to another from a place on a path to the next place, in
either direction of the path. -/
inductive Carries (graph : Graph) (path : Path) (src dst : HostBinding) (index : Nat)
    (switch : SwitchId) (rule : Rule) : Prop where
  | onward (hsrc : path.source? = some src.switch) (hdst : path.destination? = some dst.switch)
      (h : rule.Forwards graph switch (flowBetween src dst) (path.after? index) dst)
  | back (hsrc : path.destination? = some src.switch) (hdst : path.source? = some dst.switch)
      (h : rule.Forwards graph switch (flowBetween src dst) (path.before? index) dst)

variable {rules : List Rule} {rule other : Rule} {src dst : HostBinding} {index : Nat}
  {switch : SwitchId}

theorem Carries.switch_eq (h : Carries graph path src dst index switch rule) :
    rule.switch = switch := by
  cases h with
  | onward _ _ h | back _ _ h => exact (congrArg Rule.switch h.permanent)

theorem Carries.flow_eq (h : Carries graph path src dst index switch rule) :
    rule.flow = flowBetween src dst := by
  cases h with
  | onward _ _ h | back _ _ h => exact (congrArg Rule.flow h.permanent)

theorem forwards_unique {flow : FlowMatch} {next : Option SwitchId} {host : HostBinding}
    (h : rule.Forwards graph switch flow next host)
    (hother : other.Forwards graph switch flow next host) : rule.out = other.out := by
  cases next with
  | none => rw [h.arrived rfl, hother.arrived rfl]
  | some neighbor =>
    exact Except.ok.inj ((h.towards neighbor rfl).symm.trans (hother.towards neighbor rfl))

/-- On a path that ends where it begins nothing is before or after any place. -/
theorem neighbors_none (hnodup : path.switches.Nodup) {both : SwitchId}
    (hfirst : path.source? = some both) (hlast : path.destination? = some both)
    (hindex : path.switches[index]? = some switch) :
    path.after? index = none ∧ path.before? index = none := by
  have hsingle := eq_single_of_ends_eq hnodup hfirst hlast
  have hlt := (List.getElem?_eq_some_iff.mp hindex).1
  rw [hsingle] at hlt
  obtain rfl : index = 0 := Nat.lt_one_iff.mp hlt
  refine ⟨?_, rfl⟩
  rw [Path.after?, hsingle]
  rfl

/-- At a place of a path, what one host sends to another leaves by one port only.  If it can go both
ways, the path stays on one switch, where both ways end at the receiver. -/
theorem Carries.out_unique (hnodup : path.switches.Nodup)
    (hindex : path.switches[index]? = some switch)
    (h : Carries graph path src dst index switch rule)
    (hother : Carries graph path src dst index switch other) : rule.out = other.out := by
  cases h with
  | onward hsrc hdst h =>
    cases hother with
    | onward _ _ hother => exact forwards_unique h hother
    | back hsrc' _ hother =>
      obtain ⟨hafter, hbefore⟩ := neighbors_none hnodup hsrc hsrc' hindex
      rw [hafter] at h
      rw [hbefore] at hother
      exact forwards_unique h hother
  | back hsrc hdst h =>
    cases hother with
    | onward hsrc' _ hother =>
      obtain ⟨hafter, hbefore⟩ := neighbors_none hnodup hsrc' hsrc hindex
      rw [hbefore] at h
      rw [hafter] at hother
      exact forwards_unique h hother
    | back _ _ hother => exact forwards_unique h hother

/-- Every rule for a pair carries the traffic of its two hosts, which are attached to the ends of
the path. -/
theorem rulesForPair_carry {first last : SwitchId} {pair : HostPair}
    (hfirst : path.source? = some first) (hlast : path.destination? = some last)
    (h : installer.rulesForPair graph path first last pair = .ok rules) :
    ∀ rule ∈ rules, ∃ src dst index switch, installer.Knows src ∧ installer.Knows dst ∧
      path.switches[index]? = some switch ∧ Carries graph path src dst index switch rule := by
  intro rule hrule
  rcases rulesForPair_cases hfirst hlast h with ⟨near, far, hanchors, halong⟩ | ⟨_, rfl⟩
  · obtain ⟨hnear, hfar⟩ := hanchors.knows
    obtain ⟨index, switch, hswitch, hforwards⟩ := rulesAlong_forward halong rule hrule
    rcases hforwards with honward | hback
    · exact ⟨near, far, index, switch, hnear, hfar, hswitch,
        .onward hanchors.near_attached hanchors.far_attached honward⟩
    · exact ⟨far, near, index, switch, hfar, hnear, hswitch,
        .back hanchors.far_attached hanchors.near_attached hback⟩
  · simp at hrule

/-- The two hosts of an anchored pair have a rule for each direction on every switch of the path,
whichever of them is called the near one. -/
theorem exists_mem_rulesForPair (hnodup : path.switches.Nodup) {first last : SwitchId}
    {pair : HostPair} (hfirst : path.source? = some first) (hlast : path.destination? = some last)
    (h : installer.rulesForPair graph path first last pair = .ok rules)
    (hanchors : installer.Anchors path pair near far)
    (hindex : path.switches[index]? = some switch) :
    (∃ rule ∈ rules,
      rule.Forwards graph switch (flowBetween near far) (path.after? index) far) ∧
    (∃ rule ∈ rules,
      rule.Forwards graph switch (flowBetween far near) (path.before? index) near) := by
  rcases rulesForPair_cases hfirst hlast h with ⟨a, b, hchosen, halong⟩ | ⟨hnot, _⟩
  · have hboth := exists_mem_rulesAlong halong hindex
    rcases hanchors.eq_or_swapped hchosen with ⟨rfl, rfl⟩ | ⟨rfl, rfl⟩
    · exact hboth
    · -- Both hosts are on the one switch of the path, and each may be called the near one.
      obtain ⟨hafter, hbefore⟩ := neighbors_none hnodup hchosen.near_attached
        hanchors.far_attached hindex
      rw [Path.after?] at hafter
      rw [Path.before?] at hbefore
      rw [Path.after?, Path.before?, hafter, hbefore]
      rw [hafter, hbefore] at hboth
      exact hboth.symm
  · exact absurd ⟨near, far, hanchors⟩ hnot

theorem length_rulesForPair {first last : SwitchId} {pair : HostPair}
    (hfirst : path.source? = some first) (hlast : path.destination? = some last)
    (h : installer.rulesForPair graph path first last pair = .ok rules) :
    rules.length = if installer.Anchored path pair then 2 * path.size else 0 := by
  rcases rulesForPair_cases hfirst hlast h with ⟨near, far, hanchors, halong⟩ | ⟨hnot, rfl⟩
  · rw [if_pos ⟨near, far, hanchors⟩, length_rulesAlong halong, Path.size]
  · rw [if_neg hnot, List.length_nil]

/-- A pair that is not anchored has no rules. -/
theorem rulesForPair_eq_nil {first last : SwitchId} {pair : HostPair}
    (hfirst : path.source? = some first) (hlast : path.destination? = some last)
    (h : installer.rulesForPair graph path first last pair = .ok rules)
    (hnot : ¬ installer.Anchored path pair) : rules = [] := by
  rw [← List.length_eq_zero_iff, length_rulesForPair hfirst hlast h, if_neg hnot]

/-! ## All pairs -/

/-- A path has both ends or no switch at all. -/
theorem ends_or_empty (path : Path) :
    (∃ first last, path.source? = some first ∧ path.destination? = some last) ∨
      path.switches = [] := by
  rcases List.eq_nil_or_concat path.switches with hnil | ⟨front, last, hswitches⟩
  · exact .inr hnil
  · left
    obtain ⟨first, hfirst⟩ := Option.isSome_iff_exists.mp
      (show path.source?.isSome = true by simp [Path.source?, hswitches])
    exact ⟨first, last, hfirst, by simp [Path.destination?, hswitches]⟩

/-- A path without switches has no rules. -/
theorem rulesForPath_of_empty (hempty : path.switches = []) :
    installer.rulesForPath graph path = .ok [] := by
  unfold rulesForPath
  simp only [Path.source?, hempty, List.head?_nil]

/-- The rules of a path are those of its pairs, one pair after another. -/
theorem rulesForPath_groups {first last : SwitchId}
    (hfirst : path.source? = some first) (hlast : path.destination? = some last)
    (h : installer.rulesForPath graph path = .ok rules) :
    ∃ groups, List.Forall₂ (fun pair group =>
      installer.rulesForPair graph path first last pair = .ok group) installer.pairs groups ∧
      groups.flatten = rules := by
  unfold rulesForPath at h
  simp only [hfirst, hlast] at h
  obtain ⟨groups, hgroups, rfl⟩ := map_eq_ok_iff.mp h
  exact ⟨groups, forall₂_of_mapM_eq_ok hgroups, rfl⟩

/-- Every rule of a path carries the traffic of two known hosts. -/
theorem rulesForPath_carry (h : installer.rulesForPath graph path = .ok rules) :
    ∀ rule ∈ rules, ∃ src dst index switch, installer.Knows src ∧ installer.Knows dst ∧
      path.switches[index]? = some switch ∧ Carries graph path src dst index switch rule := by
  intro rule hrule
  rcases ends_or_empty path with ⟨first, last, hfirst, hlast⟩ | hempty
  · obtain ⟨groups, hgroups, rfl⟩ := rulesForPath_groups hfirst hlast h
    obtain ⟨group, hgroup, hmem⟩ := List.mem_flatten.mp hrule
    obtain ⟨pair, _, hpair⟩ := exists_partner hgroups.flip hgroup
    exact rulesForPair_carry hfirst hlast hpair rule hmem
  · obtain rfl := Except.ok.inj ((rulesForPath_of_empty hempty).symm.trans h)
    simp at hrule

/-- On a path that passes no switch twice, switch and flow of a rule determine its port. -/
theorem rulesForPath_functional (hnodup : path.switches.Nodup)
    (h : installer.rulesForPath graph path = .ok rules) (hrule : rule ∈ rules)
    (hother : other ∈ rules) (hswitch : rule.switch = other.switch)
    (hflow : rule.flow = other.flow) : rule.out = other.out := by
  obtain ⟨src, dst, index, switch, hsrc, hdst, hindex, hcarries⟩ := rulesForPath_carry h rule hrule
  obtain ⟨src', dst', index', switch', hsrc', hdst', hindex', hcarries'⟩ :=
    rulesForPath_carry h other hother
  -- The flow determines the two hosts, and the switch the place on the path.
  rw [hcarries.flow_eq, hcarries'.flow_eq, flowBetween, flowBetween, FlowMatch.mk.injEq] at hflow
  obtain ⟨_, hsrcs, hdsts⟩ := hflow
  obtain rfl := hsrc.eq_of_ip_eq hsrc' hsrcs
  obtain rfl := hdst.eq_of_ip_eq hdst' hdsts
  rw [hcarries.switch_eq, hcarries'.switch_eq] at hswitch
  subst hswitch
  obtain ⟨hlt, _⟩ := List.getElem?_eq_some_iff.mp hindex
  obtain rfl := (List.getElem?_inj hlt hnodup).mp (hindex.trans hindex'.symm)
  exact hcarries.out_unique hnodup hindex hcarries'

/-- Rules come from anchored pairs only, two for every switch. -/
theorem length_flatten_groups {first last : SwitchId}
    (hfirst : path.source? = some first) (hlast : path.destination? = some last)
    {pairs : List HostPair} {groups : List (List Rule)}
    (h : List.Forall₂ (fun pair group =>
      installer.rulesForPair graph path first last pair = .ok group) pairs groups) :
    groups.flatten.length =
      2 * path.size * pairs.countP fun pair => installer.Anchored path pair := by
  induction h with
  | nil => rfl
  | @cons pair group pairs groups hpair _ ih =>
    rw [List.flatten_cons, List.length_append, ih, length_rulesForPair hfirst hlast hpair,
      List.countP_cons]
    by_cases hanchored : installer.Anchored path pair
    · simp only [hanchored, decide_true, if_true]
      rw [Nat.mul_add_one, Nat.add_comm]
    · simp only [hanchored, decide_false, if_false, Bool.false_eq_true]
      rw [Nat.zero_add, Nat.add_zero]

theorem length_rulesForPath (h : installer.rulesForPath graph path = .ok rules) :
    rules.length =
      2 * path.size * installer.pairs.countP fun pair => installer.Anchored path pair := by
  rcases ends_or_empty path with ⟨first, last, hfirst, hlast⟩ | hempty
  · obtain ⟨groups, hgroups, rfl⟩ := rulesForPath_groups hfirst hlast h
    exact length_flatten_groups hfirst hlast hgroups
  · obtain rfl := Except.ok.inj ((rulesForPath_of_empty hempty).symm.trans h)
    simp [Path.size, hempty]

/-- The same hosts with only those of the pairs that are anchored on a path. -/
def restrict (installer : Installer) (path : Path) : Installer :=
  { installer with pairs := installer.pairs.filter fun pair => installer.Anchored path pair }

theorem mapM_filter_anchored {first last : SwitchId}
    (hfirst : path.source? = some first) (hlast : path.destination? = some last)
    {pairs : List HostPair} {groups : List (List Rule)}
    (h : List.Forall₂ (fun pair group =>
      installer.rulesForPair graph path first last pair = .ok group) pairs groups) :
    ∃ kept, (pairs.filter fun pair => installer.Anchored path pair).mapM
        (installer.rulesForPair graph path first last) = .ok kept ∧
      kept.flatten = groups.flatten := by
  induction h with
  | nil => exact ⟨[], rfl, rfl⟩
  | @cons pair group pairs groups hpair _ ih =>
    obtain ⟨kept, hkept, hflatten⟩ := ih
    by_cases hanchored : installer.Anchored path pair
    · refine ⟨group :: kept, ?_, by rw [List.flatten_cons, List.flatten_cons, hflatten]⟩
      rw [List.filter_cons_of_pos (by simpa using hanchored), List.mapM_cons, hpair, hkept]
      rfl
    · refine ⟨kept, ?_, ?_⟩
      · rw [List.filter_cons_of_neg (by simpa using hanchored), hkept]
      · rw [List.flatten_cons, rulesForPair_eq_nil hfirst hlast hpair hanchored, hflatten,
          List.nil_append]

/-- Without the pairs that are not anchored, the rules are the same. -/
theorem rulesForPath_restrict (h : installer.rulesForPath graph path = .ok rules) :
    (installer.restrict path).rulesForPath graph path = .ok rules := by
  rcases ends_or_empty path with ⟨first, last, hfirst, hlast⟩ | hempty
  · obtain ⟨groups, hgroups, rfl⟩ := rulesForPath_groups hfirst hlast h
    have hkept := mapM_filter_anchored hfirst hlast hgroups
    unfold rulesForPath
    simp only [hfirst, hlast]
    exact map_eq_ok_iff.mpr hkept
  · obtain rfl := Except.ok.inj ((rulesForPath_of_empty hempty).symm.trans h)
    exact rulesForPath_of_empty hempty

/-! ## What a path does for its pairs -/

/-- What one place of a path does for an anchored pair. -/
structure Steers (rules : List Rule) (graph : Graph) (path : Path) (near far : HostBinding)
    (index : Nat) (switch : SwitchId) : Prop where
  /-- What the near host sends leaves towards the next switch, and from the last one to the far
  host. -/
  onward : ∃ rule ∈ rules,
    rule.Forwards graph switch (flowBetween near far) (path.after? index) far
  /-- What the far host sends leaves towards the switch before, and from the first one to the near
  host. -/
  back : ∃ rule ∈ rules,
    rule.Forwards graph switch (flowBetween far near) (path.before? index) near

theorem rulesForPath_steers (hnodup : path.switches.Nodup)
    (h : installer.rulesForPath graph path = .ok rules) {pair : HostPair}
    (hpair : pair ∈ installer.pairs) (hanchors : installer.Anchors path pair near far)
    (hindex : path.switches[index]? = some switch) :
    Steers rules graph path near far index switch := by
  obtain ⟨groups, hgroups, rfl⟩ :=
    rulesForPath_groups hanchors.near_attached hanchors.far_attached h
  obtain ⟨group, hgroup, hrules⟩ := exists_partner hgroups hpair
  obtain ⟨⟨onward, honward, hnext⟩, back, hback, hbefore⟩ := exists_mem_rulesForPair hnodup
    hanchors.near_attached hanchors.far_attached hrules hanchors hindex
  exact ⟨⟨onward, List.mem_flatten_of_mem hgroup honward, hnext⟩,
    ⟨back, List.mem_flatten_of_mem hgroup hback, hbefore⟩⟩

/-- The rules of a path that passes no switch twice do not contradict each other.  On every switch
they carry every anchored pair in both directions; a pair that is not anchored adds nothing; and
there are no more rules than that, all of them for IPv4 and on switches of the path. -/
theorem rulesForPath_carry_pairs (hnodup : path.switches.Nodup)
    (h : installer.rulesForPath graph path = .ok rules) :
    (∀ rule ∈ rules, ∀ other ∈ rules, rule.switch = other.switch → rule.flow = other.flow →
      rule.out = other.out) ∧
    (∀ pair ∈ installer.pairs, ∀ near far, installer.Anchors path pair near far →
      ∀ index switch, path.switches[index]? = some switch →
        Steers rules graph path near far index switch) ∧
    (installer.restrict path).rulesForPath graph path = .ok rules ∧
    rules.length =
      2 * path.size * installer.pairs.countP (fun pair => installer.Anchored path pair) ∧
    ∀ rule ∈ rules, rule.flow.etherType = .ipv4 ∧ rule.switch ∈ path.switches := by
  refine ⟨?_, ?_, rulesForPath_restrict h, length_rulesForPath h, ?_⟩
  · exact fun rule hrule other hother => rulesForPath_functional hnodup h hrule hother
  · exact fun pair hpair near far hanchors index switch =>
      rulesForPath_steers hnodup h hpair hanchors
  · intro rule hrule
    obtain ⟨src, dst, index, switch, _, _, hindex, hcarries⟩ := rulesForPath_carry h rule hrule
    rw [hcarries.flow_eq, hcarries.switch_eq]
    exact ⟨rfl, List.mem_of_getElem? hindex⟩

/-- Three switches in a line, with links both ways. -/
def lineGraph : Graph where
  switches := [⟨1⟩, ⟨2⟩, ⟨3⟩]
  links := [⟨⟨1⟩, ⟨2⟩, ⟨2⟩, 1⟩, ⟨⟨2⟩, ⟨1⟩, ⟨1⟩, 1⟩, ⟨⟨2⟩, ⟨3⟩, ⟨3⟩, 1⟩, ⟨⟨3⟩, ⟨2⟩, ⟨2⟩, 1⟩]
  edges := [⟨⟨1⟩, ⟨2⟩, ⟨2⟩, 1⟩, ⟨⟨2⟩, ⟨1⟩, ⟨1⟩, 1⟩, ⟨⟨2⟩, ⟨3⟩, ⟨3⟩, 1⟩, ⟨⟨3⟩, ⟨2⟩, ⟨2⟩, 1⟩]
  edges_eq := by decide
  closed := by decide

/-- A host on each of three switches.  The pair of the outer two occurs twice, once the other way
round; one pair is attached elsewhere, and one host is paired with itself. -/
def threeHosts : Installer where
  hosts := [⟨⟨10, 0, 0, 1⟩, ⟨1⟩, ⟨11⟩⟩, ⟨⟨10, 0, 0, 2⟩, ⟨2⟩, ⟨12⟩⟩, ⟨⟨10, 0, 0, 3⟩, ⟨3⟩, ⟨13⟩⟩]
  pairs := [⟨⟨10, 0, 0, 1⟩, ⟨10, 0, 0, 3⟩⟩, ⟨⟨10, 0, 0, 1⟩, ⟨10, 0, 0, 2⟩⟩,
    ⟨⟨10, 0, 0, 3⟩, ⟨10, 0, 0, 1⟩⟩, ⟨⟨10, 0, 0, 3⟩, ⟨10, 0, 0, 3⟩⟩]

/-- Along the line there are twelve rules.  On the second switch, what the third host sends to the
first leaves by the port towards the first switch, whichever of the rules is followed. -/
theorem rulesForPath_carry_pairs_line : ∃ rules,
    threeHosts.rulesForPath lineGraph ⟨[⟨1⟩, ⟨2⟩, ⟨3⟩]⟩ = .ok rules ∧ rules.length = 12 ∧
    ∃ rule ∈ rules, rule.switch = ⟨2⟩ ∧ rule.flow = ⟨.ipv4, ⟨10, 0, 0, 3⟩, ⟨10, 0, 0, 1⟩⟩ ∧
      rule.out = ⟨1⟩ ∧
      ∀ other ∈ rules, other.switch = ⟨2⟩ → other.flow = rule.flow → other.out = ⟨1⟩ := by
  have hok : (threeHosts.rulesForPath lineGraph ⟨[⟨1⟩, ⟨2⟩, ⟨3⟩]⟩).toBool = true := by decide
  cases hrules : threeHosts.rulesForPath lineGraph ⟨[⟨1⟩, ⟨2⟩, ⟨3⟩]⟩ with
  | error fault => simp [hrules, Except.toBool] at hok
  | ok rules =>
    obtain ⟨hfunctional, hsteers, _, hlength, _⟩ := rulesForPath_carry_pairs (by decide) hrules
    refine ⟨rules, rfl, hlength.trans (by decide), ?_⟩
    obtain ⟨rule, hrule, hforwards⟩ := (hsteers ⟨⟨10, 0, 0, 1⟩, ⟨10, 0, 0, 3⟩⟩ (by decide)
      ⟨⟨10, 0, 0, 1⟩, ⟨1⟩, ⟨11⟩⟩ ⟨⟨10, 0, 0, 3⟩, ⟨3⟩, ⟨13⟩⟩ ⟨.inl (by decide), rfl, rfl⟩
      1 ⟨2⟩ rfl).back
    have hport : rule.out = ⟨1⟩ := Except.ok.inj ((hforwards.towards ⟨1⟩ rfl).symm.trans rfl)
    have hswitch : rule.switch = ⟨2⟩ := congrArg Rule.switch hforwards.permanent
    refine ⟨rule, hrule, hswitch, congrArg Rule.flow hforwards.permanent, hport, ?_⟩
    intro other hother hsame hflow
    rw [← hport]
    exact hfunctional other hother rule hrule (hsame.trans hswitch.symm) hflow

end Installer

end TrafficSteering
