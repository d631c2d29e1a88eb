import TrafficSteering.Proofs.DataPlane
import TrafficSteering.Proofs.Graph.SimplePaths
import TrafficSteering.Proofs.Installer.Steering
import TrafficSteering.Settings
set_option autoImplicit false

/-!
# Installing a path

With a usable configuration every steered host is known, and along a simple path there is a link to
every next switch.  So all that the rules of a path can lack is a link back: they cannot be computed
exactly if some pair is anchored on the path and some hop of it leads one way only.  All rules are
computed before the first is offered, and from then on they are offered in their order up to the
first that is refused, whatever the switches are like.
-/

namespace TrafficSteering

/-! ## Hops that lead one way -/

namespace Graph

/-- No link was reported in the direction opposite to a hop. -/
def oneWay (graph : Graph) (hop : SwitchId × SwitchId) : Bool :=
  !graph.links.any fun link => link.joins hop.2 hop.1

/-- The first hop of a path that no link leads back along. -/
def firstOneWay? (graph : Graph) (path : Path) : Option (SwitchId × SwitchId) :=
  path.hops.find? graph.oneWay

variable {graph : Graph} {src dst : SwitchId}

theorem oneWay_iff {hop : SwitchId × SwitchId} :
    graph.oneWay hop = true ↔ ¬ graph.Adjacent hop.2 hop.1 := by
  simp [oneWay, Adjacent, Link.joins_iff]

theorem firstOneWay?_cons_cons (first second : SwitchId) (rest : List SwitchId) :
    graph.firstOneWay? ⟨first :: second :: rest⟩ =
      if graph.oneWay (first, second) then some (first, second)
      else graph.firstOneWay? ⟨second :: rest⟩ := by
  rw [firstOneWay?, Path.hops_cons_cons, List.find?_cons]
  cases graph.oneWay (first, second) <;> rfl

theorem egressPort_of_adjacent (h : graph.Adjacent src dst) :
    ∃ port, graph.egressPort src dst = .ok port := by
  obtain ⟨edge, hedge⟩ := exists_edge_iff.mpr h
  exact ⟨edge.port, egressPort_eq_ok_iff.mpr ⟨edge, hedge, rfl⟩⟩

theorem egressPort_of_not_adjacent (h : ¬ graph.Adjacent src dst) :
    graph.egressPort src dst = .error (.missingEdge src dst) := by
  refine egressPort_eq_error_iff.mpr ⟨?_, rfl⟩
  rw [Option.eq_none_iff_forall_ne_some]
  exact fun edge hedge => h (exists_edge_iff.mp ⟨edge, hedge⟩)

end Graph

namespace Installer

variable {installer : Installer} {graph : Graph} {path : Path} {near far : HostBinding}
  {fault : Fault}

/-! ## Rules that cannot be computed -/

/-- Where both ports of a switch are found, a fault comes from further along the path. -/
theorem rulesAlong_cons_eq_error_iff {previous : Option SwitchId} {switch : SwitchId}
    {rest : List SwitchId} {out back : PortNo}
    (hout : portTowards graph switch rest.head? far = .ok out)
    (hback : portTowards graph switch previous near = .ok back) :
    rulesAlong graph near far previous (switch :: rest) = .error fault ↔
      rulesAlong graph near far (some switch) rest = .error fault := by
  rw [rulesAlong, hout, hback]
  show (rulesAlong graph near far (some switch) rest >>= _) = _ ↔ _
  rw [bind_eq_error_iff]
  simp [pure, Except.pure]

/-- Along switches each of which has a link to the next, the only fault is that the first hop that
leads one way has no link back. -/
theorem rulesAlong_eq_error_iff {previous : Option SwitchId} {switches : List SwitchId}
    (hforward : ∀ hop ∈ (⟨switches⟩ : Path).hops, graph.Adjacent hop.1 hop.2) :
    rulesAlong graph near far previous switches = .error fault ↔
      ∃ hop, graph.firstOneWay? ⟨previous.toList ++ switches⟩ = some hop ∧
        fault = .missingEdge hop.2 hop.1 := by
  induction switches generalizing previous with
  | nil => cases previous <;> simp [rulesAlong, Graph.firstOneWay?, Path.hops]
  | cons switch rest ih =>
    have hrest : rulesAlong graph near far (some switch) rest = .error fault ↔
        ∃ hop, graph.firstOneWay? ⟨switch :: rest⟩ = some hop ∧
          fault = .missingEdge hop.2 hop.1 :=
      ih fun hop hmem => hforward hop (Path.hops_tail_subset switch rest hmem)
    obtain ⟨out, hout⟩ : ∃ out, portTowards graph switch rest.head? far = .ok out := by
      cases rest with
      | nil => exact ⟨far.port, rfl⟩
      | cons next others =>
        exact Graph.egressPort_of_adjacent (hforward (switch, next) List.mem_cons_self)
    cases previous with
    | none =>
      -- The first switch leaves back by the port of a host, which is always there.
      rw [rulesAlong_cons_eq_error_iff hout rfl, hrest]
      rfl
    | some before =>
      rw [show (some before).toList ++ switch :: rest = before :: switch :: rest from rfl,
        Graph.firstOneWay?_cons_cons]
      by_cases hback : graph.Adjacent switch before
      · obtain ⟨back, hport⟩ : ∃ back, portTowards graph switch (some before) near = .ok back :=
          Graph.egressPort_of_adjacent hback
        rw [rulesAlong_cons_eq_error_iff hout hport, hrest,
          if_neg (by simpa [Graph.oneWay_iff] using hback)]
      · have hport : portTowards graph switch (some before) near = _ :=
          Graph.egressPort_of_not_adjacent hback
        rw [rulesAlong, hout, hport, if_pos (Graph.oneWay_iff.mpr hback)]
        simp [bind, Except.bind, eq_comm]

/-- Both hosts of a pair are known. -/
def Binds (installer : Installer) (pair : HostPair) : Prop :=
  (∃ a, installer.host pair.first = .ok a) ∧ ∃ b, installer.host pair.second = .ok b

theorem rulesForPair_eq_error_iff {first last : SwitchId} {pair : HostPair}
    (hfirst : path.source? = some first) (hlast : path.destination? = some last)
    (hforward : ∀ hop ∈ path.hops, graph.Adjacent hop.1 hop.2) (hbound : installer.Binds pair) :
    installer.rulesForPair graph path first last pair = .error fault ↔
      installer.Anchored path pair ∧
        ∃ hop, graph.firstOneWay? path = some hop ∧ fault = .missingEdge hop.2 hop.1 := by
  obtain ⟨⟨a, ha⟩, b, hb⟩ := hbound
  simp only [rulesForPair, ha, hb, bind, Except.bind]
  cases horient : orient? first last a b with
  | none =>
    have hnot := not_anchored_of_orient? hfirst hlast ha hb horient
    simp [hnot, pure, Except.pure]
  | some ends =>
    obtain ⟨near, far⟩ := ends
    have hanchored : installer.Anchored path pair :=
      ⟨near, far, anchors_of_orient? hfirst hlast ha hb horient⟩
    rw [and_iff_right hanchored]
    exact rulesAlong_eq_error_iff hforward

/-- The rules of a walk between known hosts lack nothing but the link back along the first hop that
leads one way, and that only if some pair needs it. -/
theorem rulesForPath_eq_error_iff (hbound : ∀ pair ∈ installer.pairs, installer.Binds pair)
    {src dst : SwitchId} (hwalk : graph.IsWalk src dst path) :
    installer.rulesForPath graph path = .error fault ↔
      (∃ pair ∈ installer.pairs, installer.Anchored path pair) ∧
        ∃ hop, graph.firstOneWay? path = some hop ∧ fault = .missingEdge hop.2 hop.1 := by
  have hpair : ∀ pair ∈ installer.pairs, ∀ fault,
      installer.rulesForPair graph path src dst pair = .error fault ↔
        installer.Anchored path pair ∧
          ∃ hop, graph.firstOneWay? path = some hop ∧ fault = .missingEdge hop.2 hop.1 :=
    fun pair hmem _ =>
      rulesForPair_eq_error_iff hwalk.starts hwalk.ends hwalk.joined (hbound pair hmem)
  unfold rulesForPath
  simp only [hwalk.starts, hwalk.ends]
  rw [map_eq_error_iff]
  constructor
  · intro h
    obtain ⟨pair, hmem, hfault⟩ := exists_of_mapM_eq_error h
    obtain ⟨hanchored, hhop⟩ := (hpair pair hmem fault).mp hfault
    exact ⟨⟨pair, hmem, hanchored⟩, hhop⟩
  · rintro ⟨⟨pair, hmem, hanchored⟩, hop, hhop, rfl⟩
    obtain ⟨first, hall⟩ := exists_mapM_eq_error hmem
      ((hpair pair hmem _).mpr ⟨hanchored, hop, hhop, rfl⟩)
    -- Whichever pair comes first, its fault is at the same hop.
    obtain ⟨other, hother, hfault⟩ := exists_of_mapM_eq_error hall
    obtain ⟨_, found, hfound, rfl⟩ := (hpair other hother first).mp hfault
    obtain rfl := Option.some.inj (hhop.symm.trans hfound)
    exact hall

/-! ## Offers -/

variable {σ : Type} (offer : σ → Rule → σ × Except Fault Unit)

/-- Offers a rule and writes the answer down. -/
def recording (state : σ × List (Rule × Except Fault Unit)) (rule : Rule) :
    (σ × List (Rule × Except Fault Unit)) × Except Fault Unit :=
  let (next, answer) := offer state.1 rule
  ((next, state.2 ++ [(rule, answer)]), answer)

/-- The rules that have been accepted. -/
def taken (offers : List (Rule × Except Fault Unit)) : List Rule :=
  (offers.filter fun offer => offer.2.toBool).map Prod.fst

/-- The offers of rules one after another: all of them are accepted, or there are no more after the
first that is refused, and its refusal is the answer. -/
inductive UpToRefusal : List Rule → List (Rule × Except Fault Unit) → Except Fault Unit → Prop where
  | done : UpToRefusal [] [] (.ok ())
  | accepted {rules : List Rule} {offers : List (Rule × Except Fault Unit)}
      {answer : Except Fault Unit} (rule : Rule) (h : UpToRefusal rules offers answer) :
      UpToRefusal (rule :: rules) ((rule, .ok ()) :: offers) answer
  | refused (rule : Rule) (rules : List Rule) (fault : Fault) :
      UpToRefusal (rule :: rules) [(rule, .error fault)] (.error fault)

theorem offerAll_recording (state : σ) (offers : List (Rule × Except Fault Unit))
    (rules : List Rule) : ∃ later,
      offerAll (recording offer) (state, offers) rules =
        (((offerAll offer state rules).1, offers ++ later), (offerAll offer state rules).2) ∧
      UpToRefusal rules later (offerAll offer state rules).2 := by
  induction rules generalizing state offers with
  | nil => exact ⟨[], by simp [offerAll], .done⟩
  | cons rule rest ih =>
    rw [offerAll, offerAll, recording]
    rcases hanswer : offer state rule with ⟨next, fault | ⟨⟩⟩
    · exact ⟨[(rule, .error fault)], rfl, .refused rule rest fault⟩
    · obtain ⟨later, hlater, hoffered⟩ := ih next (offers ++ [(rule, .ok ())])
      refine ⟨(rule, .ok ()) :: later, ?_, .accepted rule hoffered⟩
      simp only [hlater, List.append_assoc, List.singleton_append]

variable {rules : List Rule} {offers : List (Rule × Except Fault Unit)}
  {answer : Except Fault Unit}

theorem UpToRefusal.taken_prefix (h : UpToRefusal rules offers answer) :
    taken offers <+: rules := by
  induction h with
  | done => exact List.nil_prefix
  | accepted rule _ ih => exact (List.prefix_cons_inj rule).mpr ih
  | refused => exact List.nil_prefix

theorem UpToRefusal.ok_iff (h : UpToRefusal rules offers answer) :
    answer = .ok () ↔ taken offers = rules := by
  induction h with
  | done => exact iff_of_true rfl rfl
  | accepted rule _ ih => exact ih.trans (List.cons_inj_right rule).symm
  | refused rule rest fault => exact iff_of_false nofun nofun

/-! ## Usable configurations -/

end Installer

/-- The hosts and pairs of a configuration. -/
def Settings.installer (settings : Settings) : Installer := ⟨settings.hosts, settings.pairs⟩

namespace Installer

theorem exists_host {installer : Installer} {ip : Address.IPv4}
    (h : (installer.hosts.any fun binding => binding.ip == ip) = true) :
    ∃ binding, installer.host ip = .ok binding := by
  obtain ⟨binding, hmem, hip⟩ := List.any_eq_true.mp h
  unfold host
  cases hfound : installer.hosts.reverse.find? fun binding => binding.ip == ip with
  | some found => exact ⟨found, rfl⟩
  | none => exact absurd hip (List.find?_eq_none.mp hfound binding (List.mem_reverse.mpr hmem))

/-- In a usable configuration both hosts of every steered pair are known. -/
theorem binds_of_validate {settings : Settings} (h : settings.validate = .ok ()) :
    ∀ pair ∈ settings.pairs, settings.installer.Binds pair := by
  have hnone : settings.firstUnbound? = none := by
    unfold Settings.validate at h
    split at h
    · cases h
    · split at h
      · cases h
      · split at h
        · cases h
        · assumption
  intro pair hpair
  have hbound : ∀ ip ∈ [pair.first, pair.second],
      (settings.hosts.any fun binding => binding.ip == ip) = true := by
    intro ip hip
    have hall := List.find?_eq_none.mp hnone ip (List.mem_flatMap.mpr ⟨pair, hpair, hip⟩)
    simpa using hall
  exact ⟨exists_host (hbound _ List.mem_cons_self),
    exists_host (hbound _ (List.mem_cons_of_mem _ List.mem_cons_self))⟩

/-- What comes of an installation that computes these rules. -/
structure Installs (rules : List Rule) (offers : List (Rule × Except Fault Unit))
    (answer : Except Fault Nat) : Prop where
  /-- They are offered in their order up to the first refusal, which is the answer. -/
  offered : ∃ verdict, UpToRefusal rules offers verdict ∧
    answer = verdict.map fun _ => rules.length
  accepted : taken offers <+: rules
  complete : ∀ count, answer = .ok count ↔ taken offers = rules ∧ count = rules.length

theorem installs_of_upToRefusal {rules : List Rule} {offers : List (Rule × Except Fault Unit)}
    {verdict : Except Fault Unit} (h : UpToRefusal rules offers verdict) :
    Installs rules offers (verdict.map fun _ => rules.length) := by
  refine ⟨⟨verdict, h, rfl⟩, h.taken_prefix, fun count => ?_⟩
  rw [← h.ok_iff]
  cases verdict <;> simp [Except.map, eq_comm]

/-- With a usable configuration the rules of a simple path never lack a host.  They cannot be
computed exactly if some pair is anchored on the path and some hop leads one way only, and then the
link back along the first such hop is reported missing and nothing is offered.  Otherwise they are
offered up to the first refusal, so that what is accepted is a beginning of them, and their number
is the answer exactly if all are accepted. -/
theorem installPath_outcome {settings : Settings} (hvalid : settings.validate = .ok ())
    {graph : Graph} {src dst : SwitchId} {path : Path} (hpath : path ∈ graph.simplePaths src dst)
    {σ : Type} (offer : σ → Rule → σ × Except Fault Unit) (state : σ) :
    (∀ ip, settings.installer.rulesForPath graph path ≠ .error (.unknownHost ip)) ∧
    (∀ fault, settings.installer.rulesForPath graph path = .error fault ↔
      (∃ pair ∈ settings.pairs, settings.installer.Anchored path pair) ∧
        ∃ hop, graph.firstOneWay? path = some hop ∧ fault = .missingEdge hop.2 hop.1) ∧
    (∀ fault, settings.installer.rulesForPath graph path = .error fault →
      settings.installer.installPath (recording offer) graph path (state, []) =
        ((state, []), .error fault)) ∧
    ∀ rules, settings.installer.rulesForPath graph path = .ok rules →
      ∃ offers, Installs rules offers (settings.installer.installPath offer graph path state).2 ∧
        settings.installer.installPath (recording offer) graph path (state, []) =
          (((settings.installer.installPath offer graph path state).1, offers),
            (settings.installer.installPath offer graph path state).2) := by
  have hwalk := (Graph.mem_simplePaths_iff.mp hpath).2.toIsWalk
  have hfails : ∀ fault, settings.installer.rulesForPath graph path = .error fault ↔
      (∃ pair ∈ settings.pairs, settings.installer.Anchored path pair) ∧
        ∃ hop, graph.firstOneWay? path = some hop ∧ fault = .missingEdge hop.2 hop.1 :=
    fun _ => rulesForPath_eq_error_iff (binds_of_validate hvalid) hwalk
  refine ⟨?_, hfails, ?_, ?_⟩
  · intro ip h
    obtain ⟨_, _, _, hfault⟩ := (hfails _).mp h
    cases hfault
  · exact fun fault h => installPath_of_error _ _ (recording offer) h (state, [])
  · intro rules h
    obtain ⟨offers, hrecorded, hoffered⟩ := offerAll_recording offer state [] rules
    rw [installPath_of_ok _ _ offer h, installPath_of_ok _ _ (recording offer) h, hrecorded]
    exact ⟨offers, installs_of_upToRefusal hoffered, rfl⟩

/-- The line without the link from its last switch back. -/
def halfLine : Graph where
  switches := [⟨1⟩, ⟨2⟩, ⟨3⟩]
  links := [⟨⟨1⟩, ⟨2⟩, ⟨2⟩, 1⟩, ⟨⟨2⟩, ⟨1⟩, ⟨1⟩, 1⟩, ⟨⟨2⟩, ⟨3⟩, ⟨3⟩, 1⟩]
  edges := [⟨⟨1⟩, ⟨2⟩, ⟨2⟩, 1⟩, ⟨⟨2⟩, ⟨1⟩, ⟨1⟩, 1⟩, ⟨⟨2⟩, ⟨3⟩, ⟨3⟩, 1⟩]
  edges_eq := by decide
  closed := by decide

/-- A configuration that steers the outer two of three hosts. -/
def outerHosts : Settings where
  hosts := threeHosts.hosts
  pairs := [⟨⟨10, 0, 0, 1⟩, ⟨10, 0, 0, 3⟩⟩]

/-- All three switches of the line. -/
def fullLine : Path := ⟨[⟨1⟩, ⟨2⟩, ⟨3⟩]⟩

/-- Along the line, switches with room for four rules take four of the six and refuse the next.
Without the last link back there are no rules to offer. -/
theorem installPath_outcome_line :
    outerHosts.validate = .ok () ∧
    (fullLine ∈ lineGraph.simplePaths ⟨1⟩ ⟨3⟩ ∧
      ∃ rules offers, outerHosts.installer.rulesForPath lineGraph fullLine = .ok rules ∧
        Installs rules offers (.error (.refused .full)) ∧ rules.length = 6 ∧
        (taken offers).length = 4) ∧
    fullLine ∈ halfLine.simplePaths ⟨1⟩ ⟨3⟩ ∧
      outerHosts.installer.rulesForPath halfLine fullLine = .error (.missingEdge ⟨3⟩ ⟨2⟩) := by
  have hvalid : outerHosts.validate = .ok () := by decide
  have hline : fullLine ∈ lineGraph.simplePaths ⟨1⟩ ⟨3⟩ := by decide
  have hhalf : fullLine ∈ halfLine.simplePaths ⟨1⟩ ⟨3⟩ := by decide
  refine ⟨hvalid, ⟨hline, ?_⟩, hhalf, ?_⟩
  · obtain ⟨rules, hrules⟩ : ∃ rules,
        outerHosts.installer.rulesForPath lineGraph fullLine = .ok rules := ⟨_, rfl⟩
    have hcount : (outerHosts.installer.rulesForPath lineGraph fullLine).map List.length =
      .ok 6 := rfl
    have htaken : (taken (outerHosts.installer.installPath (recording DataPlane.install) lineGraph
      fullLine ({ room := some 4 }, [])).1.2).length = 4 := rfl
    obtain ⟨_, _, _, hinstalls⟩ :=
      installPath_outcome hvalid hline DataPlane.install { room := some 4 }
    obtain ⟨offers, hoffers, hrecorded⟩ := hinstalls rules hrules
    rw [hrules] at hcount
    rw [hrecorded] at htaken
    exact ⟨rules, offers, hrules, hoffers, Except.ok.inj hcount, htaken⟩
  · obtain ⟨_, hfails, _⟩ := installPath_outcome hvalid hhalf DataPlane.install {}
    exact (hfails _).mpr ⟨⟨_, List.mem_cons_self, by decide⟩, (⟨2⟩, ⟨3⟩), by decide, rfl⟩

end Installer

end TrafficSteering
