import TrafficSteering.Proofs.Graph.Agreement
import TrafficSteering.Proofs.Graph.Search.Lookup
set_option autoImplicit false

/-!
# Ties between shortest paths

Where no edge is free, switches are settled in the order of their distances, and of their numbers
where the distances are equal.  A label gives way to a strictly shorter one only, so of all the
neighbours from which a shortest way leads on to a switch, the one that was settled first stays
before it.  The shortest path can therefore be read off the distances: it goes back from the target
to the preferred neighbour, from there to that one's, and so on until the source.
-/

namespace TrafficSteering.Graph

/-! ## The order in which switches are settled -/

/-- An edge leads from a labelled switch to another one, whose distance is the sum along it. -/
def Label.LeadsTo (graph : Graph) (node label : Label) : Prop :=
  ∃ edge ∈ graph.edgesFrom node.switch,
    edge.dst = label.switch ∧ node.distance + edge.weight.toNat = label.distance

/-- A label extends another one, and no settled label that leads to it comes before that one. -/
structure Foremost (graph : Graph) (settled : List Label) (label first : Label) : Prop where
  mem : first ∈ settled
  extended : ∃ edge ∈ graph.edgesFrom first.switch, label = first.extend edge
  earliest : ∀ node ∈ settled, node.LeadsTo graph label → ¬ node.before first = true

/-- No edge is free. -/
def Charged (graph : Graph) : Prop :=
  ∀ (src dst : SwitchId) (weight : UInt32), graph.weight src dst = .ok weight → 1 ≤ weight.toNat

variable {graph : Graph} {source target : SwitchId} {settled : List Label} {node label : Label}

theorem charged_iff : graph.Charged ↔ ∀ edge ∈ graph.edges, 1 ≤ edge.weight.toNat := by
  constructor
  · intro h edge hmem
    exact h edge.src edge.dst edge.weight (weight_eq_ok (edge?_of_mem hmem))
  · intro h src dst weight hweight
    obtain ⟨edge, hedge, rfl⟩ := weight_eq_ok_iff.mp hweight
    exact h edge (List.mem_of_find?_eq_some hedge)

instance (graph : Graph) : Decidable graph.Charged := decidable_of_iff _ charged_iff.symm

namespace Label

theorem distance_lt_extend (hcharged : graph.Charged) {edge : Link}
    (hedge : edge ∈ graph.edgesFrom node.switch) : node.distance < (node.extend edge).distance := by
  have hweight := charged_iff.mp hcharged edge (List.mem_of_mem_filter hedge)
  show node.distance < node.distance + edge.weight.toNat
  omega

end Label

theorem Foremost.cons {first : Label} (h : Foremost graph settled label first)
    (hbefore : first.before node = true) : Foremost graph (node :: settled) label first where
  mem := List.mem_cons_of_mem _ h.mem
  extended := h.extended
  earliest := by
    intro other hmem hleads
    rcases List.mem_cons.mp hmem with rfl | hold
    · exact Label.not_before_of_before hbefore
    · exact h.earliest other hold hleads

namespace Search

/-- What holds between two steps of a search on a graph where no edge is free. -/
structure Ascending (graph : Graph) (source : SwitchId) (search : Search) : Prop extends
    Invariant graph source search where
  /-- All settled labels come before all waiting ones. -/
  ascending : ∀ node ∈ search.settled, ∀ label ∈ search.waiting, node.before label = true
  /-- Every label but that of the source extends the first settled one that leads to it. -/
  foremost : ∀ label ∈ search.settled ++ search.waiting,
    label.switch = source ∨ ∃ first, Foremost graph search.settled label first

theorem start_ascending (graph : Graph) (source : SwitchId) :
    Ascending graph source (start source) where
  toInvariant := start_invariant graph source
  ascending := by simp [start]
  foremost := by
    intro label hmem
    rw [List.mem_singleton.mp hmem]
    exact .inl rfl

variable {search : Search}

/-- A label to which a switch leads that was settled earlier is not made by a step: that switch has
made it already, or a shorter one. -/
theorem Invariant.mem_waiting_of_leadsTo (h : Invariant graph source search)
    (hafter : Invariant graph source (search.settle graph node))
    (hmem : label ∈ (search.settle graph node).waiting) {other : Label}
    (hother : other ∈ search.settled) (hleads : other.LeadsTo graph label) :
    label ∈ search.waiting := by
  obtain ⟨edge, hedge, hdst, hdistance⟩ := hleads
  have hopen := hafter.fresh label hmem
  rw [settle_settled graph node h.distinct] at hopen
  obtain ⟨old, hold, hswitch, hbound⟩ := h.relaxed other hother edge hedge
  rw [hdst] at hswitch
  rw [hdistance] at hbound
  -- The label made then still waits, since its switch is not settled.
  have hwaiting : old ∈ search.waiting := by
    rcases List.mem_append.mp hold with hsettled | hwaiting
    · exact absurd (List.mem_cons_of_mem _ (hswitch ▸ mem_switchesOf hsettled)) hopen
    · exact hwaiting
  have hbefore := labelOf?_eq_some h.distinct hwaiting
  have hnow := labelOf?_eq_some hafter.distinct hmem
  rw [hswitch] at hbefore
  rw [labelOf?_settle graph hopen, hbefore] at hnow
  -- It is not longer than the label in question, so it cannot have given way to that one.
  cases hoffered : (graph.edge? node.switch label.switch).map node.extend with
  | none =>
    rw [hoffered] at hnow
    exact Option.some.inj hnow ▸ hwaiting
  | some new =>
    rw [hoffered, Label.shorter?] at hnow
    split at hnow
    · rename_i hshorter
      rw [Option.some.inj hnow] at hshorter
      omega
    · exact Option.some.inj hnow ▸ hwaiting

/-- Once the first of the waiting switches is settled, the others still come after all settled
ones. -/
theorem Ascending.ascending_settle (hcharged : graph.Charged) (h : Ascending graph source search)
    (hnode : node ∈ search.waiting)
    (hfirst : ∀ label ∈ search.waiting, ¬ label.before node = true) :
    ∀ done ∈ node :: search.settled, ∀ label ∈ (search.settle graph node).waiting,
      done.before label = true := by
  intro done hdone label hmem
  rcases settle_made graph node h.distinct label hmem with ⟨hold, hne⟩ | ⟨edge, hedge, rfl, _⟩
  · rcases List.mem_cons.mp hdone with rfl | hearlier
    · exact Label.before_of_not_before hne.symm (hfirst label hold)
    · exact h.ascending done hearlier label hold
  · have hnear := h.toInvariant.settled_distance_le hnode done hdone
    have hfar := Label.distance_lt_extend hcharged hedge
    exact Label.before_iff.mpr (.inl (Nat.lt_of_le_of_lt hnear hfar))

/-- Once a waiting switch is settled, every label but that of the source extends the first settled
one that leads to it. -/
theorem Ascending.foremost_settle (h : Ascending graph source search)
    (hnode : node ∈ search.waiting)
    (hafter : Invariant graph source (search.settle graph node)) :
    ∀ label ∈ (node :: search.settled) ++ (search.settle graph node).waiting,
      label.switch = source ∨ ∃ first, Foremost graph (node :: search.settled) label first := by
  -- For a label made earlier nothing changes, since all settled ones come before the new one.
  have hknown : ∀ label ∈ search.settled ++ search.waiting,
      label.switch = source ∨ ∃ first, Foremost graph (node :: search.settled) label first := by
    intro label hmem
    rcases h.foremost label hmem with hsource | ⟨first, hforemost⟩
    · exact .inl hsource
    · exact .inr ⟨first, hforemost.cons (h.ascending first hforemost.mem node hnode)⟩
  intro label hmem
  rcases List.mem_append.mp hmem with hdone | hwaits
  · rcases List.mem_cons.mp hdone with rfl | hearlier
    · exact hknown label (List.mem_append_right _ hnode)
    · exact hknown label (List.mem_append_left _ hearlier)
  · by_cases hold : label ∈ search.waiting
    · exact hknown label (List.mem_append_right _ hold)
    · obtain ⟨hwaited, _⟩ | ⟨edge, hedge, hlabel, _⟩ :=
        settle_made graph node h.distinct label hwaits
      · exact absurd hwaited hold
      · refine .inr ⟨node, List.mem_cons_self, ⟨edge, hedge, hlabel⟩, ?_⟩
        intro other hother hleads
        rcases List.mem_cons.mp hother with rfl | hearlier
        · rw [Label.before_iff]
          omega
        · exact absurd (h.mem_waiting_of_leadsTo hafter hwaits hearlier hleads) hold

/-- Settling the first of the waiting switches keeps the order. -/
theorem Ascending.settle (hcharged : graph.Charged) (h : Ascending graph source search)
    (hnode : node ∈ search.waiting)
    (hfirst : ∀ label ∈ search.waiting, ¬ label.before node = true) :
    Ascending graph source (search.settle graph node) := by
  have hafter := h.toInvariant.settle hnode fun label hmem =>
    Label.distance_le_of_not_before (hfirst label hmem)
  have hsettled := settle_settled graph node h.distinct
  refine ⟨hafter, ?_, ?_⟩
  · rw [hsettled]
    exact h.ascending_settle hcharged hnode hfirst
  · rw [hsettled]
    exact h.foremost_settle hnode hafter

theorem Ascending.run (hcharged : graph.Charged) (h : Ascending graph source search)
    (steps : Nat) : Ascending graph source (search.run graph steps) := by
  refine run_induction ?_ h steps
  intro search label others hwaiting h
  apply h.settle hcharged
  · rw [hwaiting]
    exact Label.first_mem label others
  · rw [hwaiting]
    exact Label.not_before_first label others

end Search

/-! ## The preferred neighbour -/

/-- A shortest way to the target may come from this switch, which is at the given distance: an edge
leads from it to the target, and the distance of the target is the sum along it. -/
def ComesFrom (graph : Graph) (source target previous : SwitchId) (distance : Nat) : Prop :=
  (graph.shortestPaths source).distance? previous = some distance ∧
    ∃ weight, graph.weight previous target = .ok weight ∧
      (graph.shortestPaths source).distance? target = some (distance + weight.toNat)

/-- Of the switches from which a shortest way to the target may come, this one has the least
distance, and the least number among those at this distance. -/
def Preferred (graph : Graph) (source target previous : SwitchId) : Prop :=
  ∃ distance, graph.ComesFrom source target previous distance ∧
    ∀ (other : SwitchId) (farther : Nat), graph.ComesFrom source target other farther →
      distance < farther ∨ (distance = farther ∧ previous.number ≤ other.number)

theorem Preferred.unique {a b : SwitchId} (ha : graph.Preferred source target a)
    (hb : graph.Preferred source target b) : a = b := by
  obtain ⟨near, hnear, hleastNear⟩ := ha
  obtain ⟨far, hfar, hleastFar⟩ := hb
  have hab := hleastNear b far hfar
  have hba := hleastFar a near hnear
  exact SwitchId.number_injective (by omega)

theorem Preferred.adjacent {previous : SwitchId} (h : graph.Preferred source target previous) :
    graph.Adjacent previous target := by
  obtain ⟨_, ⟨_, weight, hweight, _⟩, _⟩ := h
  obtain ⟨edge, hedge, _⟩ := weight_eq_ok_iff.mp hweight
  exact exists_edge_iff.mp ⟨edge, hedge⟩

/-- No shortest way leads back to the source. -/
theorem Preferred.ne_source (hcharged : graph.Charged) {previous : SwitchId}
    (h : graph.Preferred source target previous) : target ≠ source := by
  rintro rfl
  obtain ⟨_, ⟨_, weight, hweight, hdistance⟩, _⟩ := h
  have hzero := distance?_of_path? (path?_self graph target)
  rw [hdistance] at hzero
  have hsum : _ + weight.toNat = 0 := Option.some.inj hzero
  have hpositive := hcharged _ _ _ hweight
  omega

theorem labels_foremost (hcharged : graph.Charged)
    (hmem : label ∈ (graph.shortestPaths source).labels) (hother : label.switch ≠ source) :
    ∃ first, Foremost graph (graph.shortestPaths source).labels label first := by
  have h := (Search.start_ascending graph source).run hcharged (graph.edges.length + 1)
  exact (h.foremost label (List.mem_append_left _ hmem)).resolve_left hother

/-- A shortest path is that of the preferred neighbour of its target, and the target. -/
theorem exists_preferred (hcharged : graph.Charged) (hother : target ≠ source) {path : Path}
    (hpath : (graph.shortestPaths source).path? target = some path) :
    ∃ front previous, path = ⟨front ++ [target]⟩ ∧
      (graph.shortestPaths source).path? previous = some ⟨front⟩ ∧
      graph.Preferred source target previous := by
  obtain ⟨label, hmem, rfl, rfl⟩ := path?_eq_some_iff.mp hpath
  obtain ⟨first, hforemost⟩ := labels_foremost hcharged hmem hother
  obtain ⟨edge, hedge, rfl⟩ := hforemost.extended
  have hreached : (graph.shortestPaths source).distance? (first.extend edge).switch =
      some (first.distance + edge.weight.toNat) :=
    distance?_eq_some_iff.mpr ⟨_, hmem, rfl, rfl⟩
  refine ⟨first.trail.reverse, first.switch, by simp [Label.extend],
    path?_eq_some_iff.mpr ⟨first, hforemost.mem, rfl, rfl⟩, first.distance, ⟨?_, ?_⟩, ?_⟩
  · exact distance?_eq_some_iff.mpr ⟨first, hforemost.mem, rfl, rfl⟩
  · exact ⟨edge.weight, weight_eq_ok (mem_edgesFrom_iff.mp hedge), hreached⟩
  · rintro other farther ⟨hdistance, weight, hweight, hsum⟩
    obtain ⟨node, hnode, rfl, rfl⟩ := distance?_eq_some_iff.mp hdistance
    obtain ⟨rival, hrival, rfl⟩ := weight_eq_ok_iff.mp hweight
    have hdst := (joins_of_edge? hrival).2
    have hleads : node.LeadsTo graph (first.extend edge) := by
      refine ⟨rival, mem_edgesFrom_iff.mpr (by rwa [hdst]), hdst, ?_⟩
      exact Option.some.inj (hsum.symm.trans hreached)
    have hnot := hforemost.earliest node hnode hleads
    rw [Label.before_iff] at hnot
    omega

/-! ## The path back -/

/-- Each hop of a shortest path comes from the preferred neighbour of where it leads to. -/
theorem preferred_of_path? (hcharged : graph.Charged) {path : Path}
    (hpath : (graph.shortestPaths source).path? target = some path) :
    ∀ hop ∈ path.hops, graph.Preferred source hop.2 hop.1 := by
  refine (path?_isSimplePath hpath).toIsWalk.rec_last
    (motive := fun last path => (graph.shortestPaths source).path? last = some path →
      ∀ hop ∈ path.hops, graph.Preferred source hop.2 hop.1) ?_ ?_ hpath
  · intro _ hop hmem
    simp [Path.single, Path.hops] at hmem
  · intro last next switches hwalk _ ih hnext
    rcases eq_or_ne next source with rfl | hother
    · -- The path to the source stays there, so nothing comes before its last switch.
      rw [path?_self] at hnext
      have hnil : switches = [] := by simpa [Path.single] using hnext
      simpa [hnil, Path.source?] using hwalk.starts
    · obtain ⟨front, previous, hfront, hprevious, hpreferred⟩ :=
        exists_preferred hcharged hother hnext
      obtain rfl : switches = front := List.append_cancel_right (Path.mk.inj hfront)
      obtain rfl : last = previous :=
        Option.some.inj (hwalk.ends.symm.trans (path?_isSimplePath hprevious).ends)
      rw [Path.hops_concat hwalk.ends]
      intro hop hmem
      rcases List.mem_append.mp hmem with hold | hlast
      · exact ih hprevious hop hold
      · rw [List.mem_singleton.mp hlast]
        exact hpreferred

/-- A walk that always comes from the preferred neighbour is the shortest path. -/
theorem path?_of_preferred (hcharged : graph.Charged) {path : Path}
    (hwalk : graph.IsWalk source target path)
    (hpreferred : ∀ hop ∈ path.hops, graph.Preferred source hop.2 hop.1) :
    (graph.shortestPaths source).path? target = some path := by
  refine hwalk.rec_last
    (motive := fun last path => (∀ hop ∈ path.hops, graph.Preferred source hop.2 hop.1) →
      (graph.shortestPaths source).path? last = some path) ?_ ?_ hpreferred
  · intro _
    exact path?_self graph source
  · intro last next switches hwalk _ ih hhops
    rw [Path.hops_concat hwalk.ends] at hhops
    have hfront := ih fun hop hmem => hhops hop (List.mem_append_left _ hmem)
    have hlast : graph.Preferred source next last := hhops (last, next) (by simp)
    have hreached : ((graph.shortestPaths source).distance? next).isSome = true := by
      obtain ⟨_, ⟨_, _, _, hdistance⟩, _⟩ := hlast
      rw [hdistance]
      rfl
    obtain ⟨path, hpath⟩ := Option.isSome_iff_exists.mp (path?_isSome_iff.mpr hreached)
    obtain ⟨before, previous, rfl, hbefore, hprevious⟩ :=
      exists_preferred hcharged (hlast.ne_source hcharged) hpath
    obtain rfl := hprevious.unique hlast
    obtain rfl : before = switches := Path.mk.inj (Option.some.inj (hbefore.symm.trans hfront))
    exact hpath

/-! ## The whole -/

/-- Where no edge is free, the switch before a reached one is its preferred neighbour; and the
shortest path to a switch is the one path from the source to it on which every switch comes after
its preferred neighbour. -/
theorem path?_prefers (hcharged : graph.Charged) (source target : SwitchId) :
    (target ≠ source → ((graph.shortestPaths source).distance? target).isSome = true →
      ∃ path previous, (graph.shortestPaths source).path? target = some path ∧
        path.lastHop? = some (previous, target) ∧ graph.Preferred source target previous) ∧
    ∀ path, (graph.shortestPaths source).path? target = some path ↔
      path.source? = some source ∧ path.destination? = some target ∧
        ∀ hop ∈ path.hops, graph.Preferred source hop.2 hop.1 := by
  refine ⟨?_, fun path => ⟨?_, ?_⟩⟩
  · intro hother hreached
    obtain ⟨path, hpath⟩ := Option.isSome_iff_exists.mp (path?_isSome_iff.mpr hreached)
    obtain ⟨front, previous, rfl, hprevious, hpreferred⟩ :=
      exists_preferred hcharged hother hpath
    refine ⟨_, previous, hpath, ?_, hpreferred⟩
    rw [Path.lastHop?, Path.hops_concat (path?_isSimplePath hprevious).ends]
    exact List.getLast?_concat
  · intro hpath
    have hsimple := path?_isSimplePath hpath
    exact ⟨hsimple.starts, hsimple.ends, preferred_of_path? hcharged hpath⟩
  · rintro ⟨hstarts, hends, hhops⟩
    exact path?_of_preferred hcharged
      ⟨hstarts, hends, fun hop hmem => (hhops hop hmem).adjacent⟩ hhops

/-- The links of a report in which shortest ways tie. -/
def braidLinks : List Link :=
  [Snapshot.strand 4 1 9 5, Snapshot.strand 4 2 9 0, Snapshot.strand 4 3 7 1,
    Snapshot.strand 4 4 6 1, Snapshot.strand 4 5 1 2, Snapshot.strand 1 1 9 1,
    Snapshot.strand 7 1 9 2, Snapshot.strand 6 1 9 2]

/-- From the fourth switch three equally short ways lead to the ninth: past the seventh, past the
sixth, and past the first, which is farther away.  A direct link is heavier, and that it was
reported again without a weight does not count. -/
def braid : Graph where
  switches := [⟨1⟩, ⟨4⟩, ⟨6⟩, ⟨7⟩, ⟨9⟩]
  links := braidLinks
  edges := firstReports braidLinks
  edges_eq := rfl
  closed := by decide

theorem path?_prefers_braid :
    braid.Charged ∧ braid.ComesFrom ⟨4⟩ ⟨9⟩ ⟨7⟩ 1 ∧ braid.ComesFrom ⟨4⟩ ⟨9⟩ ⟨1⟩ 2 ∧
    ((braid.shortestPaths ⟨4⟩).distance? ⟨9⟩).isSome = true ∧ braid.Preferred ⟨4⟩ ⟨9⟩ ⟨6⟩ ∧
    (braid.shortestPaths ⟨4⟩).path? ⟨9⟩ = some ⟨[⟨4⟩, ⟨6⟩, ⟨9⟩]⟩ ∧ braid.Preferred ⟨4⟩ ⟨6⟩ ⟨4⟩ := by
  have hcharged : braid.Charged := by decide
  have hreached : ((braid.shortestPaths ⟨4⟩).distance? ⟨9⟩).isSome = true := by decide
  obtain ⟨hlast, hpaths⟩ := path?_prefers hcharged ⟨4⟩ ⟨9⟩
  obtain ⟨path, previous, hpath, hhop, hpreferred⟩ := hlast (by decide) hreached
  obtain rfl : path = ⟨[⟨4⟩, ⟨6⟩, ⟨9⟩]⟩ := Option.some.inj (hpath.symm.trans (by decide))
  obtain rfl : previous = ⟨6⟩ := congrArg Prod.fst (Option.some.inj hhop).symm
  obtain ⟨_, _, hhops⟩ := (hpaths _).mp hpath
  exact ⟨hcharged, ⟨by decide, 2, rfl, by decide⟩, ⟨by decide, 1, rfl, by decide⟩, hreached,
    hpreferred, hpath, hhops (⟨4⟩, ⟨6⟩) (by decide)⟩

end TrafficSteering.Graph
