import TrafficSteering.Proofs.Graph.Assembly
import TrafficSteering.Proofs.Graph.Search.Invariant
import TrafficSteering.Proofs.Graph.Search.Lookup
set_option autoImplicit false

/-!
# Rearranged reports

The order in which links are discovered decides which of several links between two switches counts,
and in which order neighbours are listed.  Shortest paths depend on the first alone: two reports
with the same weight for every ordered pair of switches have the same shortest paths, since the
searches on their graphs settle the same labels step by step.
-/

namespace TrafficSteering

/-- The weight of the link reported first from one switch to another. -/
def firstWeight? (links : List Link) (src dst : SwitchId) : Option UInt32 :=
  (links.find? fun link => link.joins src dst).map Link.weight

/-- Both report links for the same ordered pairs, and the first link of a pair has the same weight
in both. -/
def SameWeights (links others : List Link) : Prop :=
  ∀ src dst, firstWeight? links src dst = firstWeight? others src dst

theorem firstWeight?_eq_none_iff {links : List Link} {src dst : SwitchId} :
    firstWeight? links src dst = none ↔ Unreported links src dst := by
  rw [firstWeight?, Option.map_eq_none_iff, find?_joins_eq_none_iff]

/-- It suffices to compare the pairs that are reported. -/
theorem sameWeights_iff {links others : List Link} :
    SameWeights links others ↔ ∀ link ∈ links ++ others,
      firstWeight? links link.src link.dst = firstWeight? others link.src link.dst := by
  constructor
  · intro h link _
    exact h link.src link.dst
  · intro h src dst
    by_cases hreported : ∃ link ∈ links ++ others, link.pair = (src, dst)
    · obtain ⟨link, hmem, hpair⟩ := hreported
      obtain ⟨rfl, rfl⟩ := Prod.mk.inj hpair
      exact h link hmem
    · have hnone : Unreported (links ++ others) src dst :=
        fun link hmem hpair => hreported ⟨link, hmem, hpair⟩
      rw [firstWeight?_eq_none_iff.mpr fun link hmem => hnone link (List.mem_append_left _ hmem),
        firstWeight?_eq_none_iff.mpr fun link hmem => hnone link (List.mem_append_right _ hmem)]

instance (links others : List Link) : Decidable (SameWeights links others) :=
  decidable_of_iff _ sameWeights_iff.symm

namespace Graph

variable {graph other : Graph} {source : SwitchId}

/-! ## Graphs with the same weights -/

theorem edge?_map_weight (graph : Graph) (src dst : SwitchId) :
    (graph.edge? src dst).map Link.weight = firstWeight? graph.links src dst := by
  rw [edge?_eq_reported?]
  rfl

theorem mem_pairs_iff {pair : SwitchId × SwitchId} :
    pair ∈ graph.edges.map Link.pair ↔ firstWeight? graph.links pair.1 pair.2 ≠ none := by
  rw [← edge?_map_weight, ne_eq, Option.map_eq_none_iff, ← ne_eq, Option.ne_none_iff_exists']
  constructor
  · intro hmem
    obtain ⟨edge, hedge, rfl⟩ := List.mem_map.mp hmem
    exact ⟨edge, edge?_of_mem hedge⟩
  · rintro ⟨edge, hedge⟩
    exact List.mem_map.mpr ⟨edge, List.mem_of_find?_eq_some hedge, Prod.ext (joins_of_edge? hedge).1
      (joins_of_edge? hedge).2⟩

/-- Graphs with the same weights have the same number of edges. -/
theorem edges_length_eq (h : SameWeights graph.links other.links) :
    graph.edges.length = other.edges.length := by
  have hperm : (graph.edges.map Link.pair).Perm (other.edges.map Link.pair) := by
    rw [List.perm_ext_iff_of_nodup edges_pairs_nodup edges_pairs_nodup]
    intro pair
    rw [mem_pairs_iff, mem_pairs_iff, h]
  simpa using hperm.length_eq

/-- What a settled switch offers to another one is the same in both graphs. -/
theorem map_extend_eq (h : SameWeights graph.links other.links) (node : Label)
    (switch : SwitchId) :
    (graph.edge? node.switch switch).map node.extend =
      (other.edge? node.switch switch).map node.extend := by
  have hweight := h node.switch switch
  rw [← edge?_map_weight, ← edge?_map_weight] at hweight
  cases hedge : graph.edge? node.switch switch with
  | none =>
    rw [hedge] at hweight
    rw [Option.map_eq_none_iff.mp hweight.symm]
  | some edge =>
    rw [hedge] at hweight
    obtain ⟨rival, hrival, hsame⟩ := Option.map_eq_some_iff.mp hweight.symm
    have hdst : edge.dst = rival.dst :=
      (joins_of_edge? hedge).2.trans (joins_of_edge? hrival).2.symm
    rw [hrival]
    simp [Label.extend, hdst, hsame]

namespace Search

/-! ## Searches that go alike -/

/-- The same labels have been settled in the same order, and the same labels wait in some order. -/
structure Alike (a b : Search) : Prop where
  settled : a.settled = b.settled
  waiting : ∀ switch, labelOf? a.waiting switch = labelOf? b.waiting switch

variable {a b : Search}

theorem Alike.symm (h : Alike a b) : Alike b a :=
  ⟨h.settled.symm, fun switch => (h.waiting switch).symm⟩

theorem Alike.mem_waiting (h : Alike a b) (ha : Invariant graph source a) {label : Label}
    (hmem : label ∈ a.waiting) : label ∈ b.waiting := by
  have hfound := labelOf?_eq_some ha.distinct hmem
  rw [h.waiting] at hfound
  exact (of_labelOf? hfound).1

theorem labelOf?_of_settled {search : Search} (h : Invariant graph source search)
    {switch : SwitchId} (hsettled : switch ∈ switchesOf search.settled) :
    labelOf? search.waiting switch = none := by
  rw [Option.eq_none_iff_forall_ne_some]
  intro label hfound
  obtain ⟨hmem, rfl⟩ := of_labelOf? hfound
  exact h.fresh label hmem hsettled

/-- The first of the waiting labels does not depend on their order. -/
theorem Alike.first_eq (h : Alike a b) (ha : Invariant graph source a)
    (hb : Invariant other source b) {label rival : Label} {others rivals : List Label}
    (hwaiting : a.waiting = label :: others) (hrivals : b.waiting = rival :: rivals) :
    label.first others = rival.first rivals := by
  have hmem : label.first others ∈ a.waiting := hwaiting ▸ Label.first_mem label others
  have hmemRival : rival.first rivals ∈ b.waiting := hrivals ▸ Label.first_mem rival rivals
  have hleast := Label.not_before_first label others (rival.first rivals)
    (hwaiting ▸ h.symm.mem_waiting hb hmemRival)
  have hleastRival := Label.not_before_first rival rivals (label.first others)
    (hrivals ▸ h.mem_waiting ha hmem)
  apply label_unique ha.distinct hmem (h.symm.mem_waiting hb hmemRival)
  by_contra hne
  exact hleastRival (Label.before_of_not_before hne hleast)

/-- Settling the same switch on two graphs with the same weights. -/
theorem Alike.settle (hweights : SameWeights graph.links other.links) (h : Alike a b)
    {node : Label} (ha : Invariant graph source a) (hb : Invariant other source b)
    (hafter : Invariant graph source (a.settle graph node))
    (hafterOther : Invariant other source (b.settle other node)) :
    Alike (a.settle graph node) (b.settle other node) := by
  have hsettled := settle_settled graph node ha.distinct
  have hsettledOther := settle_settled other node hb.distinct
  refine ⟨by rw [hsettled, hsettledOther, h.settled], ?_⟩
  intro switch
  by_cases hdone : switch ∈ switchesOf (node :: a.settled)
  · rw [labelOf?_of_settled hafter (by rwa [hsettled]),
      labelOf?_of_settled hafterOther (by rwa [hsettledOther, ← h.settled])]
  · rw [labelOf?_settle graph hdone, labelOf?_settle other (by rwa [← h.settled]), h.waiting,
      map_extend_eq hweights]

theorem Alike.run (hweights : SameWeights graph.links other.links) (h : Alike a b)
    (ha : Invariant graph source a) (hb : Invariant other source b) (steps : Nat) :
    Alike (a.run graph steps) (b.run other steps) := by
  induction steps generalizing a b with
  | zero => exact h
  | succ steps ih =>
    cases hwaiting : a.waiting with
    | nil =>
      have hnil : b.waiting = [] := by
        rw [List.eq_nil_iff_forall_not_mem]
        intro label hmem
        simpa [hwaiting] using h.symm.mem_waiting hb hmem
      rwa [run_of_nil hwaiting, run_of_nil hnil]
    | cons label others =>
      obtain ⟨rival, rivals, hrivals⟩ : ∃ rival rivals, b.waiting = rival :: rivals := by
        apply List.exists_cons_of_ne_nil
        exact List.ne_nil_of_mem (h.mem_waiting ha (hwaiting ▸ List.mem_cons_self))
      have hafter := ha.nearest hwaiting
      have hafterOther := hb.nearest hrivals
      rw [run_of_cons hwaiting, run_of_cons hrivals]
      rw [← h.first_eq ha hb hwaiting hrivals] at hafterOther ⊢
      exact ih (h.settle hweights ha hb hafter hafterOther) hafter hafterOther

end Search

/-! ## The whole -/

theorem shortestPaths_eq (h : SameWeights graph.links other.links) (source : SwitchId) :
    graph.shortestPaths source = other.shortestPaths source := by
  have halike : Search.Alike (Search.start source) (Search.start source) := ⟨rfl, fun _ => rfl⟩
  have hrun := halike.run h (Search.start_invariant graph source)
    (Search.start_invariant other source) (graph.edges.length + 1)
  unfold shortestPaths
  rw [hrun.settled, edges_length_eq h]

/-- Two reports with the same weight for every ordered pair of switches make graphs with the same
distances and the same shortest paths, however their links and switches are arranged. -/
theorem shortestPaths_rearranged {switches others : List SwitchId} {links rearranged : List Link}
    (hgraph : build switches links = .ok graph) (hother : build others rearranged = .ok other)
    (hweights : SameWeights links rearranged) (source target : SwitchId) :
    (graph.shortestPaths source).distance? target =
        (other.shortestPaths source).distance? target ∧
      (graph.shortestPaths source).path? target = (other.shortestPaths source).path? target := by
  rw [← (build_eq_ok hgraph).2, ← (build_eq_ok hother).2] at hweights
  rw [shortestPaths_eq hweights]
  exact ⟨rfl, rfl⟩

/-- The tangled report with its links in another order, by other ports and with other repetitions,
and with its switches in another order and repeated. -/
def retangledReport : Snapshot where
  switches := [⟨5⟩, ⟨4⟩, ⟨4⟩, ⟨2⟩, ⟨1⟩, ⟨3⟩, ⟨2⟩]
  links := [Snapshot.strand 4 8 1 1, Snapshot.strand 2 1 4 2, Snapshot.strand 2 7 4 0,
    Snapshot.strand 3 2 4 2, Snapshot.strand 1 2 4 5, Snapshot.strand 3 4 2 0,
    Snapshot.strand 3 1 2 7, Snapshot.strand 1 6 2 1, Snapshot.strand 2 3 3 0,
    Snapshot.strand 2 2 2 0]

/-- The graph of that report. -/
def retangled : Graph where
  switches := [⟨5⟩, ⟨4⟩, ⟨2⟩, ⟨1⟩, ⟨3⟩]
  links := retangledReport.links
  edges := firstReports retangledReport.links
  edges_eq := rfl
  closed := by decide

theorem shortestPaths_rearranged_tangle :
    ofSnapshot Snapshot.tangle = .ok tangle ∧ ofSnapshot retangledReport = .ok retangled ∧
    SameWeights Snapshot.tangle.links retangledReport.links ∧
    tangle.neighbors ⟨1⟩ ≠ retangled.neighbors ⟨1⟩ ∧
    (retangled.shortestPaths ⟨1⟩).distance? ⟨4⟩ = some 3 ∧
    (retangled.shortestPaths ⟨1⟩).path? ⟨4⟩ = some ⟨[⟨1⟩, ⟨2⟩, ⟨4⟩]⟩ := by
  have htangle : ofSnapshot Snapshot.tangle = .ok tangle := rfl
  have hretangled : ofSnapshot retangledReport = .ok retangled := rfl
  have hweights : SameWeights Snapshot.tangle.links retangledReport.links := by decide
  obtain ⟨hdistance, hpath⟩ := shortestPaths_rearranged htangle hretangled hweights ⟨1⟩ ⟨4⟩
  exact ⟨htangle, hretangled, hweights, by decide, hdistance.symm.trans (by decide),
    hpath.symm.trans (by decide)⟩

end Graph

end TrafficSteering
