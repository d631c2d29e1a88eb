import Mathlib.Data.List.Nodup
import TrafficSteering.Graph
import TrafficSteering.Proofs.Except
set_option autoImplicit false

/-!
# Edges and neighbours

A graph keeps one edge for each ordered pair of switches that a reported link joins, namely the
first link reported for the pair.  What is listed by switch (`edgesFrom`, `neighbors`) and what is
found by pair (`edge?`, `weight`) therefore agree: each is the other, read differently.
-/

namespace TrafficSteering

/-! ## First reports -/

/-- Whether a link leads from one switch to another. -/
def Link.joins (link : Link) (src dst : SwitchId) : Bool := link.src == src && link.dst == dst

theorem Link.joins_iff {link : Link} {src dst : SwitchId} :
    link.joins src dst = true ↔ link.src = src ∧ link.dst = dst := by
  simp [Link.joins]

/-- The ordered pair of switches that a link joins. -/
def Link.pair (link : Link) : SwitchId × SwitchId := (link.src, link.dst)

theorem Link.parallel_iff {a b : Link} : a.parallel b = true ↔ a.pair = b.pair := by
  simp [Link.parallel, Link.pair]

/-- No ordered pair is reported first twice. -/
theorem firstReports_pairs_nodup (links : List Link) :
    ((firstReports links).map Link.pair).Nodup := by
  induction links with
  | nil => exact List.nodup_nil
  | cons link rest ih =>
    rw [firstReports, List.map_cons, List.nodup_cons]
    refine ⟨?_, ih.sublist (List.filter_sublist.map _)⟩
    intro hmem
    obtain ⟨other, hother, hpair⟩ := List.mem_map.mp hmem
    have hkept := (List.mem_filter.mp hother).2
    simp [Link.parallel_iff.mpr hpair] at hkept

/-- Leaving out later reports of a pair does not change which link is found for a pair. -/
theorem find?_firstReports (links : List Link) (src dst : SwitchId) :
    (firstReports links).find? (fun link => link.joins src dst) =
      links.find? fun link => link.joins src dst := by
  induction links with
  | nil => rfl
  | cons link rest ih =>
    rw [firstReports, List.find?_cons, List.find?_cons]
    cases hjoins : link.joins src dst with
    | true => rfl
    | false =>
      -- A link that joins the pair is not parallel to one that does not, so the filter keeps it.
      have hkept : ∀ other : Link,
          decide ((!other.parallel link) = true ∧ other.joins src dst = true) =
            other.joins src dst := by
        intro other
        rw [Bool.eq_iff_iff, decide_eq_true_iff, and_iff_right_of_imp]
        intro hother
        rw [Bool.not_eq_true', Bool.eq_false_iff]
        intro hparallel
        have hpair : link.pair = (src, dst) := by
          rw [← Link.parallel_iff.mp hparallel, Link.pair, (Link.joins_iff.mp hother).1,
            (Link.joins_iff.mp hother).2]
        have hfirst : link.joins src dst = true :=
          Link.joins_iff.mpr (Prod.mk.inj hpair)
        rw [hjoins] at hfirst
        exact Bool.noConfusion hfirst
      simp only [List.find?_filter, hkept]
      exact ih

namespace Graph

variable (graph : Graph)

/-! ## The edge of a pair -/

/-- The first link reported from one switch to another. -/
def reported? (src dst : SwitchId) : Option Link :=
  graph.links.find? fun link => link.joins src dst

/-- Some link was reported from one switch to another. -/
def Adjacent (src dst : SwitchId) : Prop :=
  ∃ link ∈ graph.links, link.src = src ∧ link.dst = dst

theorem edge?_eq_reported? (src dst : SwitchId) :
    graph.edge? src dst = graph.reported? src dst := by
  rw [edge?, graph.edges_eq]
  exact find?_firstReports graph.links src dst

variable {graph}

/-- An edge that is found for a pair leads from its first switch to its second. -/
theorem joins_of_edge? {src dst : SwitchId} {edge : Link} (h : graph.edge? src dst = some edge) :
    edge.src = src ∧ edge.dst = dst := by
  have hjoins := List.find?_some h
  exact Link.joins_iff.mp hjoins

theorem edges_pairs_nodup : (graph.edges.map Link.pair).Nodup := by
  rw [graph.edges_eq]
  exact firstReports_pairs_nodup graph.links

/-- Two edges of one pair are the same edge. -/
theorem edge_unique {a b : Link} (ha : a ∈ graph.edges) (hb : b ∈ graph.edges)
    (hpair : a.pair = b.pair) : a = b :=
  List.inj_on_of_nodup_map edges_pairs_nodup ha hb hpair

/-- Every edge is the one that is found for its own pair. -/
theorem edge?_of_mem {edge : Link} (hmem : edge ∈ graph.edges) :
    graph.edge? edge.src edge.dst = some edge := by
  cases hfound : graph.edge? edge.src edge.dst with
  | none =>
    rw [edge?, List.find?_eq_none] at hfound
    exact absurd (by simp) (hfound edge hmem)
  | some other =>
    have hpair : other.pair = edge.pair := by
      rw [Link.pair, (joins_of_edge? hfound).1, (joins_of_edge? hfound).2, Link.pair]
    rw [edge_unique (List.mem_of_find?_eq_some hfound) hmem hpair]

/-- The edges that leave a switch are exactly those found for it and their other end. -/
theorem mem_edgesFrom_iff {src : SwitchId} {edge : Link} :
    edge ∈ graph.edgesFrom src ↔ graph.edge? src edge.dst = some edge := by
  constructor
  · intro h
    obtain ⟨hmem, hsrc⟩ := List.mem_filter.mp h
    have hfound := edge?_of_mem hmem
    rwa [show edge.src = src by simpa using hsrc] at hfound
  · intro h
    have hmem : edge ∈ graph.edges := List.mem_of_find?_eq_some h
    exact List.mem_filter.mpr ⟨hmem, by simpa using (joins_of_edge? h).1⟩

theorem exists_edge_iff {src dst : SwitchId} :
    (∃ edge, graph.edge? src dst = some edge) ↔ graph.Adjacent src dst := by
  constructor
  · rintro ⟨edge, h⟩
    refine ⟨edge, ?_, joins_of_edge? h⟩
    rw [edge?_eq_reported?] at h
    exact List.mem_of_find?_eq_some h
  · rintro ⟨link, hmem, hends⟩
    cases hfound : graph.edge? src dst with
    | some edge => exact ⟨edge, rfl⟩
    | none =>
      rw [edge?_eq_reported?, reported?, List.find?_eq_none] at hfound
      exact absurd (Link.joins_iff.mpr hends) (hfound link hmem)

/-! ## Neighbours -/

theorem mem_neighbors_iff {src dst : SwitchId} :
    dst ∈ graph.neighbors src ↔ graph.Adjacent src dst := by
  rw [← exists_edge_iff, neighbors, List.mem_map]
  constructor
  · rintro ⟨edge, hmem, rfl⟩
    exact ⟨edge, mem_edgesFrom_iff.mp hmem⟩
  · rintro ⟨edge, h⟩
    obtain ⟨_, rfl⟩ := joins_of_edge? h
    exact ⟨edge, mem_edgesFrom_iff.mpr h, rfl⟩

/-- No switch is listed twice among the neighbours of another. -/
theorem neighbors_nodup (src : SwitchId) : (graph.neighbors src).Nodup := by
  have hdistinct : (graph.edges.map Link.pair).Nodup := edges_pairs_nodup
  apply (hdistinct.of_map.filter _).map_on
  intro a ha b hb hdst
  obtain ⟨hma, hsa⟩ := List.mem_filter.mp ha
  obtain ⟨hmb, hsb⟩ := List.mem_filter.mp hb
  have hsrc : a.src = b.src := by
    rw [show a.src = src by simpa using hsa, show b.src = src by simpa using hsb]
  exact edge_unique hma hmb (by rw [Link.pair, Link.pair, hsrc, hdst])

/-! ## Membership -/

theorem contains_iff {switch : SwitchId} :
    graph.contains switch = true ↔ switch ∈ graph.switches := by
  simp [contains]

/-- Both ends of an edge are switches of the graph. -/
theorem Adjacent.contains {src dst : SwitchId} (h : graph.Adjacent src dst) :
    graph.contains src = true ∧ graph.contains dst = true := by
  obtain ⟨link, hmem, rfl, rfl⟩ := h
  have hends : link.src ∈ linkEnds graph.links ∧ link.dst ∈ linkEnds graph.links := by
    constructor
    all_goals exact List.mem_flatMap.mpr ⟨link, hmem, by simp⟩
  exact ⟨contains_iff.mpr (graph.closed _ hends.1), contains_iff.mpr (graph.closed _ hends.2)⟩

/-! ## Looking up by pair -/

section

variable {src dst : SwitchId} {fault : Fault}

theorem edge_eq_ok_iff {edge : Link} :
    graph.edge src dst = .ok edge ↔ graph.edge? src dst = some edge := by
  unfold Graph.edge
  cases graph.edge? src dst <;> simp

theorem edge_eq_error_iff :
    graph.edge src dst = .error fault ↔
      graph.edge? src dst = none ∧ fault = .missingEdge src dst := by
  unfold Graph.edge
  cases graph.edge? src dst <;> simp [eq_comm]

theorem weight_eq_ok_iff {weight : UInt32} :
    graph.weight src dst = .ok weight ↔
      ∃ edge, graph.edge? src dst = some edge ∧ edge.weight = weight := by
  simp only [Graph.weight, map_eq_ok_iff, edge_eq_ok_iff]

theorem weight_eq_error_iff :
    graph.weight src dst = .error fault ↔
      graph.edge? src dst = none ∧ fault = .missingEdge src dst := by
  rw [Graph.weight, map_eq_error_iff, edge_eq_error_iff]

theorem egressPort_eq_ok_iff {port : PortNo} :
    graph.egressPort src dst = .ok port ↔
      ∃ edge, graph.edge? src dst = some edge ∧ edge.port = port := by
  simp only [Graph.egressPort, map_eq_ok_iff, edge_eq_ok_iff]

theorem egressPort_eq_error_iff :
    graph.egressPort src dst = .error fault ↔
      graph.edge? src dst = none ∧ fault = .missingEdge src dst := by
  rw [Graph.egressPort, map_eq_error_iff, edge_eq_error_iff]

/-- The weight of a followed edge can always be looked up. -/
theorem weight_eq_ok {edge : Link} (h : graph.edge? src dst = some edge) :
    graph.weight src dst = .ok edge.weight :=
  weight_eq_ok_iff.mpr ⟨edge, h, rfl⟩

end

end Graph

end TrafficSteering
