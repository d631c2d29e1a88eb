import Mathlib.Algebra.Order.BigOperators.Group.List
import Mathlib.Algebra.Order.Group.Nat
import TrafficSteering.Proofs.Graph.Search.Words
import TrafficSteering.Proofs.Graph.ShortestPath
import TrafficSteering.Proofs.Graph.SimplePaths
set_option autoImplicit false

/-!
# Distances fit into machine words

The distance of a waiting switch is the weight of a simple path, and a simple path has fewer hops
than the graph has switches.  So with at most 2^32 switches, no distance to which the weight of one
more edge is added exceeds a word of 64 bits, and the search on words is the search on natural
numbers (`run_exact`).
-/

namespace TrafficSteering.Graph

variable {graph : Graph} {source src dst : SwitchId}

/-! ## Weights of simple paths -/

theorem hopWeight_le (graph : Graph) (src dst : SwitchId) :
    graph.hopWeight src dst ≤ 2 ^ 32 - 1 := by
  unfold hopWeight
  split
  · rename_i link _
    exact Nat.le_pred_of_lt link.weight.toNat_lt
  · exact Nat.zero_le _

theorem pathWeight_le (graph : Graph) (path : Path) :
    graph.pathWeight path ≤ (path.switches.length - 1) * (2 ^ 32 - 1) := by
  have hhops : (path.hops.map fun hop => graph.hopWeight hop.1 hop.2).length =
      path.switches.length - 1 := by
    simp [Path.hops]
  rw [pathWeight, ← hhops, ← Nat.nsmul_eq_mul]
  apply List.sum_le_card_nsmul
  intro weight hweight
  obtain ⟨hop, -, rfl⟩ := List.mem_map.mp hweight
  exact hopWeight_le graph hop.1 hop.2

/-- A simple path from a switch of the graph has fewer hops than there are switches. -/
theorem IsSimplePath.weight_le {path : Path} (h : graph.IsSimplePath src dst path)
    (hsrc : graph.contains src = true) :
    graph.pathWeight path ≤ (graph.switchCount - 1) * (2 ^ 32 - 1) := by
  have hlength : path.switches.length ≤ graph.switchCount :=
    (List.subperm_of_subset h.distinct (h.toIsWalk.subset_switches hsrc)).length_le
  calc graph.pathWeight path ≤ (path.switches.length - 1) * (2 ^ 32 - 1) := pathWeight_le graph path
    _ ≤ (graph.switchCount - 1) * (2 ^ 32 - 1) :=
      Nat.mul_le_mul_right _ (Nat.sub_le_sub_right hlength 1)

/-! ## Sums -/

/-- What is added up along an edge of a waiting switch does not exceed a word. -/
theorem Search.Invariant.sum_lt {search : Search} (h : Invariant graph source search)
    (hcount : graph.switchCount ≤ 2 ^ 32) {node : Label} (hnode : node ∈ search.waiting)
    {edge : Link} (hedge : edge ∈ graph.edgesFrom node.switch) :
    node.distance + edge.weight.toNat < 2 ^ 64 := by
  have htraced := (h.derived node hnode).traced h.tree.traced (h.fresh node hnode)
  have hjoined : graph.Adjacent node.switch edge.dst :=
    exists_edge_iff.mp ⟨edge, mem_edgesFrom_iff.mp hedge⟩
  -- A source outside the graph has no edges, so the search would have ended with it.
  have hsource : graph.contains source = true := by
    by_cases hsame : source = node.switch
    · rw [hsame]
      exact hjoined.contains.1
    · exact htraced.simple.toIsWalk.contains_source hsame
  have hdistance := htraced.simple.weight_le hsource
  rw [htraced.weight] at hdistance
  have hweight : edge.weight.toNat < 2 ^ 32 := edge.weight.toNat_lt
  calc node.distance + edge.weight.toNat
      ≤ (graph.switchCount - 1) * (2 ^ 32 - 1) + (2 ^ 32 - 1) := by omega
    _ ≤ (2 ^ 32 - 1) * (2 ^ 32 - 1) + (2 ^ 32 - 1) := by
      apply Nat.add_le_add_right
      apply Nat.mul_le_mul_right
      exact Nat.sub_le_sub_right hcount 1
    _ < 2 ^ 64 := by decide

/-! ## The run -/

namespace WordSearch

/-- Both searches settle the same switches in the same order. -/
theorem Agrees.run {words : WordSearch} {search : Search} (h : words.Agrees search)
    (hsearch : Search.Invariant graph source search) (hcount : graph.switchCount ≤ 2 ^ 32)
    (steps : Nat) : (words.run graph steps).Agrees (search.run graph steps) := by
  induction steps generalizing words search with
  | zero => exact h
  | succ steps ih =>
    have hsame : words.waiting.map WordLabel.exact = search.waiting :=
      congrArg Search.waiting h.same
    cases hwaiting : words.waiting with
    | nil =>
      rw [hwaiting, List.map_nil] at hsame
      rw [Search.run_of_nil hsame.symm, WordSearch.run, hwaiting]
      exact h
    | cons label others =>
      rw [hwaiting, List.map_cons] at hsame
      rw [Search.run_of_cons hsame.symm, WordSearch.run, hwaiting, ← WordLabel.exact_first]
      have hafter := hsearch.nearest hsame.symm
      rw [← WordLabel.exact_first] at hafter
      refine ih (h.settle fun edge hedge => ?_) hafter
      have hmem : (label.first others).exact ∈ search.waiting := by
        rw [WordLabel.exact_first, ← hsame]
        exact Label.first_mem _ _
      exact hsearch.sum_lt hcount hmem hedge

/-- In a graph of at most 2^32 switches, whatever the weights and wherever the search starts, no
addition of the search exceeds 64 bits after any number of steps, and every state of the search on
words is that of the search on natural numbers.  So both end after as many steps as there are edges,
and one, with the same distances. -/
theorem run_exact (graph : Graph) (source : SwitchId) (hcount : graph.switchCount ≤ 2 ^ 32) :
    (∀ steps, (∀ addition ∈ ((start source).run graph steps).additions,
        addition.distance.toNat + addition.weight.toNat < 2 ^ 64) ∧
      ((start source).run graph steps).exact = (Search.start source).run graph steps) ∧
    ((start source).run graph (graph.edges.length + 1)).waiting = [] ∧
    ∀ target, (labelOf? ((start source).run graph (graph.edges.length + 1)).settled target).map
        (fun label => label.distance.toNat) = (graph.shortestPaths source).distance? target := by
  have hagrees : ∀ steps,
      ((start source).run graph steps).Agrees ((Search.start source).run graph steps) :=
    (agrees_start source).run (Search.start_invariant graph source) hcount
  have hend := (hagrees (graph.edges.length + 1)).same
  refine ⟨fun steps => ⟨(hagrees steps).fits, (hagrees steps).same⟩, ?_, ?_⟩
  · have hwaiting := search_waiting_nil graph source
    rw [← hend] at hwaiting
    exact List.map_eq_nil_iff.mp hwaiting
  · intro target
    unfold ShortestPaths.distance? ShortestPaths.label? shortestPaths
    rw [← hend, exact, labelOf?_exact, Option.map_map]
    rfl

/-- The weight of a link that costs as much as a link can. -/
def heaviest : UInt32 := 0xffffffff

/-- A graph of heaviest links, with a detour to the third switch that is discarded. -/
def laden : Graph where
  switches := [⟨1⟩, ⟨2⟩, ⟨3⟩, ⟨4⟩]
  links := [Snapshot.strand 1 1 2 heaviest, Snapshot.strand 1 2 3 heaviest,
    Snapshot.strand 2 1 3 heaviest, Snapshot.strand 3 1 4 heaviest]
  edges := [Snapshot.strand 1 1 2 heaviest, Snapshot.strand 1 2 3 heaviest,
    Snapshot.strand 2 1 3 heaviest, Snapshot.strand 3 1 4 heaviest]
  edges_eq := rfl
  closed := by decide

theorem run_exact_laden :
    laden.switchCount ≤ 2 ^ 32 ∧
    (⟨0xffffffff, heaviest⟩ : Addition) ∈ ((start ⟨1⟩).run laden 2).additions ∧
    0xffffffff + heaviest.toNat < 2 ^ 64 ∧
    ((start ⟨1⟩).run laden 2).exact = (Search.start ⟨1⟩).run laden 2 ∧
    (laden.shortestPaths ⟨1⟩).distance? ⟨4⟩ = some 0x1fffffffe := by
  have hcount : laden.switchCount ≤ 2 ^ 32 := by decide
  have hdetour : (⟨0xffffffff, heaviest⟩ : Addition) ∈ ((start ⟨1⟩).run laden 2).additions := by
    decide
  obtain ⟨hsteps, _, hdistances⟩ := run_exact laden ⟨1⟩ hcount
  obtain ⟨hfits, hsame⟩ := hsteps 2
  exact ⟨hcount, hdetour, hfits _ hdetour, hsame, (hdistances ⟨4⟩).symm.trans (by decide)⟩

end WordSearch

end TrafficSteering.Graph
