import Mathlib.Algebra.GroupWithZero.Nat
import Mathlib.Data.List.Induction
import Mathlib.Logic.Relation
import TrafficSteering.Proofs.Graph.Edges
set_option autoImplicit false

/-!
# Walks

A walk follows edges from switch to switch and may come back to where it has been.  A simple path is
a walk that does not.  The weight of either is the sum of the weights of its hops, where each hop
has the weight of the link reported first for it.
-/

namespace TrafficSteering

/-! ## Hops -/

namespace Path

theorem hops_cons_cons (first second : SwitchId) (rest : List SwitchId) :
    (⟨first :: second :: rest⟩ : Path).hops =
      (first, second) :: (⟨second :: rest⟩ : Path).hops := rfl

/-- One more switch at the end of a path adds the hop from its last switch. -/
theorem hops_concat {switches : List SwitchId} {last : SwitchId}
    (hlast : switches.getLast? = some last) (next : SwitchId) :
    (⟨switches ++ [next]⟩ : Path).hops = (⟨switches⟩ : Path).hops ++ [(last, next)] := by
  induction switches with
  | nil => simp at hlast
  | cons first rest ih =>
    cases rest with
    | nil =>
      have hfirst : first = last := by simpa using hlast
      rw [hfirst]
      rfl
    | cons second rest =>
      rw [List.getLast?_cons_cons] at hlast
      have htail := ih hlast
      rw [List.cons_append] at htail
      rw [List.cons_append, List.cons_append, hops_cons_cons, htail, hops_cons_cons,
        List.cons_append]

end Path

namespace Graph

variable (graph : Graph)

/-! ## Weights -/

/-- The weight of the link reported first from one switch to another, and zero if there is none. -/
def hopWeight (src dst : SwitchId) : Nat :=
  match graph.reported? src dst with
  | some link => link.weight.toNat
  | none => 0

/-- The sum of the weights along a path. -/
def pathWeight (path : Path) : Nat := (path.hops.map fun hop => graph.hopWeight hop.1 hop.2).sum

theorem hopWeight_of_edge? {graph : Graph} {src dst : SwitchId} {edge : Link}
    (h : graph.edge? src dst = some edge) : graph.hopWeight src dst = edge.weight.toNat := by
  rw [edge?_eq_reported?] at h
  rw [hopWeight, h]

theorem pathWeight_concat {switches : List SwitchId} {last : SwitchId}
    (hlast : switches.getLast? = some last) (next : SwitchId) :
    graph.pathWeight ⟨switches ++ [next]⟩ =
      graph.pathWeight ⟨switches⟩ + graph.hopWeight last next := by
  simp [pathWeight, Path.hops_concat hlast]

/-! ## Walks and simple paths -/

/-- A path that follows edges of the graph from one switch to another. -/
structure IsWalk (src dst : SwitchId) (path : Path) : Prop where
  /-- It begins at the one switch. -/
  starts : path.source? = some src
  /-- It ends at the other. -/
  ends : path.destination? = some dst
  /-- Each hop is an edge. -/
  joined : ∀ hop ∈ path.hops, graph.Adjacent hop.1 hop.2

/-- A walk that passes no switch twice. -/
structure IsSimplePath (src dst : SwitchId) (path : Path) : Prop extends
    IsWalk graph src dst path where
  /-- No switch is repeated. -/
  distinct : path.switches.Nodup

variable {graph} {src dst : SwitchId} {path : Path}

theorem IsWalk.single (src : SwitchId) : graph.IsWalk src src (Path.single src) where
  starts := rfl
  ends := rfl
  joined := by simp [Path.single, Path.hops]

/-- A walk can go on along every edge that leaves its last switch. -/
theorem IsWalk.concat (h : graph.IsWalk src dst path) {next : SwitchId}
    (hnext : graph.Adjacent dst next) : graph.IsWalk src next ⟨path.switches ++ [next]⟩ where
  starts := by
    have hstarts := h.starts
    rw [Path.source?] at hstarts ⊢
    rw [List.head?_append, hstarts]
    rfl
  ends := by simp [Path.destination?]
  joined := by
    rw [Path.hops_concat h.ends]
    intro hop hmem
    rcases List.mem_append.mp hmem with hold | hnew
    · exact h.joined hop hold
    · rw [List.mem_singleton.mp hnew]
      exact hnext

/-- A walk is the first switch alone, or a shorter walk and one more edge. -/
theorem IsWalk.cases_last (h : graph.IsWalk src dst path) :
    (path = Path.single src ∧ dst = src) ∨
      ∃ switches last, path = ⟨switches ++ [dst]⟩ ∧ graph.IsWalk src last ⟨switches⟩ ∧
        graph.Adjacent last dst := by
  obtain ⟨switches, hlast⟩ := List.getLast?_eq_some_iff.mp h.ends
  have hpath : path = ⟨switches ++ [dst]⟩ := by rw [← hlast]
  cases hbefore : switches.getLast? with
  | none =>
    left
    rw [List.getLast?_eq_none_iff] at hbefore
    subst hbefore
    have hstarts := h.starts
    rw [hpath] at hstarts
    have hdst : dst = src := by simpa [Path.source?] using hstarts
    exact ⟨by rw [hpath, hdst]; rfl, hdst⟩
  | some last =>
    right
    have hhops := Path.hops_concat hbefore dst
    have hjoined := h.joined
    rw [hpath, hhops] at hjoined
    refine ⟨switches, last, hpath, ⟨?_, hbefore, ?_⟩, ?_⟩
    · have hstarts := h.starts
      rw [hpath, Path.source?, List.head?_append] at hstarts
      cases switches with
      | nil => simp at hbefore
      | cons first rest => simpa [Path.source?] using hstarts
    · exact fun hop hmem => hjoined hop (List.mem_append_left _ hmem)
    · exact hjoined (last, dst) (by simp)

/-- What holds of the first switch alone, and is kept when a walk goes on along an edge, holds of
every walk. -/
theorem IsWalk.rec_last {motive : SwitchId → Path → Prop} (h : graph.IsWalk src dst path)
    (hsingle : motive src (Path.single src))
    (hconcat : ∀ {last next : SwitchId} {switches : List SwitchId},
      graph.IsWalk src last ⟨switches⟩ → graph.Adjacent last next → motive last ⟨switches⟩ →
        motive next ⟨switches ++ [next]⟩) :
    motive dst path := by
  obtain ⟨switches⟩ := path
  induction switches using List.reverseRecOn generalizing dst with
  | nil => simpa [Path.source?] using h.starts
  | append_singleton front next ih =>
    rcases h.cases_last with ⟨hpath, hdst⟩ | ⟨switches, last, hpath, hwalk, hedge⟩
    · rw [hpath, hdst]
      exact hsingle
    · obtain ⟨rfl, hnext⟩ := List.append_inj' (Path.mk.inj hpath) rfl
      obtain rfl : next = dst := by simpa using hnext
      exact hconcat hwalk hedge (ih hwalk)

/-! ## Reachability -/

/-- What can be reached along edges is what walks lead to. -/
theorem reachable_iff_exists_walk :
    Relation.ReflTransGen graph.Adjacent src dst ↔ ∃ path, graph.IsWalk src dst path := by
  constructor
  · intro h
    induction h with
    | refl => exact ⟨Path.single src, IsWalk.single src⟩
    | tail _ hedge ih =>
      obtain ⟨path, hwalk⟩ := ih
      exact ⟨_, hwalk.concat hedge⟩
  · rintro ⟨path, hwalk⟩
    exact hwalk.rec_last (motive := fun last _ => Relation.ReflTransGen graph.Adjacent src last)
      Relation.ReflTransGen.refl fun _ hedge hreach => hreach.tail hedge

/-- A walk from a switch to another one leaves from a switch of the graph. -/
theorem IsWalk.contains_source (h : graph.IsWalk src dst path) (hne : src ≠ dst) :
    graph.contains src = true := by
  have hreach := reachable_iff_exists_walk.mpr ⟨path, h⟩
  rcases Relation.ReflTransGen.cases_head hreach with heq | ⟨next, hedge, _⟩
  · exact absurd heq hne
  · exact hedge.contains.1

end Graph

/-! ## A tangled report

It has a repeated link, a loop, a cycle without weight, two shortest ways from the first switch to
the fourth, and a switch without links.  Statements about all graphs are instantiated with it. -/

namespace Snapshot

/-- A link of the tangled report. -/
def strand (src : UInt64) (port : UInt32) (dst : UInt64) (weight : UInt32) : Link :=
  ⟨⟨src⟩, ⟨port⟩, ⟨dst⟩, weight⟩

def tangle : Snapshot where
  switches := [⟨1⟩, ⟨2⟩, ⟨3⟩, ⟨4⟩, ⟨5⟩]
  links := [strand 1 1 2 1, strand 1 9 2 0, strand 2 1 2 0, strand 2 2 3 0, strand 3 1 2 0,
    strand 3 2 4 2, strand 1 2 4 5, strand 4 1 1 1, strand 2 3 4 2]

end Snapshot

/-- The graph of the tangled report. -/
def Graph.tangle : Graph where
  switches := Snapshot.tangle.switches
  links := Snapshot.tangle.links
  edges := firstReports Snapshot.tangle.links
  edges_eq := rfl
  closed := by decide

end TrafficSteering
