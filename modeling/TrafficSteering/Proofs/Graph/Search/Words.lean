import Mathlib.Algebra.Group.Nat.Defs
import TrafficSteering.Proofs.Graph.Search.Lookup
set_option autoImplicit false

/-!
# The search on machine words

The shortest-path search once more, with distances of 64 bits that wrap when they grow too large.
It writes down every addition that it makes, whether a switch takes the label it is offered or not.
As long as no sum exceeds a word, it goes through the same states as the search on natural numbers
(`Agrees`); one more edge or one more settled switch keeps that up if its own sums do not exceed a
word either.
-/

namespace TrafficSteering.Graph

/-! ## Additions -/

/-- A distance and the weight that is added to it. -/
structure Addition where
  distance : UInt64
  weight : UInt32
  deriving DecidableEq, Repr

namespace Addition

/-- The sum as a machine word, which wraps. -/
def sum (addition : Addition) : UInt64 := addition.distance + addition.weight.toUInt64

/-- The exact sum is below 2^64. -/
def Fits (addition : Addition) : Prop := addition.distance.toNat + addition.weight.toNat < 2 ^ 64

theorem Fits.toNat_sum {addition : Addition} (h : addition.Fits) :
    addition.sum.toNat = addition.distance.toNat + addition.weight.toNat := by
  rw [sum, UInt64.toNat_add, UInt32.toNat_toUInt64]
  exact Nat.mod_eq_of_lt h

end Addition

/-! ## Labels -/

/-- What the search knows about a switch it has reached. -/
structure WordLabel where
  switch : SwitchId
  distance : UInt64
  /-- The way back: this switch first, the source last. -/
  trail : List SwitchId
  deriving DecidableEq, Repr

namespace WordLabel

/-- Whether a label is settled before another one. -/
def before (a b : WordLabel) : Bool :=
  a.distance < b.distance || (a.distance == b.distance && a.switch.number < b.switch.number)

/-- The label that is settled first among a label and others. -/
def first (label : WordLabel) (others : List WordLabel) : WordLabel :=
  others.foldl (fun best other => if other.before best then other else best) label

/-- What is added up when a switch is reached from a settled one along an edge. -/
def addition (node : WordLabel) (edge : Link) : Addition := ⟨node.distance, edge.weight⟩

/-- The label that a switch gets when it is reached from a settled one along an edge. -/
def extend (node : WordLabel) (edge : Link) : WordLabel :=
  ⟨edge.dst, (node.addition edge).sum, edge.dst :: node.trail⟩

/-- The same label with a natural number for its distance. -/
def exact (label : WordLabel) : Label := ⟨label.switch, label.distance.toNat, label.trail⟩

theorem exact_before (a b : WordLabel) : a.exact.before b.exact = a.before b := by
  unfold Label.before before
  congr 2
  rw [Bool.eq_iff_iff, beq_iff_eq, beq_iff_eq]
  exact UInt64.toNat_inj

theorem exact_first (label : WordLabel) (others : List WordLabel) :
    (label.first others).exact = label.exact.first (others.map exact) := by
  induction others generalizing label with
  | nil => rfl
  | cons other rest ih =>
    have hnext := ih (if other.before label then other else label)
    rw [first] at hnext
    rw [first, List.foldl_cons, hnext, List.map_cons, Label.first, Label.first, List.foldl_cons,
      exact_before, apply_ite exact]

theorem exact_extend {node : WordLabel} {edge : Link} (h : (node.addition edge).Fits) :
    (node.extend edge).exact = node.exact.extend edge := by
  rw [extend, exact, h.toNat_sum]
  rfl

end WordLabel

/-! ## The search -/

/-- The state of the search. -/
structure WordSearch where
  settled : List WordLabel
  waiting : List WordLabel
  /-- What has been added up so far, the last addition first. -/
  additions : List Addition
  deriving DecidableEq, Repr

namespace WordSearch

/-- Nothing but the source has been reached. -/
def start (source : SwitchId) : WordSearch := ⟨[], [⟨source, 0, [source]⟩], []⟩

/-- The label of a switch among others. -/
def labelOf? (labels : List WordLabel) (switch : SwitchId) : Option WordLabel :=
  labels.find? fun label => label.switch == switch

/-- Takes a new label for a waiting switch if it is the first or strictly shorter. -/
def improve (waiting : List WordLabel) (candidate : WordLabel) : List WordLabel :=
  match labelOf? waiting candidate.switch with
  | none => candidate :: waiting
  | some old =>
    if candidate.distance < old.distance then
      candidate :: waiting.filter fun label => label.switch != candidate.switch
    else waiting

/-- Follows one edge of the switch that has just been settled. -/
def relax (node : WordLabel) (search : WordSearch) (edge : Link) : WordSearch :=
  if (labelOf? search.settled edge.dst).isSome then search
  else
    { search with
      waiting := improve search.waiting (node.extend edge)
      additions := node.addition edge :: search.additions }

/-- Settles a waiting switch and follows its edges. -/
def settle (graph : Graph) (search : WordSearch) (node : WordLabel) : WordSearch :=
  (graph.edgesFrom node.switch).foldl (relax node)
    { search with
      settled := node :: search.settled
      waiting := search.waiting.filter fun label => label.switch != node.switch }

/-- Settles at most the given number of switches. -/
def run (graph : Graph) : Nat → WordSearch → WordSearch
  | 0, search => search
  | steps + 1, search =>
    match search.waiting with
    | [] => search
    | label :: others => run graph steps (search.settle graph (label.first others))

/-- The same state with natural numbers for distances. -/
def exact (search : WordSearch) : Search :=
  ⟨search.settled.map WordLabel.exact, search.waiting.map WordLabel.exact⟩

theorem labelOf?_exact (labels : List WordLabel) (switch : SwitchId) :
    Search.labelOf? (labels.map WordLabel.exact) switch =
      (labelOf? labels switch).map WordLabel.exact :=
  List.find?_map ..

theorem filter_exact (labels : List WordLabel) (gone : SwitchId) :
    (labels.map WordLabel.exact).filter (fun label => label.switch != gone) =
      (labels.filter fun label => label.switch != gone).map WordLabel.exact :=
  List.filter_map ..

theorem improve_exact (waiting : List WordLabel) (candidate : WordLabel) :
    Search.improve (waiting.map WordLabel.exact) candidate.exact =
      (improve waiting candidate).map WordLabel.exact := by
  unfold Search.improve improve
  rw [show candidate.exact.switch = candidate.switch from rfl, labelOf?_exact]
  cases labelOf? waiting candidate.switch with
  | none => rfl
  | some old =>
    have hshorter : candidate.exact.distance < old.exact.distance ↔
        candidate.distance < old.distance := UInt64.lt_iff_toNat_lt.symm
    simp only [Option.map_some, hshorter, filter_exact]
    split <;> rfl

/-! ## Searches that agree -/

/-- A search on machine words is in the same state as one on natural numbers, and no sum has
exceeded a word so far. -/
structure Agrees (words : WordSearch) (search : Search) : Prop where
  same : words.exact = search
  fits : ∀ addition ∈ words.additions, addition.Fits

variable {words : WordSearch} {search : Search} {node : WordLabel}

theorem agrees_start (source : SwitchId) : (start source).Agrees (Search.start source) where
  same := rfl
  fits := by simp [start]

/-- Following an edge to a switch that is not settled forms one sum. -/
theorem Agrees.relax (h : words.Agrees search) {edge : Link}
    (hfits : edge.dst ∉ switchesOf search.settled → (node.addition edge).Fits) :
    (WordSearch.relax node words edge).Agrees (Search.relax node.exact search edge) := by
  obtain ⟨rfl, hbefore⟩ := h
  have hsettled : (Search.labelOf? words.exact.settled edge.dst).isSome =
      (labelOf? words.settled edge.dst).isSome := by
    rw [exact, labelOf?_exact, Option.isSome_map]
  unfold WordSearch.relax Search.relax
  rw [hsettled]
  split
  · exact ⟨rfl, hbefore⟩
  · rename_i hopen
    rw [← hsettled, Search.labelOf?_isSome_iff] at hopen
    refine ⟨?_, ?_⟩
    · rw [← WordLabel.exact_extend (hfits hopen)]
      simp only [exact, improve_exact]
    · rw [List.forall_mem_cons]
      exact ⟨hfits hopen, hbefore⟩

theorem Agrees.foldl_relax (h : words.Agrees search) {edges : List Link}
    (hfits : ∀ edge ∈ edges, edge.dst ∉ switchesOf search.settled → (node.addition edge).Fits) :
    (edges.foldl (WordSearch.relax node) words).Agrees
      (edges.foldl (Search.relax node.exact) search) := by
  induction edges generalizing words search with
  | nil => exact h
  | cons edge rest ih =>
    rw [List.forall_mem_cons] at hfits
    refine ih (h.relax hfits.1) fun other hother => ?_
    rw [Search.relax_settled]
    exact hfits.2 other hother

/-- Settling a switch keeps the searches in agreement if no sum along its edges exceeds a word. -/
theorem Agrees.settle (h : words.Agrees search) {graph : Graph}
    (hfits : ∀ edge ∈ graph.edgesFrom node.switch, (node.addition edge).Fits) :
    (words.settle graph node).Agrees (search.settle graph node.exact) := by
  obtain ⟨rfl, hbefore⟩ := h
  have hnode : (⟨node :: words.settled,
      words.waiting.filter fun label => label.switch != node.switch,
      words.additions⟩ : WordSearch).Agrees ⟨node.exact :: words.exact.settled,
        words.exact.waiting.filter fun label => label.switch != node.switch⟩ := by
    refine ⟨?_, hbefore⟩
    simp only [exact, List.map_cons, filter_exact]
  exact hnode.foldl_relax fun edge hedge _ => hfits edge hedge

end WordSearch

end TrafficSteering.Graph
