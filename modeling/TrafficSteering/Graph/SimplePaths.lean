import TrafficSteering.Graph
set_option autoImplicit false

/-!
# Simple paths

All paths between two switches that pass no switch twice, in the order in which a depth-first search
finds them.  The search goes on from the end of a trail to every neighbour that is not on the trail,
in the order of the neighbours, and stops where the trail has arrived.  Their number grows
exponentially with the density of the graph.
-/

namespace TrafficSteering.Graph

/-- The trails that continue a given one, its last switch first, up to the destination.  A trail
grows by at most the given number of switches. -/
def continuations (graph : Graph) (dst : SwitchId) : Nat → SwitchId → List SwitchId → List Path
  | 0, _, _ => []
  | room + 1, node, behind =>
    if node = dst then [⟨(node :: behind).reverse⟩]
    else
      let fresh := (graph.neighbors node).filter fun next => !(node :: behind).contains next
      fresh.flatMap fun next => continuations graph dst room next (node :: behind)

/-- Every simple path from one switch to another.  A simple path has at most as many switches as
the graph; from a switch outside the graph there is none. -/
def simplePaths (graph : Graph) (src dst : SwitchId) : List Path :=
  if graph.contains src then continuations graph dst graph.switches.length src [] else []

end TrafficSteering.Graph
