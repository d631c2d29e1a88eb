import Mathlib.Data.List.Perm.Subperm
import TrafficSteering.Graph.SimplePaths
import TrafficSteering.Proofs.Graph.Walk
set_option autoImplicit false

/-!
# All simple paths, each once, in order

The enumeration finds every simple path between two switches exactly once.  Of two paths, the one
comes first that, where they part, goes on to the neighbour that is listed first.

The same list comes out of a search that marks switches, keeps one stack and undoes both on its way
back (`explore`): whenever it visits a switch, what is marked is what lies behind that switch on the
stack.  The depth of the search is bounded by the number of switches, so a larger bound changes
nothing.
-/

namespace TrafficSteering.Graph

variable {graph : Graph} {src dst node : SwitchId} {behind : List SwitchId}

/-! ## Marks and a stack -/

/-- The state of a search that backtracks. -/
structure Exploration where
  marked : List SwitchId
  /-- The switches from the present one back to the source. -/
  stack : List SwitchId
  found : List Path

/-- Visits a switch, which is on top of the stack: marks it, visits the neighbours that are not
marked, and takes the mark away.  At most the given number of switches are visited on top of each
other. -/
def visit (graph : Graph) (dst : SwitchId) : Nat → SwitchId → Exploration → Exploration
  | 0, _, state => state
  | depth + 1, node, state =>
    if node = dst then { state with found := state.found ++ [⟨state.stack.reverse⟩] }
    else
      let visited := (graph.neighbors node).foldl
        (fun state next =>
          if state.marked.contains next then state
          else
            let returned := visit graph dst depth next { state with stack := next :: state.stack }
            { returned with stack := returned.stack.tail })
        { state with marked := node :: state.marked }
      { visited with marked := visited.marked.erase node }

/-- What the search finds from a switch of the graph. -/
def explore (graph : Graph) (depth : Nat) (src dst : SwitchId) : List Path :=
  if graph.contains src then (visit graph dst depth src ⟨[], [src], []⟩).found else []

/-- A visit only adds to what has been found. -/
theorem visit_eq (depth : Nat) (node : SwitchId) (behind : List SwitchId) (found : List Path) :
    visit graph dst depth node ⟨behind, node :: behind, found⟩ =
      ⟨behind, node :: behind, found ++ continuations graph dst depth node behind⟩ := by
  induction depth generalizing node behind found with
  | zero => simp [visit, continuations]
  | succ depth ih =>
    by_cases hdst : node = dst
    · simp [visit, continuations, hdst]
    · -- The neighbours still to be visited find the marks and the stack as the first one did.
      have hfold : ∀ (nexts : List SwitchId) (found : List Path),
          nexts.foldl
            (fun state next =>
              if state.marked.contains next then state
              else
                let returned :=
                  visit graph dst depth next { state with stack := next :: state.stack }
                { returned with stack := returned.stack.tail })
            (⟨node :: behind, node :: behind, found⟩ : Exploration) =
          ⟨node :: behind, node :: behind, found ++
            (nexts.filter fun next => !(node :: behind).contains next).flatMap fun next =>
              continuations graph dst depth next (node :: behind)⟩ := by
        intro nexts
        induction nexts with
        | nil => simp
        | cons next rest ihRest =>
          intro found
          rw [List.foldl_cons, List.filter_cons]
          by_cases hmarked : (node :: behind).contains next = true
          · simp only [hmarked, if_true]
            exact ihRest found
          · rw [Bool.not_eq_true] at hmarked
            simp only [hmarked, ih, List.tail_cons, Bool.false_eq_true, if_false]
            rw [ihRest]
            simp
      unfold visit continuations
      rw [if_neg hdst, if_neg hdst]
      simp only [hfold, List.erase_cons_head]

/-! ## What is found -/

/-- A list of switches that leads a trail on to the destination. -/
structure Continues (graph : Graph) (dst node : SwitchId) (behind rest : List SwitchId) :
    Prop where
  ends : (node :: rest).getLast? = some dst
  joined : ∀ hop ∈ (⟨node :: rest⟩ : Path).hops, graph.Adjacent hop.1 hop.2
  distinct : (behind.reverse ++ node :: rest).Nodup

theorem continues_cons_iff {next : SwitchId} {rest : List SwitchId} :
    Continues graph dst node behind (next :: rest) ↔
      graph.Adjacent node next ∧ Continues graph dst next (node :: behind) rest := by
  have hswitches : behind.reverse ++ node :: next :: rest =
      (node :: behind).reverse ++ next :: rest := by simp
  constructor
  · rintro ⟨hends, hjoined, hdistinct⟩
    rw [List.getLast?_cons_cons] at hends
    rw [Path.hops_cons_cons, List.forall_mem_cons] at hjoined
    rw [hswitches] at hdistinct
    exact ⟨hjoined.1, hends, hjoined.2, hdistinct⟩
  · rintro ⟨hedge, hends, hjoined, hdistinct⟩
    refine ⟨?_, ?_, ?_⟩
    · rwa [List.getLast?_cons_cons]
    · rw [Path.hops_cons_cons, List.forall_mem_cons]
      exact ⟨hedge, hjoined⟩
    · rwa [hswitches]

/-- A trail that has arrived does not go on. -/
theorem Continues.eq_nil {rest : List SwitchId} (h : Continues graph dst dst behind rest) :
    rest = [] := by
  cases rest with
  | nil => rfl
  | cons next rest =>
    have hends := h.ends
    rw [List.getLast?_cons_cons] at hends
    have hdistinct := (List.nodup_append.mp h.distinct).2.1
    exact absurd (List.mem_of_getLast? hends) (List.nodup_cons.mp hdistinct).1

theorem continues_nil_iff (hdistinct : (node :: behind).Nodup) :
    Continues graph dst node behind [] ↔ node = dst := by
  constructor
  · intro h
    simpa using h.ends
  · rintro rfl
    refine ⟨rfl, by simp [Path.hops], ?_⟩
    rwa [← List.reverse_cons, List.nodup_reverse]

/-- The neighbours that are not on the trail, as the search goes on to them. -/
theorem mem_fresh_iff {next : SwitchId} :
    next ∈ (graph.neighbors node).filter (fun next => !(node :: behind).contains next) ↔
      graph.Adjacent node next ∧ next ∉ node :: behind := by
  rw [List.mem_filter, mem_neighbors_iff]
  simp

/-- From a trail that repeats no switch, what is found are the ways to the destination that are not
longer than the search is deep. -/
theorem mem_continuations_iff {depth : Nat} {path : Path} (hdistinct : (node :: behind).Nodup) :
    path ∈ continuations graph dst depth node behind ↔
      ∃ rest, path = ⟨behind.reverse ++ node :: rest⟩ ∧ rest.length < depth ∧
        Continues graph dst node behind rest := by
  induction depth generalizing node behind with
  | zero => simp [continuations]
  | succ depth ih =>
    unfold continuations
    by_cases hdst : node = dst
    · rw [if_pos hdst, List.mem_singleton, List.reverse_cons]
      constructor
      · rintro rfl
        exact ⟨[], rfl, by simp, (continues_nil_iff hdistinct).mpr hdst⟩
      · rintro ⟨rest, rfl, _, hrest⟩
        rw [hdst] at hrest
        rw [hrest.eq_nil]
    · rw [if_neg hdst]
      simp only [List.mem_flatMap, mem_fresh_iff]
      constructor
      · rintro ⟨next, ⟨hedge, hfresh⟩, hpath⟩
        obtain ⟨rest, rfl, hlength, hrest⟩ :=
          (ih (List.nodup_cons.mpr ⟨hfresh, hdistinct⟩)).mp hpath
        exact ⟨next :: rest, by simp, by simpa using hlength, continues_cons_iff.mpr ⟨hedge, hrest⟩⟩
      · rintro ⟨rest, rfl, hlength, hrest⟩
        cases rest with
        | nil => exact absurd ((continues_nil_iff hdistinct).mp hrest) hdst
        | cons next rest =>
          obtain ⟨hedge, hnext⟩ := continues_cons_iff.mp hrest
          have hfresh : next ∉ node :: behind := by
            have hdisjoint := (List.nodup_append.mp hnext.distinct).2.2
            intro hmem
            exact hdisjoint next (List.mem_reverse.mpr hmem) next List.mem_cons_self rfl
          refine ⟨next, ⟨hedge, hfresh⟩, (ih (List.nodup_cons.mpr ⟨hfresh, hdistinct⟩)).mpr ?_⟩
          exact ⟨rest, by simp, by simpa using hlength, hnext⟩

/-- A search as deep as there are switches left has room enough. -/
theorem continuations_of_le {depth : Nat} (more : Nat) (hdistinct : (node :: behind).Nodup)
    (hinside : node :: behind ⊆ graph.switches)
    (hdepth : graph.switches.length ≤ depth + behind.length) :
    continuations graph dst (depth + more) node behind =
      continuations graph dst depth node behind := by
  induction depth generalizing node behind with
  | zero =>
    have hlength := (List.subperm_of_subset hdistinct hinside).length_le
    rw [List.length_cons] at hlength
    omega
  | succ depth ih =>
    rw [Nat.add_right_comm]
    unfold continuations
    by_cases hdst : node = dst
    · rw [if_pos hdst, if_pos hdst]
    · rw [if_neg hdst, if_neg hdst]
      apply List.flatMap_congr
      intro next hnext
      obtain ⟨hedge, hfresh⟩ := mem_fresh_iff.mp hnext
      refine ih (List.nodup_cons.mpr ⟨hfresh, hdistinct⟩)
        (List.cons_subset.mpr ⟨contains_iff.mp hedge.contains.2, hinside⟩) ?_
      rw [List.length_cons]
      omega

/-! ## The order -/

/-- One element stands before another in a list. -/
def StandsBefore {α : Type} (list : List α) (a b : α) : Prop :=
  ∃ i j : Nat, i < j ∧ list[i]? = some a ∧ list[j]? = some b

theorem standsBefore_pairwise {α : Type} (list : List α) : list.Pairwise (StandsBefore list) := by
  rw [List.pairwise_iff_getElem]
  intro i j hi hj hij
  exact ⟨i, j, hij, List.getElem?_eq_getElem hi, List.getElem?_eq_getElem hj⟩

theorem StandsBefore.asymm {α : Type} {list : List α} {a b : α} (hdistinct : list.Nodup)
    (h : StandsBefore list a b) : ¬ StandsBefore list b a := by
  rintro ⟨i', j', hij', hb', ha'⟩
  obtain ⟨i, j, hij, ha, hb⟩ := h
  have hi : i < list.length := (List.getElem?_eq_some_iff.mp ha).1
  have hj : j < list.length := (List.getElem?_eq_some_iff.mp hb).1
  have hfirst : i = j' := (List.getElem?_inj hi hdistinct).mp (ha.trans ha'.symm)
  have hsecond : j = i' := (List.getElem?_inj hj hdistinct).mp (hb.trans hb'.symm)
  omega

/-- Of two paths that part at some switch, the one goes on to a neighbour listed before that of the
other. -/
def Precedes (graph : Graph) (p q : Path) : Prop :=
  ∃ (front : List SwitchId) (fork a b : SwitchId) (restP restQ : List SwitchId),
    p.switches = front ++ fork :: a :: restP ∧ q.switches = front ++ fork :: b :: restQ ∧
      StandsBefore (graph.neighbors fork) a b

/-- Two lists part at one place only. -/
theorem parting_unique {α : Type} {x y : List α} {a b c d : α} {r s t u : List α} (hne : a ≠ b)
    (hne' : c ≠ d) (hp : x ++ a :: r = y ++ c :: s) (hq : x ++ b :: t = y ++ d :: u) :
    x = y ∧ a = c ∧ b = d := by
  induction x generalizing y with
  | nil =>
    cases y with
    | nil => exact ⟨rfl, (List.cons.inj hp).1, (List.cons.inj hq).1⟩
    | cons e y =>
      have ha : a = e := (List.cons.inj hp).1
      have hb : b = e := (List.cons.inj hq).1
      exact absurd (ha.trans hb.symm) hne
  | cons e x ih =>
    cases y with
    | nil =>
      have hc : e = c := (List.cons.inj hp).1
      have hd : e = d := (List.cons.inj hq).1
      exact absurd (hc.symm.trans hd) hne'
    | cons f y =>
      obtain ⟨hx, hrest⟩ := ih (List.cons.inj hp).2 (List.cons.inj hq).2
      exact ⟨by rw [hx, (List.cons.inj hp).1], hrest⟩

theorem Precedes.asymm {p q : Path} (h : graph.Precedes p q) : ¬ graph.Precedes q p := by
  rintro ⟨front', fork', a', b', restQ', restP', hq', hp', hbefore'⟩
  obtain ⟨front, fork, a, b, restP, restQ, hp, hq, hbefore⟩ := h
  have hne : a ≠ b := by
    rintro rfl
    exact hbefore.asymm (neighbors_nodup fork) hbefore
  have hne' : b' ≠ a' := by
    rintro rfl
    exact hbefore'.asymm (neighbors_nodup fork') hbefore'
  have hpEq : (front ++ [fork]) ++ a :: restP = (front' ++ [fork']) ++ b' :: restP' := by
    simpa using hp.symm.trans hp'
  have hqEq : (front ++ [fork]) ++ b :: restQ = (front' ++ [fork']) ++ a' :: restQ' := by
    simpa using hq.symm.trans hq'
  obtain ⟨hfront, rfl, rfl⟩ := parting_unique hne hne' hpEq hqEq
  obtain rfl : fork = fork' := by simpa using (List.append_inj' hfront rfl).2
  exact hbefore.asymm (neighbors_nodup fork) hbefore'

/-- What is found is found in order. -/
theorem continuations_pairwise (depth : Nat) (hdistinct : (node :: behind).Nodup) :
    (continuations graph dst depth node behind).Pairwise graph.Precedes := by
  induction depth generalizing node behind with
  | zero => exact List.Pairwise.nil
  | succ depth ih =>
    unfold continuations
    by_cases hdst : node = dst
    · rw [if_pos hdst]
      exact List.pairwise_singleton _ _
    · rw [if_neg hdst, List.pairwise_flatMap]
      have hnodup : ∀ {next : SwitchId},
          next ∈ (graph.neighbors node).filter (fun next => !(node :: behind).contains next) →
            (next :: node :: behind).Nodup :=
        fun hnext => List.nodup_cons.mpr ⟨(mem_fresh_iff.mp hnext).2, hdistinct⟩
      refine ⟨fun next hnext => ih (hnodup hnext), ?_⟩
      have hlisted := (standsBefore_pairwise (graph.neighbors node)).sublist
        (List.filter_sublist (p := fun next => !(node :: behind).contains next))
      apply hlisted.imp_of_mem
      intro a b ha hb hbefore p hp q hq
      -- Both paths have passed the same switches when they part.
      obtain ⟨restP, rfl, _⟩ := (mem_continuations_iff (hnodup ha)).mp hp
      obtain ⟨restQ, rfl, _⟩ := (mem_continuations_iff (hnodup hb)).mp hq
      exact ⟨behind.reverse, node, a, b, restP, restQ, by simp, by simp, hbefore⟩

/-! ## All simple paths -/

/-- The ways from the source to the destination are the simple paths. -/
theorem continues_iff_isSimplePath {rest : List SwitchId} :
    Continues graph dst src [] rest ↔ graph.IsSimplePath src dst ⟨src :: rest⟩ :=
  ⟨fun h => ⟨⟨rfl, h.ends, h.joined⟩, h.distinct⟩, fun h => ⟨h.ends, h.joined, h.distinct⟩⟩

theorem IsWalk.subset_switches {path : Path} (h : graph.IsWalk src dst path)
    (hsrc : graph.contains src = true) : path.switches ⊆ graph.switches := by
  apply h.rec_last (motive := fun _ path => path.switches ⊆ graph.switches)
  · simpa [Path.single] using contains_iff.mp hsrc
  · intro last next switches _ hedge hsub
    have hnext : next ∈ graph.switches := contains_iff.mp hedge.contains.2
    exact List.append_subset.mpr ⟨hsub, by simpa using hnext⟩

theorem mem_simplePaths_iff {path : Path} :
    path ∈ graph.simplePaths src dst ↔
      graph.contains src = true ∧ graph.IsSimplePath src dst path := by
  unfold simplePaths
  by_cases hsrc : graph.contains src = true
  · rw [if_pos hsrc, mem_continuations_iff (List.nodup_singleton src), and_iff_right hsrc]
    constructor
    · rintro ⟨rest, rfl, _, hrest⟩
      exact continues_iff_isSimplePath.mp hrest
    · intro hsimple
      obtain ⟨switches⟩ := path
      cases switches with
      | nil => simpa [Path.source?] using hsimple.starts
      | cons first rest =>
        obtain rfl : first = src := by simpa [Path.source?] using hsimple.starts
        have hlength := (List.subperm_of_subset hsimple.distinct
          (hsimple.toIsWalk.subset_switches hsrc)).length_le
        exact ⟨rest, rfl, hlength, continues_iff_isSimplePath.mpr hsimple⟩
  · rw [if_neg hsrc]
    simp [hsrc]

theorem simplePaths_pairwise (graph : Graph) (src dst : SwitchId) :
    (graph.simplePaths src dst).Pairwise graph.Precedes := by
  unfold simplePaths
  split
  · exact continuations_pairwise _ (List.nodup_singleton src)
  · exact List.Pairwise.nil

theorem simplePaths_nodup (graph : Graph) (src dst : SwitchId) :
    (graph.simplePaths src dst).Nodup := by
  apply (simplePaths_pairwise graph src dst).imp
  rintro p q hbefore rfl
  exact hbefore.asymm hbefore

/-- One found path comes before another exactly if it precedes it. -/
theorem lt_iff_precedes {i j : Nat} {p q : Path} (hp : (graph.simplePaths src dst)[i]? = some p)
    (hq : (graph.simplePaths src dst)[j]? = some q) : i < j ↔ graph.Precedes p q := by
  have hpairwise := List.pairwise_iff_getElem.mp (simplePaths_pairwise graph src dst)
  obtain ⟨hi, rfl⟩ := List.getElem?_eq_some_iff.mp hp
  obtain ⟨hj, rfl⟩ := List.getElem?_eq_some_iff.mp hq
  constructor
  · exact hpairwise i j hi hj
  · intro hbefore
    rcases Nat.lt_trichotomy i j with hlt | rfl | hgt
    · exact hlt
    · exact absurd hbefore hbefore.asymm
    · exact absurd (hpairwise j i hj hi hgt) hbefore.asymm

theorem explore_eq {depth : Nat} (hdepth : graph.switches.length ≤ depth) :
    graph.explore depth src dst = graph.simplePaths src dst := by
  unfold explore simplePaths
  by_cases hsrc : graph.contains src = true
  · obtain ⟨more, rfl⟩ := Nat.exists_eq_add_of_le hdepth
    have hinside : [src] ⊆ graph.switches := by
      simpa using contains_iff.mp hsrc
    rw [if_pos hsrc, if_pos hsrc, visit_eq,
      continuations_of_le more (List.nodup_singleton src) hinside (Nat.le_refl _)]
    simp
  · rw [if_neg hsrc, if_neg hsrc]

theorem simplePaths_self (hsrc : graph.contains src = true) :
    graph.simplePaths src src = [Path.single src] := by
  have hpositive := List.length_pos_of_mem (contains_iff.mp hsrc)
  obtain ⟨depth, hdepth⟩ := Nat.exists_eq_add_of_lt hpositive
  unfold simplePaths
  rw [if_pos hsrc, hdepth]
  simp [continuations, Path.single]

theorem simplePaths_outside (hsrc : graph.contains src = false) (dst : SwitchId) :
    graph.simplePaths src dst = [] := by
  unfold simplePaths
  rw [if_neg (by simp [hsrc])]

/-- The search with marks and a stack, however deep it may go beyond the number of switches, returns
the simple paths from the source to the destination, each once and nothing else, and each before
those that it precedes.  From a switch of the graph to itself there is one, and from a switch
outside the graph there is none. -/
theorem simplePaths_exact (graph : Graph) (src dst : SwitchId) :
    (∀ depth, graph.switches.length ≤ depth →
      graph.explore depth src dst = graph.simplePaths src dst) ∧
    (∀ path, path ∈ graph.simplePaths src dst ↔
      graph.contains src = true ∧ graph.IsSimplePath src dst path) ∧
    (graph.simplePaths src dst).Nodup ∧
    (∀ (i j : Nat) (p q : Path), (graph.simplePaths src dst)[i]? = some p →
      (graph.simplePaths src dst)[j]? = some q → (i < j ↔ graph.Precedes p q)) ∧
    (graph.contains src = true → graph.simplePaths src src = [Path.single src]) ∧
    (graph.contains src = false → graph.simplePaths src dst = []) := by
  refine ⟨fun _ hdepth => explore_eq hdepth, fun _ => mem_simplePaths_iff,
    simplePaths_nodup graph src dst, fun _ _ _ _ hp hq => lt_iff_precedes hp hq,
    simplePaths_self, fun houtside => simplePaths_outside houtside dst⟩

/-- In the tangled graph three paths lead from the first switch to the fourth.  The first two part
at the second switch, which lists the third before the fourth. -/
theorem simplePaths_exact_tangle :
    tangle.explore 7 ⟨1⟩ ⟨4⟩ = tangle.simplePaths ⟨1⟩ ⟨4⟩ ∧
    tangle.Precedes ⟨[⟨1⟩, ⟨2⟩, ⟨3⟩, ⟨4⟩]⟩ ⟨[⟨1⟩, ⟨2⟩, ⟨4⟩]⟩ ∧
    tangle.simplePaths ⟨2⟩ ⟨2⟩ = [Path.single ⟨2⟩] ∧ tangle.simplePaths ⟨6⟩ ⟨6⟩ = [] := by
  obtain ⟨hsearch, _, _, horder, _, _⟩ := simplePaths_exact tangle ⟨1⟩ ⟨4⟩
  obtain ⟨_, _, _, _, hself, _⟩ := simplePaths_exact tangle ⟨2⟩ ⟨2⟩
  obtain ⟨_, _, _, _, _, houtside⟩ := simplePaths_exact tangle ⟨6⟩ ⟨6⟩
  exact ⟨hsearch 7 (by decide), (horder 0 1 _ _ (by decide) (by decide)).mp (by decide),
    hself (by decide), houtside (by decide)⟩

end TrafficSteering.Graph
