import Mathlib.Data.List.Induction
import Mathlib.Logic.Function.Basic
import TrafficSteering.Proofs.Graph.Construction
import TrafficSteering.Proofs.Graph.Edges
import TrafficSteering.Proofs.Graph.Walk
set_option autoImplicit false

/-!
# What a graph makes of its report

A graph answers with the first report of each ordered pair of switches.  It can be put together by
reading one link after another: a link whose ends are listed is kept as the edge of its pair, and
its destination as a neighbour of its source, unless the pair has been read before (`Draft`).  What
is kept by pair and what is kept by switch thus never come apart, and a link that is reported too
late to be kept may as well be left out.
-/

namespace TrafficSteering

/-! ## First reports -/

/-- No link joins the ordered pair of switches. -/
def Unreported (links : List Link) (src dst : SwitchId) : Prop :=
  ∀ link ∈ links, link.pair ≠ (src, dst)

instance (links : List Link) (src dst : SwitchId) : Decidable (Unreported links src dst) :=
  inferInstanceAs (Decidable (∀ link ∈ links, link.pair ≠ (src, dst)))

/-- The link joins the ordered pair of switches, and no link before it does. -/
structure FirstReport (links : List Link) (src dst : SwitchId) (link : Link) : Prop where
  joins : link.src = src ∧ link.dst = dst
  first : ∃ earlier later, links = earlier ++ link :: later ∧ Unreported earlier src dst

/-- The place of the first report of an ordered pair. -/
def firstPlace (links : List Link) (src dst : SwitchId) : Nat :=
  links.findIdx fun link => link.joins src dst

variable {links : List Link} {link : Link} {src dst : SwitchId}

theorem Link.joins_eq_false_iff : link.joins src dst = false ↔ link.pair ≠ (src, dst) := by
  rw [Bool.eq_false_iff, ne_eq, Link.joins_iff, ne_eq, Link.pair, Prod.mk.injEq]

theorem find?_joins_eq_some_iff :
    (links.find? fun link => link.joins src dst) = some link ↔ FirstReport links src dst link := by
  simp only [List.find?_eq_some_iff_append, Link.joins_iff, Bool.not_eq_true',
    Link.joins_eq_false_iff]
  exact ⟨fun ⟨hjoins, hfirst⟩ => ⟨hjoins, hfirst⟩, fun h => ⟨h.joins, h.first⟩⟩

theorem find?_joins_eq_none_iff :
    (links.find? fun link => link.joins src dst) = none ↔ Unreported links src dst := by
  simp only [List.find?_eq_none, Bool.not_eq_true, Link.joins_eq_false_iff, Unreported]

theorem unreported_append {front back : List Link} :
    Unreported (front ++ back) src dst ↔ Unreported front src dst ∧ Unreported back src dst :=
  List.forall_mem_append

theorem unreported_cons {rest : List Link} :
    Unreported (link :: rest) src dst ↔ link.pair ≠ (src, dst) ∧ Unreported rest src dst :=
  List.forall_mem_cons

/-- One more link counts if it is the first report of its pair. -/
theorem firstReports_concat (links : List Link) (link : Link) :
    firstReports (links ++ [link]) =
      firstReports links ++ if Unreported links link.src link.dst then [link] else [] := by
  induction links with
  | nil => simp [firstReports, Unreported]
  | cons head rest ih =>
    rw [List.cons_append, firstReports, ih, List.filter_append, firstReports, List.cons_append]
    congr 2
    by_cases hhead : head.pair = link.pair
    · have hparallel : link.parallel head = true := Link.parallel_iff.mpr hhead.symm
      have hreported : ¬ Unreported (head :: rest) link.src link.dst :=
        fun h => (unreported_cons.mp h).1 hhead
      rw [if_neg hreported]
      split <;> simp [hparallel]
    · have hparallel : link.parallel head = false := by
        rw [Bool.eq_false_iff, ne_eq, Link.parallel_iff]
        exact Ne.symm hhead
      have hrest : Unreported (head :: rest) link.src link.dst ↔
          Unreported rest link.src link.dst :=
        unreported_cons.trans (and_iff_right hhead)
      simp only [hrest]
      split <;> simp [hparallel]

/-- A link whose pair has been reported before reports no further pair. -/
theorem unreported_leave_out {front : List Link} (h : ¬ Unreported front link.src link.dst)
    (back : List Link) :
    Unreported (front ++ link :: back) src dst ↔ Unreported (front ++ back) src dst := by
  rw [unreported_append, unreported_append, unreported_cons]
  constructor
  · rintro ⟨hfront, -, hback⟩
    exact ⟨hfront, hback⟩
  · rintro ⟨hfront, hback⟩
    refine ⟨hfront, ?_, hback⟩
    intro hpair
    obtain ⟨rfl, rfl⟩ := Prod.mk.inj hpair
    exact h hfront

/-- A link whose pair has been reported before may be left out. -/
theorem firstReports_leave_out {front : List Link} (h : ¬ Unreported front link.src link.dst)
    (back : List Link) : firstReports (front ++ link :: back) = firstReports (front ++ back) := by
  induction back using List.reverseRecOn with
  | nil => rw [firstReports_concat, if_neg h, List.append_nil, List.append_nil]
  | append_singleton back next ih =>
    rw [← List.cons_append, ← List.append_assoc, firstReports_concat, ih, ← List.append_assoc,
      firstReports_concat]
    simp only [unreported_leave_out h]

theorem firstPlace_cons_self (head : Link) (rest : List Link) :
    firstPlace (head :: rest) head.src head.dst = 0 := by
  simp [firstPlace, List.findIdx_cons, Link.joins]

theorem firstPlace_cons_of_ne {head : Link} (h : head.pair ≠ (src, dst)) (rest : List Link) :
    firstPlace (head :: rest) src dst = firstPlace rest src dst + 1 := by
  simp [firstPlace, List.findIdx_cons, Link.joins_eq_false_iff.mpr h]

/-- First reports are listed in the order of their places. -/
theorem firstReports_ordered (links : List Link) :
    (firstReports links).Pairwise fun a b =>
      firstPlace links a.src a.dst < firstPlace links b.src b.dst := by
  induction links with
  | nil => exact List.Pairwise.nil
  | cons head rest ih =>
    have hother : ∀ other ∈ (firstReports rest).filter fun other => !other.parallel head,
        head.pair ≠ (other.src, other.dst) := by
      intro other hmem hpair
      have hkept := (List.mem_filter.mp hmem).2
      rw [Link.parallel_iff.mpr hpair.symm] at hkept
      exact Bool.noConfusion hkept
    rw [firstReports, List.pairwise_cons]
    constructor
    · intro other hmem
      rw [firstPlace_cons_self, firstPlace_cons_of_ne (hother other hmem)]
      exact Nat.succ_pos _
    · refine (ih.filter _).imp_of_mem ?_
      intro a b ha hb hlt
      rw [firstPlace_cons_of_ne (hother a ha), firstPlace_cons_of_ne (hother b hb)]
      exact Nat.succ_lt_succ hlt

/-! ## Reading link by link -/

/-- A graph in the making. -/
@[ext]
structure Draft where
  /-- The edge of each ordered pair that has been read. -/
  edge? : SwitchId × SwitchId → Option Link
  /-- The neighbours of each switch, in the order in which they have been read. -/
  neighbors : SwitchId → List SwitchId

namespace Draft

/-- Nothing has been read. -/
def blank : Draft := ⟨fun _ => none, fun _ => []⟩

/-- Reads one more link. -/
def enter (switches : List SwitchId) (draft : Draft) (link : Link) : Except Fault Draft :=
  if link.src ∉ switches then .error (.unknownSwitch link.src)
  else if link.dst ∉ switches then .error (.unknownSwitch link.dst)
  else if (draft.edge? link.pair).isSome then .ok draft
  else .ok {
    edge? := Function.update draft.edge? link.pair (some link)
    neighbors := Function.update draft.neighbors link.src (draft.neighbors link.src ++ [link.dst]) }

/-- What has been made of some links. -/
def ofLinks (links : List Link) : Draft where
  edge? pair := links.find? fun link => link.joins pair.1 pair.2
  neighbors switch := ((firstReports links).filter fun link => link.src == switch).map Link.dst

theorem edge?_concat (links : List Link) (link : Link) (pair : SwitchId × SwitchId) :
    (ofLinks (links ++ [link])).edge? pair =
      ((ofLinks links).edge? pair).or (if link.pair = pair then some link else none) := by
  simp only [ofLinks, List.find?_append, List.find?_singleton, Link.joins_iff, Link.pair,
    Prod.ext_iff]

theorem neighbors_concat (links : List Link) (link : Link) (switch : SwitchId) :
    (ofLinks (links ++ [link])).neighbors switch = (ofLinks links).neighbors switch ++
      if Unreported links link.src link.dst ∧ link.src = switch then [link.dst] else [] := by
  simp only [ofLinks, firstReports_concat, List.filter_append, List.map_append]
  congr 1
  by_cases hnew : Unreported links link.src link.dst
  · simp only [hnew, true_and, if_true]
    by_cases hsrc : link.src = switch <;> simp [hsrc]
  · simp [hnew]

/-- A link whose pair has been read changes nothing. -/
theorem ofLinks_concat_of_reported (h : ¬ Unreported links link.src link.dst) :
    ofLinks (links ++ [link]) = ofLinks links := by
  apply Draft.ext
  · funext pair
    rw [edge?_concat]
    by_cases hpair : link.pair = pair
    · have hread : ((ofLinks links).edge? pair).isSome = true := by
        rw [Option.isSome_iff_ne_none, ← hpair]
        exact find?_joins_eq_none_iff.not.mpr h
      rw [Option.or_of_isSome hread]
    · rw [if_neg hpair, Option.or_none]
  · funext switch
    rw [neighbors_concat, if_neg fun hnew => h hnew.1, List.append_nil]

/-- A link whose pair has not been read becomes its edge, and its end a neighbour. -/
theorem ofLinks_concat_of_unreported (h : Unreported links link.src link.dst) :
    ofLinks (links ++ [link]) =
      ⟨Function.update (ofLinks links).edge? link.pair (some link),
        Function.update (ofLinks links).neighbors link.src
          ((ofLinks links).neighbors link.src ++ [link.dst])⟩ := by
  apply Draft.ext
  · funext pair
    rw [edge?_concat]
    dsimp only
    by_cases hpair : link.pair = pair
    · have hread : (ofLinks links).edge? pair = none := by
        rw [← hpair]
        exact find?_joins_eq_none_iff.mpr h
      rw [hread, Option.none_or, if_pos hpair, ← hpair, Function.update_self]
    · rw [if_neg hpair, Option.or_none, Function.update_of_ne (Ne.symm hpair)]
  · funext switch
    rw [neighbors_concat]
    dsimp only
    by_cases hswitch : link.src = switch
    · rw [if_pos ⟨h, hswitch⟩, ← hswitch, Function.update_self]
    · rw [if_neg fun hnew => hswitch hnew.2, List.append_nil,
        Function.update_of_ne (Ne.symm hswitch)]

/-- Reading one more link whose ends are listed. -/
theorem enter_ofLinks {switches : List SwitchId} (h : link.Within switches) (links : List Link) :
    enter switches (ofLinks links) link = .ok (ofLinks (links ++ [link])) := by
  unfold enter
  rw [if_neg (not_not.mpr h.1), if_neg (not_not.mpr h.2)]
  by_cases hnew : Unreported links link.src link.dst
  · have hread : (ofLinks links).edge? link.pair = none := find?_joins_eq_none_iff.mpr hnew
    rw [hread, Option.isSome_none, if_neg Bool.false_ne_true, ofLinks_concat_of_unreported hnew]
  · have hread : ((ofLinks links).edge? link.pair).isSome = true :=
      Option.isSome_iff_ne_none.mpr (find?_joins_eq_none_iff.not.mpr hnew)
    rw [if_pos hread, ofLinks_concat_of_reported hnew]

theorem foldlM_enter (switches : List SwitchId) (front back : List Link) :
    back.foldlM (enter switches) (ofLinks front) =
      match Graph.firstStranger? switches back with
      | some stranger => .error (.unknownSwitch stranger)
      | none => .ok (ofLinks (front ++ back)) := by
  induction back generalizing front with
  | nil => simp [Graph.firstStranger?, linkEnds, pure, Except.pure]
  | cons link rest ih =>
    rw [List.foldlM_cons]
    by_cases hsrc : link.src ∈ switches
    · by_cases hdst : link.dst ∈ switches
      · rw [enter_ofLinks ⟨hsrc, hdst⟩, Graph.firstStranger?_of_within ⟨hsrc, hdst⟩]
        have hrest := ih (front ++ [link])
        rw [List.append_assoc] at hrest
        exact hrest
      · rw [Graph.firstStranger?_of_dst hsrc hdst, enter, if_neg (not_not.mpr hsrc), if_pos hdst]
        rfl
    · rw [Graph.firstStranger?_of_src hsrc, enter, if_pos hsrc]
      rfl

end Draft

namespace Graph

variable {graph other : Graph} {switches : List SwitchId}

/-- The edges and the neighbours of a graph. -/
def draft (graph : Graph) : Draft := ⟨fun pair => graph.edge? pair.1 pair.2, graph.neighbors⟩

theorem draft_eq_ofLinks (graph : Graph) : graph.draft = Draft.ofLinks graph.links := by
  apply Draft.ext
  · funext pair
    exact edge?_eq_reported? graph pair.1 pair.2
  · funext switch
    simp only [draft, neighbors, edgesFrom, Draft.ofLinks, graph.edges_eq]

/-- Reading one link after another makes the same of a report, or fails for the same reason. -/
theorem foldlM_enter_eq_build (switches : List SwitchId) (links : List Link) :
    links.foldlM (Draft.enter switches) Draft.blank = draft <$> build switches links := by
  have hread := Draft.foldlM_enter switches [] links
  cases hbuilt : build switches links with
  | error fault =>
    obtain ⟨stranger, hstranger, rfl⟩ := build_eq_error_iff.mp hbuilt
    rw [firstStranger?_eq_some_iff.mpr hstranger] at hread
    exact hread
  | ok graph =>
    have hwithin := firstStranger?_eq_none_iff.mpr (exists_build_iff.mp ⟨graph, hbuilt⟩)
    obtain ⟨_, rfl⟩ := build_eq_ok hbuilt
    rw [hwithin, List.nil_append, ← draft_eq_ofLinks] at hread
    exact hread

/-! ## What a graph answers -/

/-- What is answered about an ordered pair of switches. -/
inductive Answered (graph : Graph) (links : List Link) (src dst : SwitchId) : Prop where
  | first {link : Link} (hfirst : FirstReport links src dst link)
      (hedge : graph.edge src dst = .ok link) (hweight : graph.weight src dst = .ok link.weight)
      (hport : graph.egressPort src dst = .ok link.port)
  | missing (hnone : Unreported links src dst)
      (hedge : graph.edge src dst = .error (.missingEdge src dst))
      (hweight : graph.weight src dst = .error (.missingEdge src dst))
      (hport : graph.egressPort src dst = .error (.missingEdge src dst))

/-- A graph answers what its report says. -/
structure Faithful (graph : Graph) (switches : List SwitchId) (links : List Link) : Prop where
  links_eq : graph.links = links
  contains_iff : ∀ switch, graph.contains switch = true ↔ switch ∈ switches
  answered : ∀ src dst, Answered graph links src dst
  neighbors_iff : ∀ src dst, dst ∈ graph.neighbors src ↔ ∃ edge, graph.edge src dst = .ok edge
  neighbors_nodup : ∀ src, (graph.neighbors src).Nodup
  neighbors_ordered : ∀ src,
    (graph.neighbors src).Pairwise fun a b => firstPlace links src a < firstPlace links src b
  neighbors_within : ∀ src dst, dst ∈ graph.neighbors src →
    graph.contains src = true ∧ graph.contains dst = true

theorem answered (graph : Graph) (src dst : SwitchId) : Answered graph graph.links src dst := by
  have hedge := edge?_eq_reported? graph src dst
  unfold reported? at hedge
  cases hfound : graph.links.find? fun link => link.joins src dst with
  | some link =>
    rw [hfound] at hedge
    exact .first (find?_joins_eq_some_iff.mp hfound) (edge_eq_ok_iff.mpr hedge)
      (weight_eq_ok hedge) (egressPort_eq_ok_iff.mpr ⟨link, hedge, rfl⟩)
  | none =>
    rw [hfound] at hedge
    exact .missing (find?_joins_eq_none_iff.mp hfound) (edge_eq_error_iff.mpr ⟨hedge, rfl⟩)
      (weight_eq_error_iff.mpr ⟨hedge, rfl⟩) (egressPort_eq_error_iff.mpr ⟨hedge, rfl⟩)

theorem neighbors_ordered (graph : Graph) (src : SwitchId) :
    (graph.neighbors src).Pairwise fun a b =>
      firstPlace graph.links src a < firstPlace graph.links src b := by
  have hordered := firstReports_ordered graph.links
  rw [← graph.edges_eq] at hordered
  apply List.pairwise_map.mpr
  refine (hordered.filter _).imp_of_mem ?_
  intro a b ha hb hlt
  have hsrc : a.src = src ∧ b.src = src :=
    ⟨by simpa using (List.mem_filter.mp ha).2, by simpa using (List.mem_filter.mp hb).2⟩
  rwa [hsrc.1, hsrc.2] at hlt

theorem faithful_of_build (h : build switches links = .ok graph) :
    graph.Faithful switches links := by
  obtain ⟨hswitches, rfl⟩ := build_eq_ok h
  refine ⟨rfl, ?_, graph.answered, ?_, neighbors_nodup, graph.neighbors_ordered, ?_⟩
  · intro switch
    rw [contains_iff, hswitches, List.mem_eraseDups]
  · intro src dst
    simp only [mem_neighbors_iff, ← exists_edge_iff, edge_eq_ok_iff]
  · intro src dst hmem
    exact (mem_neighbors_iff.mp hmem).contains

/-! ## Reports that make no difference -/

/-- Two graphs give the same answers. -/
structure SameAnswers (graph other : Graph) : Prop where
  neighbors : ∀ switch, other.neighbors switch = graph.neighbors switch
  edge : ∀ src dst, other.edge src dst = graph.edge src dst
  weight : ∀ src dst, other.weight src dst = graph.weight src dst
  egressPort : ∀ src dst, other.egressPort src dst = graph.egressPort src dst
  contains : ∀ switch, other.contains switch = graph.contains switch

theorem sameAnswers_of_edges_eq (hedges : other.edges = graph.edges)
    (hswitches : ∀ switch, switch ∈ other.switches ↔ switch ∈ graph.switches) :
    SameAnswers graph other := by
  have hedge : ∀ src dst, other.edge src dst = graph.edge src dst := by
    intro src dst
    simp only [Graph.edge, edge?, hedges]
  refine ⟨?_, hedge, ?_, ?_, ?_⟩
  · intro switch
    simp only [neighbors, edgesFrom, hedges]
  · intro src dst
    simp only [weight, hedge]
  · intro src dst
    simp only [egressPort, hedge]
  · intro switch
    rw [Bool.eq_iff_iff, contains_iff, contains_iff]
    exact hswitches switch

/-- A report with the same first reports and the same switches makes a graph that answers alike. -/
theorem exists_sameAnswers {others : List SwitchId} {fewer : List Link}
    (h : build switches links = .ok graph) (hlinks : fewer ⊆ links)
    (hfirst : firstReports fewer = firstReports links)
    (hswitches : ∀ switch, switch ∈ others ↔ switch ∈ switches) :
    ∃ other, build others fewer = .ok other ∧ SameAnswers graph other := by
  have hwithin := exists_build_iff.mp ⟨graph, h⟩
  obtain ⟨other, hother⟩ : ∃ other, build others fewer = .ok other := by
    rw [exists_build_iff]
    intro link hmem
    obtain ⟨hsrc, hdst⟩ := hwithin link (hlinks hmem)
    exact ⟨(hswitches _).mpr hsrc, (hswitches _).mpr hdst⟩
  refine ⟨other, hother, sameAnswers_of_edges_eq ?_ ?_⟩
  · rw [other.edges_eq, graph.edges_eq, (build_eq_ok hother).2, (build_eq_ok h).2, hfirst]
  · intro switch
    rw [(build_eq_ok hother).1, (build_eq_ok h).1, List.mem_eraseDups, List.mem_eraseDups]
    exact hswitches switch

/-! ## The whole -/

/-- A report makes no graph exactly if an end of one of its links is not listed, and the fault names
the first such end.  Otherwise it makes a graph that answers what the report says, the same as if
it had been read link by link.  Neither a later link for a pair reported before nor another listing
of the same switches makes a difference to the answers. -/
theorem build_faithful (switches : List SwitchId) (links : List Link) :
    (∀ fault, build switches links = .error fault ↔
      ∃ stranger, FirstStranger switches links stranger ∧ fault = .unknownSwitch stranger) ∧
    ((∃ fault, build switches links = .error fault) ↔ ∃ link ∈ links, ¬ link.Within switches) ∧
    links.foldlM (Draft.enter switches) Draft.blank = draft <$> build switches links ∧
    ∀ graph, build switches links = .ok graph →
      graph.Faithful switches links ∧
      (∀ front link back, links = front ++ link :: back → ¬ Unreported front link.src link.dst →
        ∃ other, build switches (front ++ back) = .ok other ∧ SameAnswers graph other) ∧
      ∀ others, (∀ switch, switch ∈ others ↔ switch ∈ switches) →
        ∃ other, build others links = .ok other ∧ SameAnswers graph other := by
  refine ⟨fun _ => build_eq_error_iff, ?_, foldlM_enter_eq_build switches links, ?_⟩
  · cases hbuilt : build switches links with
    | error fault =>
      have hnot : ¬ ∀ link ∈ links, link.Within switches := by
        rw [← exists_build_iff, hbuilt]
        simp
      simpa using hnot
    | ok graph =>
      have hall := exists_build_iff.mp ⟨graph, hbuilt⟩
      simpa using hall
  · intro graph hgraph
    refine ⟨faithful_of_build hgraph, ?_, ?_⟩
    · rintro front link back rfl hreported
      apply exists_sameAnswers hgraph _ (firstReports_leave_out hreported back).symm
        fun _ => Iff.rfl
      intro other hmem
      exact (List.mem_append.mp hmem).elim (List.mem_append_left _)
        fun hback => List.mem_append_right _ (List.mem_cons_of_mem _ hback)
    · intro others hothers
      exact exists_sameAnswers hgraph (List.Subset.refl links) rfl hothers

/-- The tangled report without the link that repeats a pair, and with a switch listed twice. -/
theorem build_faithful_tangle :
    build Snapshot.tangle.switches Snapshot.tangle.links = .ok tangle ∧
    tangle.neighbors ⟨1⟩ = [⟨2⟩, ⟨4⟩] ∧
    tangle.Faithful Snapshot.tangle.switches Snapshot.tangle.links ∧
    (∃ other, build Snapshot.tangle.switches
        (Snapshot.tangle.links.take 1 ++ Snapshot.tangle.links.drop 2) = .ok other ∧
      SameAnswers tangle other) ∧
    ∃ other, build (⟨3⟩ :: Snapshot.tangle.switches) Snapshot.tangle.links = .ok other ∧
      SameAnswers tangle other := by
  have hbuilt : build Snapshot.tangle.switches Snapshot.tangle.links = .ok tangle := rfl
  obtain ⟨_, _, _, hgraph⟩ := build_faithful Snapshot.tangle.switches Snapshot.tangle.links
  obtain ⟨hfaithful, hleaveOut, hrepeat⟩ := hgraph tangle hbuilt
  refine ⟨hbuilt, by decide, hfaithful, ?_, ?_⟩
  · exact hleaveOut _ (Snapshot.strand 1 9 2 0) _ rfl (by decide)
  · apply hrepeat
    intro switch
    rw [List.mem_cons, or_iff_right_of_imp]
    rintro rfl
    decide

end Graph

end TrafficSteering
