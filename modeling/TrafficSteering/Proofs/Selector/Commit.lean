import TrafficSteering.Proofs.Graph.SimplePaths
import TrafficSteering.Proofs.Selector.Reachable
set_option autoImplicit false

/-!
# Commits after other requests

Whoever has seen the candidates can commit one of them later, by the generation that they had.
Between, other requests may come.  The generation tells whether the graph is still the same; it does
not tell whether the candidates are, since another selection replaces them within the generation.
So a commit keeps to the candidates that were seen exactly as long as no selection of another flow
has come between.
-/

namespace TrafficSteering.Selector

/-! ## One commit -/

section

variable {selector : Selector} {generation index : Nat}

theorem commit_answer_iff :
    (selector.commit generation index).answer = true ↔
      selector.candidates.generation = generation ∧ index < selector.candidates.paths.length := by
  unfold commit
  split
  · rename_i hgeneration
    split
    · rename_i path hpath
      have hlt := (List.getElem?_eq_some_iff.mp hpath).1
      simp [hgeneration, hlt]
    · rename_i hnone
      have hle := List.getElem?_eq_none_iff.mp hnone
      simp [hgeneration, hle]
  · rename_i hgeneration
    simp [hgeneration]

/-- After a commit that was possible, the candidate in that place is active. -/
theorem commit_activePath? (h : (selector.commit generation index).answer = true) {path : Path}
    (hpath : selector.candidates.paths[index]? = some path) :
    (selector.commit generation index).state.candidates.activePath? = some (index, path) := by
  obtain ⟨hgeneration, _⟩ := commit_answer_iff.mp h
  unfold commit Candidates.activePath?
  simp [hgeneration, hpath]

end

/-! ## Commits of what was seen -/

/-- A commit of a place among the candidates that were seen keeps to them: if it is possible, the
candidate seen in that place is active afterwards; if there are other candidates by now, it is not
possible. -/
structure CommitKept (seen now : Selector) (index : Nat) : Prop where
  landed : (now.commit seen.candidates.generation index).answer = true →
    ∃ path, seen.candidates.paths[index]? = some path ∧
      (now.commit seen.candidates.generation index).state.candidates.activePath? =
        some (index, path)
  refused : now.candidates.paths ≠ seen.candidates.paths →
    (now.commit seen.candidates.generation index).answer = false

theorem commitKept_iff_paths_eq {seen now : Selector} {index : Nat} :
    CommitKept seen now index ↔
      ((now.commit seen.candidates.generation index).answer = true →
        now.candidates.paths = seen.candidates.paths) := by
  constructor
  · intro hkept hdone
    by_contra hpaths
    rw [hkept.refused hpaths] at hdone
    exact Bool.noConfusion hdone
  · intro hsame
    refine ⟨?_, ?_⟩
    · intro hdone
      obtain ⟨_, hlt⟩ := commit_answer_iff.mp hdone
      have hpath := List.getElem?_eq_getElem hlt
      exact ⟨_, hsame hdone ▸ hpath, commit_activePath? hdone hpath⟩
    · intro hpaths
      cases hdone : (now.commit seen.candidates.generation index).answer with
      | false => rfl
      | true => exact absurd (hsame hdone) hpaths

/-- All candidates have the ends of the last flow. -/
theorem Consistent.ends_of_mem {selector : Selector} (h : Consistent selector) {path : Path}
    (hmem : path ∈ selector.candidates.paths) :
    ∃ src dst, selector.endpoints = some (src, dst) ∧
      path.source? = some src ∧ path.destination? = some dst := by
  obtain ⟨routing, src, dst, _, hendpoints, hpaths⟩ := h.complete (List.ne_nil_of_mem hmem)
  rw [hpaths] at hmem
  have hsimple := (Graph.mem_simplePaths_iff.mp hmem).2
  exact ⟨src, dst, hendpoints, hsimple.starts, hsimple.ends⟩

/-- On one graph, the candidates are the same as before if they belong to the same flow. -/
theorem Consistent.paths_eq_iff {seen now : Selector} (hseen : Consistent seen)
    (hnow : Consistent now) (hrouting : now.routing = seen.routing)
    (hne : now.candidates.paths ≠ []) :
    now.candidates.paths = seen.candidates.paths ↔
      seen.candidates.paths ≠ [] ∧ now.endpoints = seen.endpoints := by
  constructor
  · intro hsame
    refine ⟨hsame ▸ hne, ?_⟩
    obtain ⟨path, hmem⟩ := List.exists_mem_of_ne_nil _ hne
    obtain ⟨src, dst, hendpoints, hstarts, hends⟩ := hnow.ends_of_mem hmem
    obtain ⟨src', dst', hendpoints', hstarts', hends'⟩ := hseen.ends_of_mem (hsame ▸ hmem)
    obtain rfl : src = src' := Option.some.inj (hstarts.symm.trans hstarts')
    obtain rfl : dst = dst' := Option.some.inj (hends.symm.trans hends')
    rw [hendpoints, hendpoints']
  · rintro ⟨hseenNe, hendpoints⟩
    obtain ⟨routing, src, dst, hgraph, hflow, hpaths⟩ := hnow.complete hne
    obtain ⟨routing', src', dst', hgraph', hflow', hpaths'⟩ := hseen.complete hseenNe
    rw [hrouting, hgraph'] at hgraph
    rw [hendpoints, hflow'] at hflow
    cases hgraph
    cases hflow
    rw [hpaths, hpaths']

/-- Whatever requests come between, a commit keeps to the candidates that were seen exactly if the
generation has changed, or nothing is in that place by now, or there were candidates and the last
flow has still the same ends. -/
theorem commitKept_iff {expected : ExpectedSize} {seen : Selector}
    (hreach : Reachable expected seen) (requests : List Request) (index : Nat) :
    CommitKept seen (seen.serveAll requests) index ↔
      (seen.serveAll requests).candidates.generation ≠ seen.candidates.generation ∨
      (seen.serveAll requests).candidates.paths.length ≤ index ∨
      (seen.candidates.paths ≠ [] ∧ (seen.serveAll requests).endpoints = seen.endpoints) := by
  have hseen := hreach.consistent
  have hnow := (hreach.serveAll requests).consistent
  have hstill : (seen.serveAll requests).candidates.generation = seen.candidates.generation →
      (seen.serveAll requests).routing = seen.routing := by
    intro hsame
    rw [hnow.current, hseen.current] at hsame
    exact serveAll_routing seen requests hsame
  rw [commitKept_iff_paths_eq, commit_answer_iff]
  generalize seen.serveAll requests = now at hnow hstill
  constructor
  · intro hkept
    by_cases hgeneration : now.candidates.generation = seen.candidates.generation
    · by_cases hlt : index < now.candidates.paths.length
      · have hne := List.ne_nil_of_length_pos (Nat.zero_lt_of_lt hlt)
        have hpaths := hkept ⟨hgeneration, hlt⟩
        apply Or.inr
        apply Or.inr
        exact (hseen.paths_eq_iff hnow (hstill hgeneration) hne).mp hpaths
      · exact .inr (.inl (Nat.le_of_not_lt hlt))
    · exact .inl hgeneration
  · rintro hcases ⟨hgeneration, hlt⟩
    have hne := List.ne_nil_of_length_pos (Nat.zero_lt_of_lt hlt)
    rcases hcases with hother | hle | hflow
    · exact absurd hgeneration hother
    · omega
    · exact (hseen.paths_eq_iff hnow (hstill hgeneration) hne).mpr hflow

/-- The selector after the tangled report and a selection from the first switch to the fourth. -/
def tangled : Selector :=
  serveAll [.update Snapshot.tangle, .select ⟨1⟩ ⟨4⟩] { expected := ⟨5, 9⟩ }

theorem tangled_reachable : Reachable ⟨5, 9⟩ tangled :=
  Reachable.initial.serveAll _

/-- A second selection of the same flow and a commit of another place do not matter. -/
theorem commitKept_iff_tangled :
    CommitKept tangled
      (tangled.serveAll [.commit (some 1) 2, .select ⟨1⟩ ⟨4⟩, .start]) 1 :=
  (commitKept_iff tangled_reachable _ 1).mpr (.inr (.inr (by decide)))

/-- A selection from the second switch does: the commit is possible and makes a path active that was
not seen. -/
theorem commit_after_selection_not_kept :
    Reachable ⟨5, 9⟩ tangled ∧
    tangled.candidates.paths[0]? = some ⟨[⟨1⟩, ⟨2⟩, ⟨3⟩, ⟨4⟩]⟩ ∧
    ((tangled.serveAll [.select ⟨2⟩ ⟨4⟩]).commit 1 0).answer = true ∧
    ((tangled.serveAll [.select ⟨2⟩ ⟨4⟩]).commit 1 0).state.candidates.activePath? =
      some (0, ⟨[⟨2⟩, ⟨3⟩, ⟨4⟩]⟩) ∧
    ¬ CommitKept tangled (tangled.serveAll [.select ⟨2⟩ ⟨4⟩]) 0 := by
  refine ⟨tangled_reachable, by decide, by decide, by decide, ?_⟩
  intro hkept
  -- The candidates are others by now, so the commit should have been refused.
  have hrefused := hkept.refused (by decide)
  exact absurd hrefused (by decide)

end TrafficSteering.Selector
