import Mathlib.Data.List.Basic
import Mathlib.Logic.Function.Iterate
import Mathlib.Logic.Relation
import PolicySchema.Hierarchy
import PolicySchema.Proofs.KeySet

/-!
# Closed hierarchies

A search goes only where paths lead to, and at each step what edges lead to from the keys that it
has found is found or pending (`Search.Explores`). So the closure of a graph gives each node the
keys that paths lead to (`edge_close_iff`), and a node has an edge to itself there exactly if it
lies on a cycle (`mem_loops_close_iff`).
-/

namespace PolicySchema.Graph

universe u

variable {κ : Type u} [Ord κ]

/-- An edge leads from the node `a` to the key `b`. -/
def Edge (g : Graph κ) (a b : κ) : Prop := ∃ s, g.find? a = some s ∧ s.contains b = true

variable {g : Graph κ} {a b k : κ}

private theorem contains_of_edge (h : g.Edge a b) : g.contains a = true := by
  obtain ⟨s, hs, -⟩ := h
  rw [Table.contains, hs]
  rfl

/-- The nodes with an edge to themselves are listed in ascending order. -/
theorem pairwise_loops (g : Graph κ) : g.loops.Pairwise fun a b ↦ compare a b = .lt :=
  List.pairwise_map.mpr (g.ascending.filter _)

private theorem Search.exists_iterate_step_eq [Std.TransOrd κ] (g : Graph κ) (s : Search κ) :
    ∃ n ≤ s.work g, (step g)^[n] s = ⟨s.finish g, []⟩ := by
  fun_induction finish g s with
  | case1 s hpending =>
    refine ⟨0, Nat.zero_le _, ?_⟩
    rw [← hpending]
    rfl
  | case2 s k rest hpending ih =>
    obtain ⟨n, hn, hsteps⟩ := ih
    have hlt := work_step_lt (g := g) hpending
    exact ⟨n + 1, by omega, hsteps⟩

variable [Std.LawfulEqOrd κ]

/-- The keys that edges lead to are listed. -/
theorem mem_edges_iff : b ∈ g.edges a ↔ g.Edge a b := by
  rw [edges, Edge]
  cases g.find? a with
  | none => simp
  | some s => simp [KeySet.mem_toList_iff]

/-- The nodes with an edge to themselves are listed. -/
theorem mem_loops_iff : k ∈ g.loops ↔ g.Edge k k := by
  simp [loops, Edge, Table.find?_eq_some_iff]

/-! ### Searches -/

/-- A search for what can be reached from a node goes only where paths lead to, and it has not
missed the end of an edge from the node or from a key that was found. -/
structure Search.Explores (s : Search κ) (g : Graph κ) (a : κ) : Prop where
  sound : ∀ k, s.found.contains k = true ∨ k ∈ s.pending → Relation.TransGen g.Edge a k
  complete : ∀ j k, j = a ∨ s.found.contains j = true → g.Edge j k →
    s.found.contains k = true ∨ k ∈ s.pending

namespace Search

private theorem explores_start (g : Graph κ) (a : κ) : (start g a).Explores g a := by
  have hpending (k : κ) : k ∈ (start g a).pending ↔ g.Edge a k := by
    rw [start, List.mem_reverse, mem_edges_iff]
  constructor
  · intro k hk
    exact .single ((hpending k).mp (hk.resolve_left KeySet.not_contains_empty))
  · intro j k hj hjk
    obtain rfl := hj.resolve_right KeySet.not_contains_empty
    exact .inr ((hpending k).mpr hjk)

variable [Std.TransOrd κ]

-- A step takes the next key from those that are pending. If it is new, it is found, and what edges
-- lead to from it is pending.
private theorem Explores.step {s : Search κ} (h : s.Explores g a) : (s.step g).Explores g a := by
  rw [Search.step]
  split
  · exact h
  · next k rest hpending =>
    have hk : Relation.TransGen g.Edge a k := h.sound k (.inr (by simp [hpending]))
    split
    · next hfound =>
      constructor
      · intro i hi
        apply h.sound
        rw [hpending]
        exact hi.imp_right (List.mem_cons_of_mem k)
      · intro i j hi hij
        have hj := h.complete i j hi hij
        rw [hpending, List.mem_cons] at hj
        rcases hj with hj | rfl | hj
        · exact .inl hj
        · exact .inl hfound
        · exact .inr hj
    · constructor
      · intro i hi
        rw [KeySet.contains_add, List.mem_append, List.mem_reverse, mem_edges_iff] at hi
        rcases hi with (hi | rfl) | hi | hi
        · exact h.sound i (.inl hi)
        · exact hk
        · exact hk.tail hi
        · exact h.sound i (.inr (by simp [hpending, hi]))
      · intro i j hi hij
        rw [KeySet.contains_add, List.mem_append, List.mem_reverse, mem_edges_iff]
        rw [KeySet.contains_add, ← or_assoc] at hi
        rcases hi with hi | rfl
        · have hj := h.complete i j hi hij
          rw [hpending, List.mem_cons] at hj
          rcases hj with hj | rfl | hj
          · exact .inl (.inl hj)
          · exact .inl (.inr rfl)
          · exact .inr (.inr hj)
        · exact .inr (.inl hij)

private theorem Explores.contains_finish_iff {s : Search κ} (h : s.Explores g a) :
    (s.finish g).contains b = true ↔ Relation.TransGen g.Edge a b := by
  fun_induction finish g s with
  | case1 s hpending =>
    have hcomplete (j k : κ) (hj : j = a ∨ s.found.contains j = true) (hjk : g.Edge j k) :
        s.found.contains k = true :=
      (h.complete j k hj hjk).resolve_right (by simp [hpending])
    constructor
    · intro hb
      exact h.sound b (.inl hb)
    · intro hpath
      induction hpath with
      | single hab => exact hcomplete a _ (.inl rfl) hab
      | tail _ hbc ih => exact hcomplete _ _ (.inr ih) hbc
  | case2 s k rest hpending ih => exact ih h.step

end Search

variable [Std.TransOrd κ]

/-- The reachable keys are those that a path of one or more edges leads to. -/
theorem contains_reachable_iff :
    (g.reachable a).contains b = true ↔ Relation.TransGen g.Edge a b :=
  (Search.explores_start g a).contains_finish_iff

/-! ### Closure -/

/-- The nodes of the closure are those of the graph, each with what is reachable from it. -/
theorem find?_close (g : Graph κ) (a : κ) :
    g.close.find? a = (g.find? a).map fun _ ↦ g.reachable a :=
  Table.find?_mapEntries ..

/-- In the closure of a graph an edge leads where a path leads in the graph. -/
theorem edge_close_iff : g.close.Edge a b ↔ Relation.TransGen g.Edge a b := by
  rw [← contains_reachable_iff, Edge, find?_close]
  constructor
  · rintro ⟨s, hs, hb⟩
    obtain ⟨-, -, rfl⟩ := Option.map_eq_some_iff.mp hs
    exact hb
  · intro hb
    obtain ⟨c, hac, -⟩ := Relation.TransGen.head'_iff.mp (contains_reachable_iff.mp hb)
    obtain ⟨s, hs, -⟩ := hac
    exact ⟨g.reachable a, by rw [hs]; rfl, hb⟩

/-- The nodes with an edge to themselves in the closure are those that lie on a cycle. -/
theorem mem_loops_close_iff : k ∈ g.close.loops ↔ Relation.TransGen g.Edge k k := by
  rw [mem_loops_iff, edge_close_iff]

private theorem close_close (g : Graph κ) : g.close.close = g.close := by
  have hedge : g.close.Edge = Relation.TransGen g.Edge := by
    funext a b
    exact propext edge_close_iff
  have hreachable (a : κ) : g.close.reachable a = g.reachable a := by
    apply KeySet.ext
    intro b
    rw [contains_reachable_iff, contains_reachable_iff, hedge, Relation.transGen_eq_self]
  apply Table.ext_find?
  intro a
  rw [find?_close, find?_close, Option.map_map]
  simp only [Function.comp_def, hreachable]

/-- The graph has the nodes of another one, and an edge wherever a path leads in the other. -/
structure IsClosureOf (closed g : Graph κ) : Prop where
  contains_eq : ∀ k, closed.contains k = g.contains k
  edge_iff : ∀ a b, closed.Edge a b ↔ Relation.TransGen g.Edge a b

private theorem isClosureOf_close (g : Graph κ) : g.close.IsClosureOf g := by
  refine ⟨fun k ↦ ?_, fun a b ↦ edge_close_iff⟩
  rw [Table.contains, find?_close, Option.isSome_map, Table.contains]

/-- Closing a graph comes to an end, as the search from each key does, and gives the closure of the
graph. Closing it once more changes nothing. The outcome is an error only if the graph has to be
acyclic, exactly if a key can reach itself, and lists the keys that can in ascending order. -/
theorem closeChecked_closes (g : Graph κ) (acyclic : Bool) :
    (∀ k, ∃ n ≤ (Search.start g k).work g,
      (Search.step g)^[n] (Search.start g k) = ⟨g.reachable k, []⟩) ∧
    (g.closeChecked acyclic).1.IsClosureOf g ∧
    (∀ again, ((g.closeChecked acyclic).1.closeChecked again).1 = (g.closeChecked acyclic).1) ∧
    ((g.closeChecked acyclic).2 = .ok () ↔
      acyclic = false ∨ ∀ k, ¬ Relation.TransGen g.Edge k k) ∧
    ∀ ks, (g.closeChecked acyclic).2 = .error ks →
      ks.Pairwise (fun a b ↦ compare a b = .lt) ∧
        ∀ k, k ∈ ks ↔ Relation.TransGen g.Edge k k := by
  have hloops : g.close.loops = [] ↔ ∀ k, ¬ Relation.TransGen g.Edge k k := by
    simp only [List.eq_nil_iff_forall_not_mem, mem_loops_close_iff]
  refine ⟨fun k ↦ Search.exists_iterate_step_eq g _, isClosureOf_close g, fun _ ↦ close_close g,
    ?_, fun ks hks ↦ ?_⟩
  · rw [closeChecked, ← hloops]
    cases acyclic <;> simp
  · rw [closeChecked] at hks
    split at hks
    · cases hks
      exact ⟨pairwise_loops g.close, fun k ↦ mem_loops_close_iff⟩
    · cases hks

/-- Two keys lead to each other, one leads to them, and one of them leads to a key that is no
node. -/
theorem closeChecked_closes_looping :
    let g : Graph String := Table.ofList
      [("a", .ofList ["b"]), ("b", .ofList ["a", "missing"]), ("c", .ofList ["a"])]
    (g.closeChecked true).2 = .error ["a", "b"] ∧
      (∀ k, k ∈ ["a", "b"] ↔ Relation.TransGen g.Edge k k) ∧
      Relation.TransGen g.Edge "c" "missing" := by
  intro g
  have herror : (g.closeChecked true).2 = .error ["a", "b"] := by decide +kernel
  obtain ⟨-, hclosure, -, -, hlisted⟩ := closeChecked_closes g true
  refine ⟨herror, (hlisted _ herror).2, (hclosure.edge_iff "c" "missing").mp ?_⟩
  exact ⟨.ofList ["a", "b", "missing"], by decide +kernel, by decide +kernel⟩

/-! ### Turning edges round -/

private theorem contains_reverse (g : Graph κ) (k : κ) : g.reverse.contains k = g.contains k := by
  simp [Table.contains, reverse, Table.find?_mapEntries]

/-- An edge of the turned graph leads from a node to one that has an edge to it. -/
theorem edge_reverse_iff : g.reverse.Edge a b ↔ g.contains a = true ∧ g.Edge b a := by
  have hends (s : KeySet κ) : g.reverse.find? a = some s → (s.contains b = true ↔ g.Edge b a) := by
    intro hs
    rw [reverse, Table.find?_mapEntries, Option.map_eq_some_iff] at hs
    obtain ⟨-, -, rfl⟩ := hs
    simp [KeySet.contains_ofList, Edge, Table.find?_eq_some_iff]
  rw [← contains_reverse, Table.contains, Option.isSome_iff_exists]
  constructor
  · rintro ⟨s, hs, hb⟩
    exact ⟨⟨s, hs⟩, (hends s hs).mp hb⟩
  · rintro ⟨⟨s, hs⟩, hba⟩
    exact ⟨s, hs, (hends s hs).mpr hba⟩

/-- A path of the turned graph leads from a node along a path to it. All other keys on the path are
nodes, since edges lead from them. -/
theorem transGen_reverse_iff :
    Relation.TransGen g.reverse.Edge a b ↔
      g.contains a = true ∧ Relation.TransGen g.Edge b a := by
  constructor
  · intro hpath
    induction hpath with
    | single hab =>
      obtain ⟨ha, hba⟩ := edge_reverse_iff.mp hab
      exact ⟨ha, .single hba⟩
    | tail _ hbc ih => exact ⟨ih.1, .head (edge_reverse_iff.mp hbc).2 ih.2⟩
  · rintro ⟨ha, hpath⟩
    induction hpath using Relation.TransGen.head_induction_on with
    | single hba => exact .single (edge_reverse_iff.mpr ⟨ha, hba⟩)
    | head hcb hba ih =>
      obtain ⟨d, hbd, -⟩ := Relation.TransGen.head'_iff.mp hba
      exact .tail ih (edge_reverse_iff.mpr ⟨contains_of_edge hbd, hcb⟩)

end PolicySchema.Graph
