import PolicySchema.Table

/-!
# Closing a hierarchy

A graph gives each of its nodes a set of edges, which may lead to keys that are no nodes. Its
closure gives each node the keys that can be reached from it by one or more edges. A node that can
reach itself lies on a cycle.

A search finds what can be reached from a key. It follows the edges of each key that it finds once,
so each step takes from the work that is left (`Search.work_step_lt`) and the search has an end.
-/

namespace PolicySchema

universe u

/-- A set of edges for each node. -/
abbrev Graph (κ : Type u) [Ord κ] := Table κ (KeySet κ)

namespace Graph

variable {κ : Type u} [Ord κ]

/-- The keys that edges lead to from a node. A key that is no node has none. -/
def edges (g : Graph κ) (k : κ) : List κ := ((g.find? k).map KeySet.toList).getD []

/-- A search of a graph: the keys that were found, and those that are still to be looked at, the
next one first. A key can be pending several times. -/
structure Search (κ : Type u) [Ord κ] where
  found : KeySet κ
  pending : List κ

namespace Search

/-- The search for what can be reached from a key. -/
def start (g : Graph κ) (k : κ) : Search κ := ⟨∅, (g.edges k).reverse⟩

/-- The number of edges from nodes that were not found, along the entries of a graph. -/
def unfollowed (found : KeySet κ) : List (κ × KeySet κ) → Nat
  | [] => 0
  | (k, ends) :: rest =>
    (if found.contains k then 0 else ends.toList.length) + unfollowed found rest

/-- The work that is left: the keys that are pending, and the edges that may still be followed. -/
def work (g : Graph κ) (s : Search κ) : Nat := s.pending.length + unfollowed s.found g.entries

variable [Std.TransOrd κ]

/-- Looks at the next key. Where it is new, it is found and the edges from it are followed. -/
def step (g : Graph κ) (s : Search κ) : Search κ :=
  match s.pending with
  | [] => s
  | k :: rest =>
    if s.found.contains k then ⟨s.found, rest⟩
    else ⟨s.found.add k, (g.edges k).reverse ++ rest⟩

private theorem unfollowed_add_le (found : KeySet κ) (k : κ) (entries : List (κ × KeySet κ)) :
    unfollowed (found.add k) entries ≤ unfollowed found entries := by
  induction entries with
  | nil => exact Nat.le_refl _
  | cons head rest ih =>
    simp only [unfollowed, KeySet.contains_add_iff]
    by_cases h : found.contains head.1 = true
    · simpa [h] using ih
    · simp only [h]
      split <;> simp <;> omega

private theorem unfollowed_add {found : KeySet κ} {k : κ} (h : found.contains k = false)
    (entries : List (κ × KeySet κ)) :
    (((Table.lookup? k entries).map KeySet.toList).getD []).length +
      unfollowed (found.add k) entries ≤ unfollowed found entries := by
  induction entries with
  | nil => simp [unfollowed, Table.lookup?]
  | cons head rest ih =>
    obtain ⟨j, ends⟩ := head
    simp only [unfollowed, Table.lookup?, KeySet.contains_add_iff]
    by_cases hj : compare k j = .eq
    · have hle := unfollowed_add_le found k rest
      have hfound : found.contains j = false := by
        rw [← h, Table.contains, Table.contains, Table.find?, Table.find?, Table.lookup?_congr hj]
      simp [hj, hfound, Std.OrientedCmp.eq_comm.mp hj]
      omega
    · have hj' : ¬ compare j k = .eq := fun hjk ↦ hj (Std.OrientedCmp.eq_comm.mp hjk)
      simp only [hj, hj', false_or, if_false]
      omega

/-- Each step takes from the work that is left. -/
theorem work_step_lt {g : Graph κ} {s : Search κ} {k : κ} {rest : List κ}
    (h : s.pending = k :: rest) : (s.step g).work g < s.work g := by
  simp only [step, work, h]
  split
  · simp
  · next hnew =>
    have hle := unfollowed_add (Bool.not_eq_true _ ▸ hnew) g.entries
    simp only [List.length_append, List.length_reverse, List.length_cons, edges, Table.find?]
    omega

/-- What a search has found when nothing is pending any more. -/
def finish (g : Graph κ) (s : Search κ) : KeySet κ :=
  match _h : s.pending with
  | [] => s.found
  | _ :: _ => finish g (s.step g)
termination_by s.work g
decreasing_by exact work_step_lt _h

end Search

/-- The keys that can be reached from a key by one or more edges. -/
def reachable [Std.TransOrd κ] (g : Graph κ) (k : κ) : KeySet κ := (Search.start g k).finish g

/-- The graph in which each node has an edge to every key that it can reach. -/
def close [Std.TransOrd κ] (g : Graph κ) : Graph κ := g.mapEntries fun k _ ↦ g.reachable k

/-- The nodes with an edge to themselves, in ascending order. -/
def loops (g : Graph κ) : List κ :=
  (g.entries.filter fun (k, edges) ↦ edges.contains k).map Prod.fst

/-- Closes a graph. If it has to be acyclic, the outcome is an error with the nodes that lie on a
cycle where there are any, and the graph is closed all the same. -/
def closeChecked [Std.TransOrd κ] (g : Graph κ) (acyclic : Bool) :
    Graph κ × Except (List κ) Unit :=
  let closed := g.close
  (closed, if acyclic && !closed.loops.isEmpty then .error closed.loops else .ok ())

/-- The graph with every edge turned round. Edges from keys that are no nodes are dropped. -/
def reverse [Std.TransOrd κ] (g : Graph κ) : Graph κ :=
  g.mapEntries fun k _ ↦
    KeySet.ofList ((g.entries.filter fun (_, edges) ↦ edges.contains k).map Prod.fst)

end Graph

/-- Keys in backquotes with commas between them. -/
def backquoted (texts : List String) : String :=
  ", ".intercalate (texts.map fun t ↦ "`" ++ t ++ "`")

/-- The message for a graph with a cycle through the given nodes. -/
def cycleMessage (nodes : List String) : String :=
  "input graph has a cycle through " ++ backquoted nodes

end PolicySchema
