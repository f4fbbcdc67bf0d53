import DeviceLink.Graph.Basic

namespace DeviceLink.Graph

def outside (g : Graph) (seen : List Node) : List Node := g.nodes.filter (· ∉ seen)

theorem length_outside_cons_lt (g : Graph) {seen : List Node} {n : Node} (hn : n ∈ g.nodes)
    (hs : n ∉ seen) : (g.outside (n :: seen)).length < (g.outside seen).length := by
  have hsub : g.outside (n :: seen) = (g.outside seen).filter (· ≠ n) := by
    simp only [outside, List.filter_filter]
    refine List.filter_congr fun m _ => ?_
    simp [not_or]
  rw [hsub]
  exact List.length_filter_lt_length_iff_exists.2 ⟨n, by simp [outside, hn, hs], by simp⟩

def search (g : Graph) (seen : List Node) : List Node → List Node
  | [] => seen
  | n :: rest =>
    if h : n ∈ g.nodes ∧ n ∉ seen then
      have := g.length_outside_cons_lt h.1 h.2
      search g (n :: seen) (g.successors n ++ rest)
    else search g seen rest
  termination_by work => ((g.outside seen).length, work.length)

def neededModules (g : Graph) (roots : List SymbolId) : List ModuleId :=
  let reached := g.search [] (roots.map .symbol)
  (List.range g.modules.length).filter fun owner =>
    g.symbols.zipIdx.any fun (s, id) => s.owner = owner && .symbol id ∈ reached

end DeviceLink.Graph
