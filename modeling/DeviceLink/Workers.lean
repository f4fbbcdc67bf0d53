import DeviceLink.Reach

/-!
A walk that is shared by several workers. A task belongs to one node that was marked when the task was
spawned; it visits the node and then spawns a task for each successor that is still free. Tasks take
turns in any order.
-/

namespace DeviceLink

structure Workers where
  shared : Walk
  spawned : List Node := []
  -- tasks that were begun before the walk was cancelled and have not visited their node yet
  entered : List Node := []
  running : List (List Node) := []

namespace Workers

def start (p : Program) (roots : List SymbolId) : Workers :=
  { shared := { loader := p.loader }, running := [roots.map .symbol] }

def settle (s : Workers) (p : Program) (n : Node) : Workers :=
  let next := s.shared.process p n
  { s with shared := next.2, running := next.1 :: s.running }

def offer (s : Workers) (n : Node) : Workers :=
  if s.shared.cancelled || s.shared.marks.contains n then s
  else { s with shared := s.shared.claim n, spawned := n :: s.spawned }

inductive Step (p : Program) : Workers → Option Node → Workers → Prop
  | drop {s : Workers} {before after : List Node} {n : Node}
      (hs : s.spawned = before ++ n :: after) (hc : s.shared.cancelled = true) :
      Step p s none { s with spawned := before ++ after }
  | start {s : Workers} {before after : List Node} {n : Node}
      (hs : s.spawned = before ++ n :: after) (hc : s.shared.cancelled = false) :
      Step p s (some n) (settle { s with spawned := before ++ after } p n)
  -- a task may also be held up between its look at the cancellation and its visit
  | enter {s : Workers} {before after : List Node} {n : Node}
      (hs : s.spawned = before ++ n :: after) (hc : s.shared.cancelled = false) :
      Step p s none { s with spawned := before ++ after, entered := n :: s.entered }
  | resume {s : Workers} {before after : List Node} {n : Node}
      (hs : s.entered = before ++ n :: after) :
      Step p s (some n) (settle { s with entered := before ++ after } p n)
  | advance {s : Workers} {before after : List (List Node)} {n : Node} {rest : List Node}
      (hs : s.running = before ++ (n :: rest) :: after) :
      Step p s none (offer { s with running := before ++ rest :: after } n)
  | finish {s : Workers} {before after : List (List Node)}
      (hs : s.running = before ++ [] :: after) :
      Step p s none { s with running := before ++ after }

inductive Run (p : Program) : Workers → List Node → Workers → Prop
  | refl (s : Workers) : Run p s [] s
  | tail {s t u : Workers} {visited : List Node} {n : Option Node}
      (hr : Run p s visited t) (hs : Step p t n u) : Run p s (n.toList ++ visited) u

def Idle (s : Workers) : Prop := s.spawned = [] ∧ s.entered = [] ∧ s.running = []

end Workers

/-- How a walk may end, with its loader, whether one worker goes it or several do. -/
inductive Program.Explores (p : Program) (roots : List SymbolId) : Except Walk.Failure Reached × Loader → Prop
  | alone : p.Explores roots (p.explore roots)
  | shared {visited : List Node} {s : Workers} (hr : Workers.Run p (.start p roots) visited s) (hi : s.Idle) :
      p.Explores roots (s.shared.finish roots, s.shared.loader)

def Program.Finds (p : Program) (roots : List SymbolId) (r : Reached) : Prop := ∃ l, p.Explores roots (.ok r, l)

structure Strategy where
  explore : Program → List SymbolId → Except Walk.Failure Reached × Loader
  explores (p : Program) (roots : List SymbolId) : p.Explores roots (explore p roots)

def Strategy.alone : Strategy := ⟨Program.explore, fun _ _ => .alone⟩

end DeviceLink
