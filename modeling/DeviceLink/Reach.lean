import DeviceLink.Graph.Build
import DeviceLink.Loader
import DeviceLink.Verify

/-!
What a set of roots reaches. The walk takes nodes off a stack, marks each of them once, verifies the
definition of a marked symbol, and puts the successors on the stack. It ends at the first fault.
-/

namespace DeviceLink

open Ir (Module)

structure Marks where
  nodes : List Node := []
  deriving DecidableEq

namespace Marks

def contains (m : Marks) (n : Node) : Bool := n ∈ m.nodes

def mark (m : Marks) (n : Node) : Bool × Marks :=
  if m.contains n then (false, m) else (true, ⟨n :: m.nodes⟩)

def symbols (m : Marks) (g : Graph) : List SymbolId := g.symbolIds.filter fun id => m.contains (.symbol id)

def sites (m : Marks) (g : Graph) : List SiteId :=
  (List.range g.sites.length).filter fun id => m.contains (.dispatch id)

end Marks

inductive Body where
  | function (verified : Verify.Verified)
  | global (definition : Ir.Global)
  deriving DecidableEq

def Body.runtimeChecks : Body → Nat
  | .function v => v.runtimeChecks
  | .global _ => 0

structure Program where
  graph : Graph
  source : Source
  segments : SegmentMap := .standard
  strict : Bool := false

namespace Program

def scope (p : Program) (owner : ModuleId) (m : Module) : Verify.Scope where
  space? name := do
    let s ← p.graph.symbols[← p.graph.resolve? owner name]?
    return match s.kind with
      | .data => s.space
      | .function => .generic
  params? name := (m.function? name).map fun f => f.params.map (·.2)

def rules (p : Program) (owner : ModuleId) (m : Module) : Verify.Rules where
  scope := p.scope owner m
  segments := some p.segments
  strict := p.strict

def define (p : Program) (s : Symbol) (m : Module) : Except Fault Body :=
  let fail error := .error (.load (p.graph.moduleName s.owner) error)
  match s.kind with
  | .function =>
    match (m.function? s.name).filter fun f => !f.isDeclaration with
    | none => fail (.undefined s.name)
    | some f => do return .function (← Verify.function (p.rules s.owner m) f)
  | .data =>
    match m.global? s.name with
    | none => fail (.undefined s.name)
    | some g =>
      if g.space ≠ s.space then fail (.misplaced s.name s.space g.space)
      else do
        Verify.global (p.scope s.owner m) g
        return .global g

def materialize (p : Program) (l : Loader) (id : SymbolId) : Except Fault Body × Loader :=
  match p.graph.symbols[id]? with
  | none => (.error (.internal (.notLoaded (p.graph.qualifiedName id))), l)
  | some s =>
    let (m, l) := l.load p.source s.owner
    (m.bind (p.define s), l)

end Program

structure Walk where
  marks : Marks := {}
  bodies : List (SymbolId × Body) := []
  loader : Loader
  -- set by the first fault; nothing new is begun behind it
  cancelled : Bool := false
  faults : List Fault := []

namespace Walk

def claim (w : Walk) (n : Node) : Walk := { w with marks := (w.marks.mark n).2 }

def body? (w : Walk) (id : SymbolId) : Option Body := w.bodies.lookup id

def keep (w : Walk) (p : Program) (id : SymbolId) (body : Body) : Except Fault Unit × Walk :=
  match w.body? id with
  | some _ => (.error (.internal (.processedTwice (p.graph.qualifiedName id))), w)
  | none => (.ok (), { w with bodies := (id, body) :: w.bodies })

def visit (w : Walk) (p : Program) (n : Node) : Except Fault (List Node) × Walk :=
  match n with
  | .dispatch _ => (.ok (p.graph.successors n), w)
  | .symbol id =>
    match p.materialize w.loader id with
    | (.error fault, loader) => (.error fault, { w with loader })
    | (.ok body, loader) =>
      match keep { w with loader } p id body with
      | (.error fault, w) => (.error fault, w)
      | (.ok (), w) => (.ok (p.graph.successors n), w)

def fail (w : Walk) (fault : Fault) : Walk := { w with cancelled := true, faults := w.faults ++ [fault] }

def process (w : Walk) (p : Program) (n : Node) : List Node × Walk :=
  match w.visit p n with
  | (.ok next, w) => (next, w)
  | (.error fault, w) => ([], w.fail fault)

theorem claim_marks (w : Walk) {n : Node} (hn : w.marks.contains n = false) :
    (w.claim n).marks = ⟨n :: w.marks.nodes⟩ := by
  simp [claim, Marks.mark, hn]

theorem keep_marks (w : Walk) (p : Program) (id : SymbolId) (body : Body) :
    (w.keep p id body).2.marks = w.marks := by
  unfold keep
  split <;> rfl

theorem visit_marks (w : Walk) (p : Program) (n : Node) : (w.visit p n).2.marks = w.marks := by
  unfold visit
  split
  · rfl
  · split
    · rfl
    · rename_i id _ body loader _
      have h := keep_marks { w with loader } p id body
      split <;> simp_all

theorem process_marks (w : Walk) (p : Program) (n : Node) : (w.process p n).2.marks = w.marks := by
  have h := visit_marks w p n
  unfold process
  split <;> simp_all [fail]

def free (w : Walk) (p : Program) : List Node := p.graph.nodes.filter fun n => !w.marks.contains n

theorem free_claim (w : Walk) (p : Program) {n : Node} (hc : w.marks.contains n = false) :
    (w.claim n).free p = (w.free p).filter (· ≠ n) := by
  simp only [free, claim_marks w hc, List.filter_filter]
  refine List.filter_congr fun m _ => ?_
  by_cases hm : m = n <;> simp [Marks.contains, hm]

theorem length_free_process_lt (w : Walk) (p : Program) {n : Node} (hn : n ∈ p.graph.nodes)
    (hc : w.marks.contains n = false) :
    (((w.claim n).process p n).2.free p).length < (w.free p).length := by
  have hfree : ((w.claim n).process p n).2.free p = (w.free p).filter (· ≠ n) := by
    rw [free, process_marks]
    exact free_claim w p hc
  rw [hfree]
  have hmem : n ∈ w.free p := by simp [free, hn, hc]
  exact List.length_filter_lt_length_iff_exists.2 ⟨n, hmem, by simp⟩

/-- Works off a stack of nodes, until it is empty or the walk is cancelled. A node that was marked before
is dropped, and successors that are marked already are not put on the stack. -/
def run (p : Program) (w : Walk) : List Node → Walk
  | [] => w
  | n :: rest =>
    if w.cancelled then w
    else if h : n ∈ p.graph.nodes ∧ w.marks.contains n = false then
      have := length_free_process_lt w p h.1 h.2
      let next := (w.claim n).process p n
      run p next.2 (next.1.filter (fun m => !next.2.marks.contains m) ++ rest)
    else run p w rest
  termination_by work => ((w.free p).length, work.length)

end Walk

structure Reached where
  roots : List SymbolId
  marks : Marks
  bodies : List (SymbolId × Body)

namespace Reached

def isReached (r : Reached) (id : SymbolId) : Bool := r.marks.contains (.symbol id)

def isSiteReached (r : Reached) (id : SiteId) : Bool := r.marks.contains (.dispatch id)

def body? (r : Reached) (id : SymbolId) : Option Body := r.bodies.lookup id

def runtimeChecks (r : Reached) : Nat := (r.bodies.map fun b => b.2.runtimeChecks).foldr (· + ·) 0

end Reached

/-- Why a walk found nothing: the fault that cancelled it, and those that came in behind it. -/
structure Walk.Failure where
  first : Fault
  others : List Fault
  deriving DecidableEq

def Walk.Failure.faults (f : Walk.Failure) : List Fault := f.first :: f.others

def Walk.finish (w : Walk) (roots : List SymbolId) : Except Walk.Failure Reached :=
  match w.faults with
  | first :: others => .error { first, others }
  | [] => .ok { roots, marks := w.marks, bodies := w.bodies }

namespace Program

def loader (p : Program) : Loader := .ofNames (p.graph.modules.map (·.name))

def walk (p : Program) (roots : List SymbolId) : Walk :=
  Walk.run p { loader := p.loader } (roots.map .symbol)

def explore (p : Program) (roots : List SymbolId) : Except Walk.Failure Reached × Loader :=
  let w := p.walk roots
  (w.finish roots, w.loader)

def reach (p : Program) (roots : List SymbolId) : Except Fault Reached × Loader :=
  let (outcome, loader) := p.explore roots
  (outcome.mapError (·.first), loader)

end Program

end DeviceLink
