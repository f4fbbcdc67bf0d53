import DeviceLink.Fault

/-!
Verification of address spaces. One pass over a body keeps, for every temporary, the type it was
defined with and its origin: the memory it is known to point into. At each instruction the pass asks
three things of what it knows so far: whether two spaces clash (`clash?`), what the instruction
becomes (`lower`), and what is known behind it (`after`). Only the first can fail.
-/

namespace DeviceLink.Verify

open Ir

structure Scope where
  space? : String → Option Space
  params? : String → Option (List Ty) := fun _ => none

structure Rules where
  scope : Scope
  segments : Option SegmentMap := none
  strict : Bool := false

/-- What is known at a point of a body. The latest entry of a temporary counts. -/
structure Facts where
  types : List (Temp × Ty) := []
  origins : List (Temp × Space) := []
  place : Option Location := none

def differ? : Option Space → Option Space → Option (Space × Space)
  | some s, some t => if s = t then none else some (s, t)
  | _, _ => none

def folded (result : Temp) (answer : Bool) : Instr := .cast result (.constant (if answer then 1 else 0)) .i1

namespace Facts

/-- A new temporary. If nothing is known of its origin, its type may still say where it points; if that
does not either, an earlier origin stays. -/
def define (facts : Facts) (t : Temp) (type : Ty) (origin : Option Space) : Facts :=
  { facts with
    types := (t, type) :: facts.types
    origins := (origin <|> type.specific?).toList.map (t, ·) ++ facts.origins }

def type? (facts : Facts) (t : Temp) : Option Ty := facts.types.lookup t

def static? (facts : Facts) (scope : Scope) : Operand → Option Space
  | .temp t => (facts.type? t).bind Ty.space?
  | .global name => some ((scope.space? name).getD .generic)
  | .function _ => some .generic
  | .null s => some s
  | _ => none

def origin? (facts : Facts) (scope : Scope) : Operand → Option Space
  | .temp t => facts.origins.lookup t
  | .global name => (scope.space? name).filter Space.isSpecific
  | _ => none

def pointee? (facts : Facts) : Operand → Option Space
  | .temp t => ((facts.type? t).bind Ty.element?).bind Ty.space?
  | _ => none

def source (facts : Facts) (scope : Scope) (v : Operand) : Space := (facts.static? scope v).getD .generic

/-- A conversion stays in its space, leads into the generic space, or leads out of it to the origin
of the address. Where the origin is not known, strict mode refuses. -/
def conversionClash? (facts : Facts) (rules : Rules) (v : Operand) (target : Space) :
    Option (Space × Space) :=
  let source := facts.source rules.scope v
  if source = target then none
  else if target = .generic then none
  else if source = .generic then
    match facts.origin? rules.scope v with
    | some origin => if origin = target then none else some (origin, target)
    | none => if rules.strict then some (source, target) else none
  else some (source, target)

def clash? (facts : Facts) (rules : Rules) (result : Ty) : Instr → Option (Space × Space)
  | .alloca _ _ _ t => differ? (some .threadLocal) t.space?
  | .element _ p _ t => differ? (static p) t.space?
  | .cast _ v t => differ? (static v) t.space? <|> differ? (origin v) t.specific?
  | .load _ p t => differ? (facts.pointee? p) t.space?
  | .store v p => differ? (static v) (facts.pointee? p)
  | .spaceCast _ p target _ => facts.conversionClash? rules p target
  | .select _ _ a b t => differ? (static a) (static b) <|> differ? (static a <|> static b) t.space?
  | .phi _ incoming t => incoming.findSome? fun p => differ? (static p.1) t.space?
  | .ret (some v) => differ? (static v) result.space?
  | .binary _ _ lhs rhs t =>
    differ? (static lhs) t.space? <|> differ? (static rhs) t.space? <|>
      differ? (origin lhs <|> origin rhs) t.specific?
  | .call _ f args _ =>
    let params := (f.symbol?.bind rules.scope.params?).getD []
    (args.zip params).findSome? fun p => differ? (static p.1) p.2.space?
  | _ => none
where
  static := facts.static? rules.scope
  origin := facts.origin? rules.scope

def isUnproven (facts : Facts) (rules : Rules) (v : Operand) (target : Space) : Bool :=
  facts.source rules.scope v = .generic && target ≠ .generic && (facts.origin? rules.scope v).isNone

def address? : Operand → Option UInt64
  | .null _ => some 0
  | .constant n => some n.toUInt64
  | _ => none

def answer? (facts : Facts) (rules : Rules) (v : Operand) (space : Space) : Option Bool :=
  if space = .generic then some true
  else
    ((facts.origin? rules.scope v <|> (facts.static? rules.scope v).filter Space.isSpecific).map
        fun known => (known = space : Bool)) <|>
      (do return (← rules.segments).isIn (← address? v) space)

def lower (facts : Facts) (rules : Rules) : Instr → Instr
  | .spaceCast r p target t =>
    if facts.isUnproven rules p target then .checkedCast r p target t else .spaceCast r p target t
  | .spaceTest r p space =>
    match facts.answer? rules p space with
    | some answer => folded r answer
    | none => .spaceTest r p space
  | i => i

def convertedOrigin? (facts : Facts) (scope : Scope) (v : Operand) (target : Space) : Option Space :=
  if target = .generic then
    (facts.origin? scope v <|> some (facts.source scope v)).filter Space.isSpecific
  else some target

def commonOrigin? (facts : Facts) (scope : Scope) (a b : Operand) : Option Space :=
  match facts.origin? scope a, facts.origin? scope b with
  | some s, some t => if s = t then some s else none
  | _, _ => none

def after (facts : Facts) (scope : Scope) : Instr → Facts
  | .location place => { facts with place := some place }
  | .alloca r _ _ t => facts.define r t (some .threadLocal)
  | .element r p _ t => facts.define r t (facts.origin? scope p)
  | .cast r v t => facts.define r t (facts.origin? scope v)
  | .load r _ t => facts.define r t none
  | .spaceCast r p target t => facts.define r t (facts.convertedOrigin? scope p target)
  | .checkedCast r _ target t => facts.define r t ((some target).filter Space.isSpecific)
  | .spaceTest r _ _ => facts.define r .i1 none
  | .select r _ a b t => facts.define r t (facts.commonOrigin? scope a b)
  | .phi r _ t => facts.define r t none
  | .binary r _ lhs rhs t => facts.define r t (facts.origin? scope lhs <|> facts.origin? scope rhs)
  | .call (some r) _ _ t => facts.define r t none
  | .dispatch (some r) _ _ _ t => facts.define r t none
  | _ => facts

def start (f : Function) : Facts :=
  f.params.foldl (fun facts p => facts.define p.1 p.2 none) { place := f.place }

end Facts

structure Pass where
  facts : Facts
  checks : Nat := 0
  folds : Nat := 0

def step (rules : Rules) (f : Function) (pass : Pass) (i : Instr) : Except Fault (Instr × Pass) :=
  match pass.facts.clash? rules f.result i with
  | some (source, target) =>
    .error (.invalidCast (pass.facts.place.getD .unknown) f.name source target)
  | none =>
    let lowered := pass.facts.lower rules i
    let pass := { pass with facts := pass.facts.after rules.scope i }
    match i, lowered with
    | .spaceCast .., .checkedCast .. => .ok (lowered, { pass with checks := pass.checks + 1 })
    | .spaceTest .., .cast .. => .ok (lowered, { pass with folds := pass.folds + 1 })
    | _, _ => .ok (lowered, pass)

def walkCode (rules : Rules) (f : Function) (pass : Pass) : List Instr → Except Fault (List Instr × Pass)
  | [] => .ok ([], pass)
  | i :: rest => do
    let (i, pass) ← step rules f pass i
    let (rest, pass) ← walkCode rules f pass rest
    return (i :: rest, pass)

def walkBlocks (rules : Rules) (f : Function) (pass : Pass) : List Block → Except Fault (List Block × Pass)
  | [] => .ok ([], pass)
  | b :: rest => do
    let (code, pass) ← walkCode rules f pass b.code
    let (rest, pass) ← walkBlocks rules f pass rest
    return ({ b with code } :: rest, pass)

structure Verified where
  function : Function
  runtimeChecks : Nat
  foldedTests : Nat
  deriving DecidableEq

def function (rules : Rules) (f : Function) : Except Fault Verified := do
  let (blocks, pass) ← walkBlocks rules f { facts := .start f } f.blocks
  return { function := { f with blocks }, runtimeChecks := pass.checks, foldedTests := pass.folds }

def global (scope : Scope) (g : Global) : Except Fault Unit :=
  match g.initializer with
  | none => .ok ()
  | some init =>
    if g.space = .shared then .error (.sharedInitializer g.name)
    else
      match init with
      | .global name =>
        match differ? (scope.space? name) g.type.space? with
        | some (source, target) => .error (.invalidCast .unknown g.name source target)
        | none => .ok ()
      | _ => .ok ()

end DeviceLink.Verify
