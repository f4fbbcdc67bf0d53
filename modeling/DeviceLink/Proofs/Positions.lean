import DeviceLink.Proofs.Rewriting

/-! Verification reads a body as one piece of code: where its blocks begin and end decides nothing. So what holds of an
instruction of a body that passes is said by its position. What is known behind an instruction is what was known in
front of it, and the temporary that it defines. -/

namespace DeviceLink

def Ir.Instr.definition? : Instr → Option (Temp × Ty)
  | .binary r _ _ _ t | .load r _ t | .element r _ _ t | .alloca r _ _ t | .spaceCast r _ _ t | .checkedCast r _ _ t
  | .cast r _ t | .select r _ _ _ t | .phi r _ t => some (r, t)
  | .spaceTest r _ _ => some (r, .i1)
  | .call r _ _ t | .dispatch r _ _ _ t => r.map (·, t)
  | .store .. | .ret _ | .branch _ | .branchIf .. | .location _ | .comment _ => none

namespace Verify

open Fallible Ir

def Facts.given? (facts : Facts) (scope : Scope) : Instr → Option Space
  | .alloca .. => some .threadLocal
  | .element _ p _ _ | .cast _ p _ => facts.origin? scope p
  | .spaceCast _ p target _ => facts.convertedOrigin? scope p target
  | .checkedCast _ _ target _ => (some target).filter Space.isSpecific
  | .select _ _ a b _ => facts.commonOrigin? scope a b
  | .binary _ _ lhs rhs _ => facts.origin? scope lhs <|> facts.origin? scope rhs
  | _ => none

variable {rules : Rules} {f : Function} {pass pass' : Pass} {i j : Instr} {code code' : List Instr} {v : Verified}

/-- The same blocks with other code. Each block takes as many instructions as it had. -/
def refill : List Block → List Instr → List Block
  | [], _ => []
  | b :: rest, code => { b with code := code.take b.code.length } :: refill rest (code.drop b.code.length)

lemma code_refill {blocks : List Block} (h : code.length = (blocks.flatMap (·.code)).length) :
    (refill blocks code).flatMap (·.code) = code := by
  induction blocks generalizing code with
  | nil => exact (List.eq_nil_of_length_eq_zero h).symm
  | cons b rest ih =>
    rw [List.flatMap_cons, List.length_append] at h
    have hrest : (code.drop b.code.length).length = (rest.flatMap (·.code)).length := by
      rw [List.length_drop]
      omega
    rw [refill, List.flatMap_cons, ih hrest, List.take_append_drop]

lemma walkCode_append (rules : Rules) (f : Function) (pass : Pass) (code rest : List Instr) :
    walkCode rules f pass (code ++ rest) = (do
      let (code, pass) ← walkCode rules f pass code
      let (rest, pass) ← walkCode rules f pass rest
      return (code ++ rest, pass)) := by
  induction code generalizing pass with
  | nil => exact (bind_pure _).symm
  | cons i code ih => simp [walkCode, ih]

lemma walkBlocks_eq (rules : Rules) (f : Function) (pass : Pass) (blocks : List Block) :
    walkBlocks rules f pass blocks =
      (fun r => (refill blocks r.1, r.2)) <$> walkCode rules f pass (blocks.flatMap (·.code)) := by
  induction blocks generalizing pass with
  | nil => rfl
  | cons b rest ih =>
    rw [walkBlocks, List.flatMap_cons, walkCode_append]
    cases hb : walkCode rules f pass b.code with
    | error e => rfl
    | ok r =>
      obtain ⟨code, pass₁⟩ := r
      have hlen := (walkCode_rewrites hb).length
      cases hr : walkCode rules f pass₁ (rest.flatMap (·.code)) with
      | error e => simp [ih, hr, bind, Except.bind, Functor.map, Except.map]
      | ok r => simp [ih, hr, bind, Except.bind, Functor.map, Except.map, refill, ← hlen, pure, Except.pure]

def report (f : Function) (r : List Instr × Pass) : Verified where
  function := { f with blocks := refill f.blocks r.1 }
  runtimeChecks := r.2.checks
  foldedTests := r.2.folds

lemma function_eq (rules : Rules) (f : Function) :
    function rules f = report f <$> walkCode rules f { facts := .start f } f.code := by
  rw [function, walkBlocks_eq, Function.code]
  cases walkCode rules f { facts := .start f } (f.blocks.flatMap (·.code)) <;> rfl

lemma function_eq_ok_iff :
    function rules f = .ok v ↔ ∃ r, walkCode rules f { facts := .start f } f.code = .ok r ∧ report f r = v := by
  rw [function_eq]
  cases walkCode rules f { facts := .start f } f.code <;> simp [Functor.map, Except.map]

lemma code_report {r : List Instr × Pass} (h : walkCode rules f { facts := .start f } f.code = .ok r) :
    (report f r).function.code = r.1 :=
  code_refill (walkCode_rewrites h).length

section Position

variable {n : Nat}

lemma Facts.before_succ {scope : Scope} (hi : f.code[n]? = some i) :
    before scope f (n + 1) = (before scope f n).after scope i := by
  rw [before, List.take_add_one, hi, behind_append]
  rfl

lemma Facts.before_succ_of_none {scope : Scope} (hi : f.code[n]? = none) :
    before scope f (n + 1) = before scope f n := by
  rw [before, List.take_add_one, hi, Option.toList_none, List.append_nil, before]

lemma exists_step_of_walkCode (h : walkCode rules f pass code = .ok (code', pass')) (hi : code[n]? = some i) :
    ∃ pass₁ j pass₂, pass₁.facts = pass.facts.behind rules.scope (code.take n) ∧
      step rules f pass₁ i = .ok (j, pass₂) ∧ code'[n]? = some j := by
  -- the position is counted from the pass, so both move on together
  induction code generalizing pass code' n with
  | nil => cases hi
  | cons k rest ih =>
    obtain ⟨⟨l, pass₁⟩, hk, h⟩ := bind_eq_ok_iff.mp h
    obtain ⟨⟨rest', pass₂⟩, hr, h⟩ := bind_eq_ok_iff.mp h
    cases h
    cases n with
    | zero =>
      obtain rfl : k = i := Option.some.inj hi
      exact ⟨pass, l, pass₁, rfl, hk, rfl⟩
    | succ n =>
      obtain ⟨pass₃, j, pass₄, hfacts, hstep, hj⟩ := ih hr hi
      refine ⟨pass₃, j, pass₄, ?_, hstep, hj⟩
      rw [hfacts, (of_step_eq_ok hk).2.2]
      rfl

lemma exists_step_of_function (h : function rules f = .ok v) (hi : f.code[n]? = some i) :
    ∃ pass j pass', pass.facts = .before rules.scope f n ∧ step rules f pass i = .ok (j, pass') ∧
      v.function.code[n]? = some j := by
  obtain ⟨r, hw, rfl⟩ := function_eq_ok_iff.mp h
  rw [code_report hw]
  exact exists_step_of_walkCode hw hi

lemma clash?_before (h : function rules f = .ok v) (hi : f.code[n]? = some i) :
    (Facts.before rules.scope f n).clash? rules f.result i = none := by
  obtain ⟨pass, j, pass', hfacts, hstep, _⟩ := exists_step_of_function h hi
  rw [← hfacts]
  exact (of_step_eq_ok hstep).1

lemma getElem?_code_of_function (h : function rules f = .ok v) (n : Nat) :
    v.function.code[n]? = f.code[n]?.map ((Facts.before rules.scope f n).lower rules) := by
  cases hi : f.code[n]? with
  | none =>
    obtain ⟨r, hw, rfl⟩ := function_eq_ok_iff.mp h
    rw [code_report hw, Option.map_none, List.getElem?_eq_none_iff, (walkCode_rewrites hw).length]
    exact List.getElem?_eq_none_iff.mp hi
  | some i =>
    obtain ⟨pass, j, pass', hfacts, hstep, hj⟩ := exists_step_of_function h hi
    rw [hj, (of_step_eq_ok hstep).2.1, hfacts]
    rfl

end Position

lemma differ?_eq_none_iff {a b : Option Space} : differ? a b = none ↔ ∀ s t, a = some s → b = some t → s = t := by
  cases a <;> cases b <;> simp [differ?]

section Definition

variable {facts : Facts} {scope : Scope} {t : Temp} {type : Ty}

lemma after_eq_define (h : i.definition? = some (t, type)) :
    facts.after scope i = facts.define t type (facts.given? scope i) := by
  cases i with
  | call result | dispatch result =>
    cases result <;> cases h
    rfl
  | store | ret | branch | branchIf | location | comment => cases h
  | _ =>
    cases h
    rfl

lemma after_of_definition?_eq_none (h : i.definition? = none) :
    (facts.after scope i).types = facts.types ∧ (facts.after scope i).origins = facts.origins := by
  cases i with
  | call result | dispatch result =>
    cases result <;> cases h
    exact ⟨rfl, rfl⟩
  | store | ret | branch | branchIf | location | comment => exact ⟨rfl, rfl⟩
  | _ => cases h

end Definition

end Verify

end DeviceLink
