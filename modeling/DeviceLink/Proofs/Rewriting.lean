import DeviceLink.Proofs.Ordered
import DeviceLink.Proofs.Verify

/-! A body that passes verification stays as it is, but for two kinds of instructions. A conversion that nothing
proves gets its test, a test with a known answer becomes the answer, and each kind is counted. -/

namespace DeviceLink.Verify

open Fallible Ir

namespace Facts

def behind (facts : Facts) (scope : Scope) (code : List Instr) : Facts := code.foldl (·.after scope ·) facts

def before (scope : Scope) (f : Function) (n : Nat) : Facts := (start f).behind scope (f.code.take n)

def Settled (facts : Facts) (scope : Scope) (v : Operand) (target : Space) : Prop :=
  facts.source scope v = target ∨
    (facts.source scope v ≠ .generic ∧ target = .generic) ∨
    (facts.source scope v = .generic ∧ target ≠ .generic ∧ facts.origin? scope v = some target)

end Facts

inductive Change (facts : Facts) (rules : Rules) : Instr → Instr → Prop
  | keep (i : Instr) : Change facts rules i i
  | check {result : Temp} {v : Operand} {target : Space} {type : Ty}
      (hs : facts.static? rules.scope v = none ∨ facts.static? rules.scope v = some .generic)
      (ho : facts.origin? rules.scope v = none) (ht : target.isSpecific = true) :
      Change facts rules (.spaceCast result v target type) (.checkedCast result v target type)
  | fold {result : Temp} {v : Operand} {space : Space} {answer : Bool}
      (ha : facts.answer? rules v space = some answer) :
      Change facts rules (.spaceTest result v space) (folded result answer)

def isCheck : Instr → Instr → Bool
  | .spaceCast .., .checkedCast .. => true
  | _, _ => false

def isFold : Instr → Instr → Bool
  | .spaceTest .., .cast .. => true
  | _, _ => false

section Step

variable {rules : Rules} {f : Function} {pass pass' : Pass} {facts : Facts} {i j : Instr}

lemma isUnproven_eq_true_iff {v : Operand} {target : Space} :
    facts.isUnproven rules v target = true ↔
      (facts.static? rules.scope v = none ∨ facts.static? rules.scope v = some .generic) ∧
        facts.origin? rules.scope v = none ∧ target.isSpecific = true := by
  have hs : facts.source rules.scope v = .generic ↔
      facts.static? rules.scope v = none ∨ facts.static? rules.scope v = some .generic := by
    unfold Facts.source
    cases facts.static? rules.scope v <;> simp
  simp only [Facts.isUnproven, Space.isSpecific, Bool.and_eq_true, decide_eq_true_eq, Option.isNone_iff_eq_none, hs]
  tauto

lemma change_lower (facts : Facts) (rules : Rules) (i : Instr) : Change facts rules i (facts.lower rules i) := by
  cases i with
  | spaceCast r v target t =>
    cases hu : facts.isUnproven rules v target with
    | false => simpa [Facts.lower, hu] using Change.keep _
    | true =>
      obtain ⟨hs, ho, ht⟩ := isUnproven_eq_true_iff.mp hu
      simpa [Facts.lower, hu] using Change.check hs ho ht
  | spaceTest r v space =>
    cases ha : facts.answer? rules v space with
    | none => simpa [Facts.lower, ha] using Change.keep _
    | some answer => simpa [Facts.lower, ha] using Change.fold ha
  | _ => exact .keep _

lemma settled_of_conversionClash? {v : Operand} {target : Space}
    (hc : facts.conversionClash? rules v target = none) (hu : facts.isUnproven rules v target = false) :
    facts.Settled rules.scope v target := by
  simp only [Facts.conversionClash?] at hc
  simp only [Facts.isUnproven] at hu
  unfold Facts.Settled
  grind

lemma settled_of_step {r : Temp} {v : Operand} {target : Space} {t : Ty}
    (h : step rules f pass i = .ok (.spaceCast r v target t, pass')) : pass.facts.Settled rules.scope v target := by
  obtain ⟨hc, hj, _⟩ := of_step_eq_ok h
  -- nothing becomes an unchecked conversion, so the instruction was this one
  cases i with
  | spaceCast r' v' target' t' =>
    cases hu : pass.facts.isUnproven rules v' target' with
    | true => simp [Facts.lower, hu] at hj
    | false =>
      rw [Facts.lower, hu] at hj
      cases hj
      exact settled_of_conversionClash? hc hu
  | spaceTest r' v' space => cases ha : pass.facts.answer? rules v' space <;> simp [Facts.lower, folded, ha] at hj
  | _ => simp [Facts.lower] at hj

lemma counts_of_step (h : step rules f pass i = .ok (j, pass')) :
    pass'.checks = pass.checks + (if isCheck i j then 1 else 0) ∧
      pass'.folds = pass.folds + (if isFold i j then 1 else 0) := by
  unfold step at h
  split at h
  · cases h
  · dsimp only at h
    split at h
    · rename_i hl
      cases h
      rw [hl]
      exact ⟨rfl, rfl⟩
    · rename_i hl
      cases h
      rw [hl]
      exact ⟨rfl, rfl⟩
    · cases h
      unfold isCheck isFold
      split <;> split <;> simp_all

end Step

section Run

variable {rules : Rules} {f : Function} {pass pass₁ pass₂ : Pass} {code code' rest rest' : List Instr}

lemma Facts.behind_append (facts : Facts) (scope : Scope) (code rest : List Instr) :
    facts.behind scope (code ++ rest) = (facts.behind scope code).behind scope rest :=
  List.foldl_append

structure Rewrites (rules : Rules) (pass pass' : Pass) (code code' : List Instr) : Prop where
  facts : pass'.facts = pass.facts.behind rules.scope code
  length : code'.length = code.length
  change {n : Nat} {i j : Instr} (hi : code[n]? = some i) (hj : code'[n]? = some j) :
    Change (pass.facts.behind rules.scope (code.take n)) rules i j
  settled {n : Nat} {r : Temp} {v : Operand} {target : Space} {t : Ty}
    (hj : code'[n]? = some (.spaceCast r v target t)) :
    (pass.facts.behind rules.scope (code.take n)).Settled rules.scope v target
  checks : pass'.checks = pass.checks + (code.zip code').countP fun p => isCheck p.1 p.2
  folds : pass'.folds = pass.folds + (code.zip code').countP fun p => isFold p.1 p.2

namespace Rewrites

lemma nil (rules : Rules) (pass : Pass) : Rewrites rules pass pass [] [] :=
  ⟨rfl, rfl, nofun, nofun, rfl, rfl⟩

lemma single {i j : Instr} (h : step rules f pass i = .ok (j, pass₁)) : Rewrites rules pass pass₁ [i] [j] := by
  obtain ⟨_, hj, hfacts⟩ := of_step_eq_ok h
  obtain ⟨hchecks, hfolds⟩ := counts_of_step h
  refine ⟨hfacts, rfl, fun {n k l} hk hl => ?_, fun {n r v target t} hl => ?_, ?_, ?_⟩
  · cases n with
    | zero =>
      obtain rfl : i = k := by simpa using hk
      obtain rfl : j = l := by simpa using hl
      rw [hj]
      exact change_lower _ _ _
    | succ n => simp at hk
  · cases n with
    | zero =>
      obtain rfl : j = .spaceCast r v target t := by simpa using hl
      exact settled_of_step h
    | succ n => simp at hl
  · rw [hchecks, List.zip_cons_cons, List.zip_nil_left, List.countP_singleton]
  · rw [hfolds, List.zip_cons_cons, List.zip_nil_left, List.countP_singleton]

lemma append (h : Rewrites rules pass pass₁ code code') (h' : Rewrites rules pass₁ pass₂ rest rest') :
    Rewrites rules pass pass₂ (code ++ rest) (code' ++ rest') := by
  have hlow {n : Nat} (hn : n < code.length) :
      pass.facts.behind rules.scope ((code ++ rest).take n) = pass.facts.behind rules.scope (code.take n) := by
    rw [List.take_append_of_le_length (Nat.le_of_lt hn)]
  have hhigh {n : Nat} (hn : code.length ≤ n) :
      pass.facts.behind rules.scope ((code ++ rest).take n) =
        pass₁.facts.behind rules.scope (rest.take (n - code.length)) := by
    rw [List.take_append, List.take_of_length_le hn, Facts.behind_append, h.facts]
  have hzip : (code ++ rest).zip (code' ++ rest') = code.zip code' ++ rest.zip rest' := List.zip_append h.length.symm
  refine ⟨?_, ?_, fun {n i j} hi hj => ?_, fun {n r v target t} hj => ?_, ?_, ?_⟩
  · rw [h'.facts, h.facts, Facts.behind_append]
  · rw [List.length_append, List.length_append, h.length, h'.length]
  · rcases Nat.lt_or_ge n code.length with hn | hn
    · rw [List.getElem?_append_left hn] at hi
      rw [List.getElem?_append_left (h.length ▸ hn)] at hj
      rw [hlow hn]
      exact h.change hi hj
    · rw [List.getElem?_append_right hn] at hi
      rw [List.getElem?_append_right (h.length ▸ hn), h.length] at hj
      rw [hhigh hn]
      exact h'.change hi hj
  · rcases Nat.lt_or_ge n code.length with hn | hn
    · rw [List.getElem?_append_left (h.length ▸ hn)] at hj
      rw [hlow hn]
      exact h.settled hj
    · rw [List.getElem?_append_right (h.length ▸ hn), h.length] at hj
      rw [hhigh hn]
      exact h'.settled hj
  · rw [hzip, List.countP_append, h'.checks, h.checks, Nat.add_assoc]
  · rw [hzip, List.countP_append, h'.folds, h.folds, Nat.add_assoc]

end Rewrites

lemma walkCode_rewrites (h : walkCode rules f pass code = .ok (code', pass₁)) :
    Rewrites rules pass pass₁ code code' := by
  induction code generalizing code' pass with
  | nil =>
    cases h
    exact .nil rules _
  | cons i rest ih =>
    obtain ⟨⟨j, pass₂⟩, hi, h⟩ := bind_eq_ok_iff.mp h
    obtain ⟨⟨rest', pass₃⟩, hr, h⟩ := bind_eq_ok_iff.mp h
    cases h
    exact (Rewrites.single hi).append (ih hr)

lemma walkBlocks_rewrites {blocks blocks' : List Block} (h : walkBlocks rules f pass blocks = .ok (blocks', pass₁)) :
    Rewrites rules pass pass₁ (blocks.flatMap (·.code)) (blocks'.flatMap (·.code)) ∧
      blocks'.map (fun b => (b.id, b.code.length)) = blocks.map fun b => (b.id, b.code.length) := by
  induction blocks generalizing blocks' pass with
  | nil =>
    cases h
    exact ⟨.nil rules _, rfl⟩
  | cons b rest ih =>
    obtain ⟨⟨code, pass₂⟩, hc, h⟩ := bind_eq_ok_iff.mp h
    obtain ⟨⟨rest', pass₃⟩, hr, h⟩ := bind_eq_ok_iff.mp h
    cases h
    have hcode := walkCode_rewrites hc
    obtain ⟨hrest, hshape⟩ := ih hr
    refine ⟨hcode.append hrest, ?_⟩
    rw [List.map_cons, List.map_cons, hshape, hcode.length]

lemma function_rewrites {v : Verified} (h : function rules f = .ok v) :
    ∃ pass, Rewrites rules { facts := .start f } pass f.code v.function.code ∧ pass.checks = v.runtimeChecks ∧
      pass.folds = v.foldedTests ∧
      v.function.blocks.map (fun b => (b.id, b.code.length)) = f.blocks.map fun b => (b.id, b.code.length) := by
  obtain ⟨⟨blocks, pass⟩, hb, h⟩ := bind_eq_ok_iff.mp h
  cases h
  obtain ⟨hr, hs⟩ := walkBlocks_rewrites hb
  exact ⟨pass, hr, rfl, rfl, hs⟩

end Run

def probe : Function where
  name := "probe"
  result := .void
  params := [(0, .ptr .i8 .generic)]
  blocks := [
    ⟨0, [.alloca 1 .i8 none (.ptr .i8 .threadLocal), .spaceCast 2 (.temp 1) .generic (.ptr .i8 .generic),
      .spaceCast 3 (.temp 2) .threadLocal (.ptr .i8 .threadLocal), .branch 1]⟩,
    ⟨1, [.spaceCast 4 (.temp 0) .shared (.ptr .i8 .shared), .spaceTest 5 (.temp 4) .shared,
      .spaceTest 6 (.temp 0) .shared, .ret none]⟩]

end DeviceLink.Verify
