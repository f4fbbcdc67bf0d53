import DeviceLink.Proofs.Stability

/-! A body that passes passes in the same way where more names are known, if what is left of it refers only to names
that were known before. -/

namespace DeviceLink

open Ir Fallible

namespace Ir

lemma Operand.withSymbol_self {v : Operand} {x : String} (h : v.symbol? = some x) : v.withSymbol x = v := by
  cases v with
  | global | function =>
    obtain rfl := Option.some.inj h
    rfl
  | _ => cases h

end Ir

namespace Verify

structure Scope.Extends (scope scope' : Scope) : Prop where
  space {x : String} {s : Space} (h : scope.space? x = some s) : scope'.space? x = some s
  params : scope'.params? = scope.params?

def Scope.Knows (scope : Scope) (v : Operand) : Prop := ∀ x, v.symbol? = some x → (scope.space? x).isSome = true

variable {rules : Rules} {scope : Scope} {facts : Facts} {i : Instr}

lemma operands_lower (h : ¬ ∃ r p space, i = .spaceTest r p space) : (facts.lower rules i).operands = i.operands := by
  cases i with
  | spaceTest r p space => exact absurd ⟨r, p, space, rfl⟩ h
  | spaceCast r p target t =>
    rw [Facts.lower]
    split <;> rfl
  | _ => rfl

section Keeps

lemma Keeps.of_knows (he : rules.scope.Extends scope) {v : Operand} (hv : rules.scope.Knows v) :
    Keeps rules { rules with scope } id v := by
  refine .of_symbol? (fun _ => rfl) fun x hx => ⟨x, (Operand.withSymbol_self hx).symm, ?_⟩
  obtain ⟨s, hs⟩ := Option.isSome_iff_exists.mp (hv x hx)
  exact (he.space hs).trans hs.symm

variable (hk : ∀ v ∈ i.operands, Keeps rules { rules with scope } id v)

include hk

lemma after_of_keeps : facts.after scope i = facts.after rules.scope i := by
  have h := after_mapOperands facts hk
  rwa [Instr.mapOperands_id] at h

lemma clash?_of_keeps (hp : scope.params? = rules.scope.params?) {result : Ty} :
    facts.clash? { rules with scope } result i = facts.clash? rules result i := by
  have hst : ∀ v ∈ i.operands, Facts.clash?.static facts { rules with scope } v = Facts.clash?.static facts rules v :=
    fun v hv => (hk v hv).static facts
  have hor : ∀ v ∈ i.operands, Facts.clash?.origin facts { rules with scope } v = Facts.clash?.origin facts rules v :=
    fun v hv => (hk v hv).origin facts
  cases i with
  | spaceCast r p target t =>
    have hs := (hk p List.mem_cons_self).source facts
    have ho := (hk p List.mem_cons_self).origin facts
    simp only [id_eq] at hs ho
    simp only [Facts.clash?, Facts.conversionClash?, hs, ho]
  | call r f args t =>
    simp only [Facts.clash?, hp, ← List.head?_filterMap]
    refine congrArg List.head? (List.filterMap_congr fun p hp => ?_)
    rw [hst p.1 (List.mem_cons_of_mem _ (List.of_mem_zip hp).1)]
  | phi r incoming t =>
    simp only [Facts.clash?, ← List.head?_filterMap]
    refine congrArg List.head? (List.filterMap_congr fun p hp => ?_)
    rw [hst p.1 (List.mem_map_of_mem hp)]
  | ret v =>
    cases v with
    | none => rfl
    | some v => simp only [Facts.clash?, hst v List.mem_cons_self]
  | element | cast | select | binary | store =>
    simp only [Instr.operands, List.forall_mem_cons] at hst hor
    simp only [Facts.clash?, hst, hor]
  | _ => rfl

end Keeps

section Extends

variable (he : rules.scope.Extends scope)

include he

lemma answer?_of_extends {v : Operand} {space : Space} {answer : Bool} (h : facts.answer? rules v space = some answer) :
    facts.answer? { rules with scope } v space = some answer := by
  cases v with
  | global x =>
    cases hx : rules.scope.space? x with
    | none =>
      have hs : space = .generic := by
        by_contra hs
        simp [Facts.answer?, hs, Facts.origin?, Facts.static?, Facts.address?, hx, Space.isSpecific] at h
      simpa [Facts.answer?, hs] using h
    | some s =>
      have hv : rules.scope.Knows (.global x) := by
        intro y hy
        obtain rfl : x = y := Option.some.inj hy
        simp [hx]
      exact ((Keeps.of_knows he hv).answer? facts rfl space).trans h
  | _ => exact h

lemma lower_of_extends (hk : ∀ v ∈ (facts.lower rules i).operands, rules.scope.Knows v) :
    facts.lower { rules with scope } i = facts.lower rules i := by
  cases i with
  | spaceCast r p target t =>
    have hp : rules.scope.Knows p := hk p (by rw [Facts.lower]; split <;> exact List.mem_cons_self)
    have hu : facts.isUnproven { rules with scope } p target = facts.isUnproven rules p target :=
      (Keeps.of_knows he hp).isUnproven facts target
    simp only [Facts.lower, hu]
  | spaceTest r p space =>
    cases ha : facts.answer? rules p space with
    | some answer => simp only [Facts.lower, ha, answer?_of_extends he ha]
    | none =>
      have hp : rules.scope.Knows p := hk p (by simp [Facts.lower, ha, Instr.operands])
      have hn : facts.answer? { rules with scope } p space = none :=
        ((Keeps.of_knows he hp).answer? facts rfl space).trans ha
      simp only [Facts.lower, ha, hn]
  | _ => rfl

variable {f : Function} {pass pass' : Pass}

lemma step_of_extends {j : Instr} (h : step rules f pass i = .ok (j, pass'))
    (hk : ∀ v ∈ j.operands, rules.scope.Knows v) : step { rules with scope } f pass i = .ok (j, pass') := by
  obtain ⟨_, rfl, _⟩ := of_step_eq_ok h
  have hl := lower_of_extends he hk
  -- a test is the one instruction whose operand may be gone, and neither of the other two looks at it
  have hsame : pass.facts.clash? { rules with scope } f.result i = pass.facts.clash? rules f.result i ∧
      pass.facts.after scope i = pass.facts.after rules.scope i := by
    by_cases ht : ∃ r p space, i = .spaceTest r p space
    · obtain ⟨r, p, space, rfl⟩ := ht
      exact ⟨rfl, rfl⟩
    · have hkeeps : ∀ v ∈ i.operands, Keeps rules { rules with scope } id v := by
        intro v hv
        apply Keeps.of_knows he
        apply hk
        rwa [operands_lower ht]
      exact ⟨clash?_of_keeps hkeeps he.params, after_of_keeps hkeeps⟩
  rw [← h, step, step, hl, hsame.1, hsame.2]

lemma walkCode_of_extends {code code' : List Instr} (h : walkCode rules f pass code = .ok (code', pass'))
    (hk : ∀ v ∈ code'.flatMap Instr.operands, rules.scope.Knows v) :
    walkCode { rules with scope } f pass code = .ok (code', pass') := by
  induction code generalizing code' pass with
  | nil => exact h
  | cons i rest ih =>
    obtain ⟨⟨j, pass₁⟩, hi, h⟩ := bind_eq_ok_iff.mp h
    obtain ⟨⟨rest', pass₂⟩, hr, h⟩ := bind_eq_ok_iff.mp h
    cases h
    rw [List.flatMap_cons, List.forall_mem_append] at hk
    exact bind_eq_ok_iff.mpr ⟨_, step_of_extends he hi hk.1, bind_eq_ok_iff.mpr ⟨_, ih hr hk.2, rfl⟩⟩

lemma walkBlocks_of_extends {blocks blocks' : List Block} (h : walkBlocks rules f pass blocks = .ok (blocks', pass'))
    (hk : ∀ b ∈ blocks', ∀ v ∈ b.code.flatMap Instr.operands, rules.scope.Knows v) :
    walkBlocks { rules with scope } f pass blocks = .ok (blocks', pass') := by
  induction blocks generalizing blocks' pass with
  | nil => exact h
  | cons b rest ih =>
    obtain ⟨⟨code, pass₁⟩, hc, h⟩ := bind_eq_ok_iff.mp h
    obtain ⟨⟨rest', pass₂⟩, hr, h⟩ := bind_eq_ok_iff.mp h
    cases h
    rw [List.forall_mem_cons] at hk
    exact bind_eq_ok_iff.mpr ⟨_, walkCode_of_extends he hc hk.1, bind_eq_ok_iff.mpr ⟨_, ih hr hk.2, rfl⟩⟩

lemma function_of_extends {v : Verified} (h : function rules f = .ok v)
    (hk : ∀ w ∈ v.function.code.flatMap Instr.operands, rules.scope.Knows w) :
    function { rules with scope } f = .ok v := by
  obtain ⟨⟨blocks, pass⟩, hb, h⟩ := bind_eq_ok_iff.mp h
  cases h
  refine bind_eq_ok_iff.mpr ⟨_, walkBlocks_of_extends he hb fun b hb w hw => hk w ?_, rfl⟩
  obtain ⟨i, hi, hw⟩ := List.mem_flatMap.mp hw
  exact List.mem_flatMap.mpr ⟨i, List.mem_flatMap.mpr ⟨b, hb, hi⟩, hw⟩

end Extends

lemma global_of_extends {scope' : Scope} (he : scope.Extends scope') {g : Global} (h : global scope g = .ok ())
    (hk : ∀ v ∈ g.initializer, scope.Knows v) : global scope' g = .ok () := by
  rw [global] at h ⊢
  cases hi : g.initializer with
  | none => rfl
  | some init =>
    cases init with
    | global x =>
      obtain ⟨s, hs⟩ := Option.isSome_iff_exists.mp (hk _ hi x rfl)
      simpa only [hi, hs, he.space hs] using h
    | _ => simpa only [hi] using h

end Verify

end DeviceLink
