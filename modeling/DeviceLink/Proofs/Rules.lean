import DeviceLink.Proofs.Positions

/-! What the rules of a verification decide. Strict rules refuse exactly the bodies that need a test when they run. The
segments decide the answers of tests on known addresses, and nothing else. -/

namespace DeviceLink.Verify

open Fallible Ir

variable {rules : Rules} {scope : Scope} {segments segments' : Option SegmentMap} {strict : Bool} {f : Function}
  {facts : Facts} {pass pass' : Pass} {i j : Instr} {code code' : List Instr}

def Facts.needsTest (facts : Facts) (scope : Scope) : Instr → Bool
  | .spaceCast _ v target _ => facts.isUnproven { scope } v target
  | _ => false

lemma isCheck_lower (facts : Facts) (rules : Rules) (i : Instr) :
    isCheck i (facts.lower rules i) = facts.needsTest rules.scope i := by
  cases i with
  | spaceCast r v target t =>
    have hu : facts.isUnproven rules v target = facts.needsTest rules.scope (.spaceCast r v target t) := rfl
    cases hn : facts.needsTest rules.scope (.spaceCast r v target t) <;> simp [Facts.lower, hu, hn, isCheck]
  | _ => rfl

lemma checks_of_step (h : step rules f pass i = .ok (j, pass')) :
    pass'.checks = pass.checks + if pass.facts.needsTest rules.scope i then 1 else 0 := by
  obtain ⟨_, rfl, _⟩ := of_step_eq_ok h
  rw [(counts_of_step h).1, isCheck_lower]

lemma exists_step (h : pass.facts.clash? rules f.result i = none) :
    ∃ j pass', step rules f pass i = .ok (j, pass') := by
  rw [step, h]
  dsimp only
  split <;> exact ⟨_, _, rfl⟩

lemma exists_walkCode (h : ∀ (n : Nat) i, code[n]? = some i →
      (pass.facts.behind rules.scope (code.take n)).clash? rules f.result i = none) :
    ∃ r, walkCode rules f pass code = .ok r := by
  induction code generalizing pass with
  | nil => exact ⟨_, rfl⟩
  | cons i rest ih =>
    obtain ⟨j, pass₁, hi⟩ := exists_step (h 0 i rfl)
    have hrest : ∀ (n : Nat) k, rest[n]? = some k →
        (pass₁.facts.behind rules.scope (rest.take n)).clash? rules f.result k = none := by
      rw [(of_step_eq_ok hi).2.2]
      exact fun n => h (n + 1)
    obtain ⟨r, hr⟩ := ih hrest
    exact ⟨_, bind_eq_ok_iff.mpr ⟨_, hi, bind_eq_ok_iff.mpr ⟨_, hr, rfl⟩⟩⟩

lemma exists_function_iff : (∃ v, function rules f = .ok v) ↔
    ∀ (n : Nat) i, f.code[n]? = some i → (Facts.before rules.scope f n).clash? rules f.result i = none := by
  constructor
  · rintro ⟨v, h⟩ n i
    exact clash?_before h
  · intro h
    obtain ⟨r, hr⟩ : ∃ r, walkCode rules f { facts := .start f } f.code = .ok r := exists_walkCode h
    exact ⟨_, function_eq_ok_iff.mpr ⟨r, hr, rfl⟩⟩

section Strict

lemma clash?_strict_of_needsTest (h : facts.needsTest scope i = true) (result : Ty) :
    facts.clash? { scope, segments, strict := true } result i ≠ none := by
  cases i with
  | spaceCast r v target t =>
    simp only [Facts.needsTest, Facts.isUnproven] at h
    simp only [Facts.clash?, Facts.conversionClash?]
    grind
  | _ => cases h

lemma clash?_strict (h : facts.needsTest scope i = false) (result : Ty) :
    facts.clash? { scope, segments, strict := true } result i =
      facts.clash? { scope, segments, strict := false } result i := by
  cases i with
  | spaceCast r v target t =>
    simp only [Facts.needsTest, Facts.isUnproven] at h
    simp only [Facts.clash?, Facts.conversionClash?]
    grind
  | ret v => cases v <;> rfl
  | _ => rfl

lemma lower_strict (facts : Facts) (i : Instr) :
    facts.lower { scope, segments, strict := true } i = facts.lower { scope, segments, strict := false } i := by
  cases i <;> rfl

lemma step_strict_eq_ok_iff :
    step { scope, segments, strict := true } f pass i = .ok (j, pass') ↔
      step { scope, segments, strict := false } f pass i = .ok (j, pass') ∧ pass'.checks = pass.checks := by
  cases hn : pass.facts.needsTest scope i with
  | false =>
    have hsame : step { scope, segments, strict := true } f pass i =
        step { scope, segments, strict := false } f pass i := by
      rw [step, step, clash?_strict hn, lower_strict]
    rw [hsame]
    refine (and_iff_left_of_imp fun h => ?_).symm
    rw [checks_of_step h, hn]
    rfl
  | true =>
    constructor
    · intro h
      exact absurd (of_step_eq_ok h).1 (clash?_strict_of_needsTest hn _)
    · rintro ⟨h, hc⟩
      rw [checks_of_step h, hn] at hc
      exact absurd hc (Nat.succ_ne_self _)

lemma walkCode_strict_eq_ok_iff :
    walkCode { scope, segments, strict := true } f pass code = .ok (code', pass') ↔
      walkCode { scope, segments, strict := false } f pass code = .ok (code', pass') ∧ pass'.checks = pass.checks := by
  induction code generalizing pass code' with
  | nil =>
    refine (and_iff_left_of_imp fun h => ?_).symm
    cases h
    rfl
  | cons i rest ih =>
    constructor
    · intro h
      obtain ⟨⟨j, pass₁⟩, hi, h⟩ := bind_eq_ok_iff.mp h
      obtain ⟨⟨rest', pass₂⟩, hr, h⟩ := bind_eq_ok_iff.mp h
      cases h
      obtain ⟨hi, hci⟩ := step_strict_eq_ok_iff.mp hi
      obtain ⟨hr, hcr⟩ := ih.mp hr
      exact ⟨bind_eq_ok_iff.mpr ⟨_, hi, bind_eq_ok_iff.mpr ⟨_, hr, rfl⟩⟩, hcr.trans hci⟩
    · rintro ⟨h, hc⟩
      obtain ⟨⟨j, pass₁⟩, hi, h⟩ := bind_eq_ok_iff.mp h
      obtain ⟨⟨rest', pass₂⟩, hr, h⟩ := bind_eq_ok_iff.mp h
      cases h
      -- the count never goes down, so it stands still at the instruction and behind it
      have hle₁ := checks_of_step hi
      have hle₂ := (walkCode_rewrites hr).checks
      have hi := step_strict_eq_ok_iff.mpr ⟨hi, by omega⟩
      have hr := ih.mpr ⟨hr, by omega⟩
      exact bind_eq_ok_iff.mpr ⟨_, hi, bind_eq_ok_iff.mpr ⟨_, hr, rfl⟩⟩

theorem strict_refuses_tests (scope : Scope) (segments : Option SegmentMap) (f : Function) :
    (∀ v, function { scope, segments, strict := true } f = .ok v ↔
      function { scope, segments, strict := false } f = .ok v ∧ v.runtimeChecks = 0) ∧
    ∀ e, function { scope, segments, strict := false } f = .error e →
      ∃ e', function { scope, segments, strict := true } f = .error e' := by
  have hiff (v : Verified) : function { scope, segments, strict := true } f = .ok v ↔
      function { scope, segments, strict := false } f = .ok v ∧ v.runtimeChecks = 0 := by
    simp only [function_eq_ok_iff, Prod.exists, walkCode_strict_eq_ok_iff]
    constructor
    · rintro ⟨code, pass, ⟨hw, hc⟩, rfl⟩
      exact ⟨⟨code, pass, hw, rfl⟩, hc⟩
    · rintro ⟨⟨code, pass, hw, rfl⟩, hc⟩
      exact ⟨code, pass, ⟨hw, hc⟩, rfl⟩
  refine ⟨hiff, fun e he => ?_⟩
  cases hs : function { scope, segments, strict := true } f with
  | error e' => exact ⟨e', rfl⟩
  | ok v => cases he.symm.trans ((hiff v).mp hs).1

def hasty : Function where
  name := "hasty"
  result := .void
  params := [(0, .ptr .i8 .generic)]
  blocks := [
    ⟨0, [.spaceCast 1 (.temp 0) .shared (.ptr .i8 .shared), .cast 2 (.temp 1) (.ptr .i8 .constant), .ret none]⟩]

theorem strict_refuses_tests_probe :
    let scope : Scope := { space? := fun _ => none }
    let calm : Function := { probe with blocks := probe.blocks.take 1 }
    (∃ v, function { scope, segments := none, strict := false } calm = .ok v ∧ v.runtimeChecks = 0 ∧
      function { scope, segments := none, strict := true } calm = .ok v) ∧
    (∃ v, function { scope, segments := none, strict := false } probe = .ok v ∧ v.runtimeChecks = 1 ∧
      function { scope, segments := none, strict := true } probe ≠ .ok v) ∧
    function { scope, segments := none, strict := false } hasty =
      .error (.invalidCast .unknown "hasty" .shared .constant) ∧
    ∃ e, function { scope, segments := none, strict := true } hasty = .error e := by
  intro scope calm
  refine ⟨⟨_, rfl, rfl, ?_⟩, ⟨_, rfl, rfl, ?_⟩, rfl, ?_⟩
  · exact ((strict_refuses_tests scope none calm).1 _).mpr ⟨rfl, rfl⟩
  · intro h
    cases (((strict_refuses_tests scope none probe).1 _).mp h).2
  · exact (strict_refuses_tests scope none hasty).2 _ rfl

end Strict

section Segments

lemma clash?_segments (facts : Facts) (result : Ty) (i : Instr) :
    facts.clash? { scope, segments, strict } result i =
      facts.clash? { scope, segments := segments', strict } result i := by
  cases i with
  | ret v => cases v <;> rfl
  | _ => rfl

lemma exists_of_lower_ne (h : facts.lower { scope, segments, strict } i ≠
      facts.lower { scope, segments := segments', strict } i) :
    ∃ r v space, i = .spaceTest r v space ∧ ((∃ s, v = .null s) ∨ ∃ n, v = .constant n) := by
  cases i with
  | spaceTest r v space =>
    refine ⟨r, v, space, rfl, ?_⟩
    cases v with
    | null s => exact .inl ⟨s, rfl⟩
    | constant n => exact .inr ⟨n, rfl⟩
    | _ => exact absurd (by simp [Facts.lower, Facts.answer?, Facts.address?, Facts.origin?, Facts.static?]) h
  | _ => exact absurd rfl h

structure Level (pass pass' : Pass) : Prop where
  facts : pass.facts = pass'.facts
  checks : pass.checks = pass'.checks

lemma step_segments (h : Level pass pass') (i : Instr) :
    Alike (fun r r' => Level r.2 r'.2) (step { scope, segments, strict } f pass i)
      (step { scope, segments := segments', strict } f pass' i) := by
  have hclash : pass.facts.clash? { scope, segments, strict } f.result i =
      pass'.facts.clash? { scope, segments := segments', strict } f.result i := by
    rw [h.facts, clash?_segments]
  cases hc : pass.facts.clash? { scope, segments, strict } f.result i with
  | some mixed =>
    rw [step, step, ← hclash, hc, h.facts]
    exact .error _
  | none =>
    obtain ⟨j, pass₁, h₁⟩ := exists_step hc
    obtain ⟨j', pass₂, h₂⟩ := exists_step (hclash ▸ hc)
    rw [h₁, h₂]
    refine .ok ⟨?_, ?_⟩
    · rw [(of_step_eq_ok h₁).2.2, (of_step_eq_ok h₂).2.2, h.facts]
    · rw [checks_of_step h₁, checks_of_step h₂, h.facts, h.checks]

lemma walkCode_segments (h : Level pass pass') (code : List Instr) :
    Alike (fun r r' => Level r.2 r'.2) (walkCode { scope, segments, strict } f pass code)
      (walkCode { scope, segments := segments', strict } f pass' code) := by
  induction code generalizing pass pass' with
  | nil => exact .ok h
  | cons i rest ih => exact (step_segments h i).bind fun _ _ h => (ih h).bind fun _ _ h => .ok h

/-- Two results for a body that differ at most in the answers of tests on known addresses. -/
structure AgreeButAnswers (f : Function) (v v' : Verified) : Prop where
  checks : v.runtimeChecks = v'.runtimeChecks
  function : v.function = { v'.function with blocks := v.function.blocks }
  blocks : v.function.blocks.map (fun b => (b.id, b.code.length)) =
    v'.function.blocks.map fun b => (b.id, b.code.length)
  code {n : Nat} (h : v.function.code[n]? ≠ v'.function.code[n]?) :
    ∃ r p space, f.code[n]? = some (.spaceTest r p space) ∧ ((∃ s, p = .null s) ∨ ∃ c, p = .constant c)

theorem segments_only_answer (scope : Scope) (strict : Bool) (f : Function) (segments segments' : Option SegmentMap) :
    Alike (AgreeButAnswers f) (function { scope, segments, strict } f)
      (function { scope, segments := segments', strict } f) := by
  have hchecks : Alike (fun v v' => v.runtimeChecks = v'.runtimeChecks) (function { scope, segments, strict } f)
      (function { scope, segments := segments', strict } f) := by
    rw [function_eq, function_eq]
    exact (walkCode_segments ⟨rfl, rfl⟩ f.code).map fun _ _ h => h.checks
  refine hchecks.imp fun v v' hv hv' hc => ⟨hc, ?_, ?_, fun {n} hn => ?_⟩
  · obtain ⟨blocks, hf, _⟩ := function_lowered hv
    obtain ⟨blocks', hf', _⟩ := function_lowered hv'
    rw [hf, hf']
  · obtain ⟨_, _, _, _, hshape⟩ := function_rewrites hv
    obtain ⟨_, _, _, _, hshape'⟩ := function_rewrites hv'
    rw [hshape, hshape']
  · rw [getElem?_code_of_function hv, getElem?_code_of_function hv'] at hn
    cases hi : f.code[n]? with
    | none =>
      rw [hi] at hn
      exact absurd rfl hn
    | some i =>
      rw [hi] at hn
      obtain ⟨r, p, space, rfl, hp⟩ := exists_of_lower_ne fun h => hn (congrArg some h)
      exact ⟨r, p, space, rfl, hp⟩

def census : Function where
  name := "census"
  result := .void
  params := [(0, .ptr .i8 .generic)]
  blocks := [
    -- the constant lies in the standard segment of shared memory
    ⟨0, [.spaceTest 1 (.null .generic) .shared, .spaceTest 2 (.constant 0x100000000010) .shared, .branch 1]⟩,
    ⟨1, [.spaceTest 3 (.temp 0) .shared, .spaceCast 4 (.temp 0) .global (.ptr .i8 .global), .ret none]⟩]

theorem segments_only_answer_census :
    let scope : Scope := { space? := fun _ => none }
    ∃ v v', function { scope, segments := none, strict := false } census = .ok v ∧
      function { scope, segments := some .standard, strict := false } census = .ok v' ∧
      v.foldedTests = 0 ∧ v'.foldedTests = 2 ∧ v.function.code[1]? ≠ v'.function.code[1]? ∧
      AgreeButAnswers census v v' := by
  intro scope
  refine ⟨_, _, rfl, rfl, rfl, rfl, by decide, ?_⟩
  have h : Alike (AgreeButAnswers census) (.ok _) (.ok _) :=
    segments_only_answer scope false census none (some .standard)
  cases h with
  | ok h => exact h

end Segments

end DeviceLink.Verify
