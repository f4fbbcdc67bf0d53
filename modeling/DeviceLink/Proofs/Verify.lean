import DeviceLink.Verify
import DeviceLink.Proofs.Fallible

namespace DeviceLink.Verify

open Fallible Ir

variable {rules : Rules} {f : Function} {e : Fault}

lemma step_error {pass : Pass} {i : Instr} (h : step rules f pass i = .error e) :
    ∃ place source target, e = .invalidCast place f.name source target := by
  unfold step at h
  split at h
  · cases h
    exact ⟨_, _, _, rfl⟩
  · dsimp only at h
    split at h <;> cases h

lemma walkCode_error {pass : Pass} {code : List Instr} (h : walkCode rules f pass code = .error e) :
    ∃ place source target, e = .invalidCast place f.name source target := by
  induction code generalizing pass with
  | nil => cases h
  | cons i rest ih =>
    rcases bind_eq_error_iff.mp h with h | ⟨⟨i, pass⟩, _, h⟩
    · exact step_error h
    · rcases bind_eq_error_iff.mp h with h | ⟨_, _, h⟩
      · exact ih h
      · cases h

lemma walkBlocks_error {pass : Pass} {blocks : List Block}
    (h : walkBlocks rules f pass blocks = .error e) :
    ∃ place source target, e = .invalidCast place f.name source target := by
  induction blocks generalizing pass with
  | nil => cases h
  | cons b rest ih =>
    rcases bind_eq_error_iff.mp h with h | ⟨⟨code, pass⟩, _, h⟩
    · exact walkCode_error h
    · rcases bind_eq_error_iff.mp h with h | ⟨_, _, h⟩
      · exact ih h
      · cases h

lemma function_error (h : function rules f = .error e) :
    ∃ place source target, e = .invalidCast place f.name source target := by
  rcases bind_eq_error_iff.mp h with h | ⟨_, _, h⟩
  · exact walkBlocks_error h
  · cases h

section Lowered

variable {pass pass' : Pass}

lemma of_step_eq_ok {i j : Instr} (h : step rules f pass i = .ok (j, pass')) :
    pass.facts.clash? rules f.result i = none ∧ j = pass.facts.lower rules i ∧
      pass'.facts = pass.facts.after rules.scope i := by
  unfold step at h
  split at h
  · cases h
  · rename_i hc
    dsimp only at h
    split at h <;> cases h <;> exact ⟨hc, rfl, rfl⟩

def Lowered (rules : Rules) (code code' : List Instr) : Prop :=
  ∀ j ∈ code', ∃ i ∈ code, ∃ facts : Facts, j = facts.lower rules i

lemma walkCode_lowered {code code' : List Instr} (h : walkCode rules f pass code = .ok (code', pass')) :
    Lowered rules code code' := by
  induction code generalizing code' pass with
  | nil =>
    cases h
    intro j hj
    cases hj
  | cons i rest ih =>
    obtain ⟨⟨k, pass₁⟩, hk, h⟩ := bind_eq_ok_iff.mp h
    obtain ⟨⟨rest', pass₂⟩, hr, h⟩ := bind_eq_ok_iff.mp h
    cases h
    intro j hj
    rcases List.mem_cons.mp hj with rfl | hj
    · exact ⟨i, List.mem_cons_self, _, (of_step_eq_ok hk).2.1⟩
    · obtain ⟨l, hl, facts, hj⟩ := ih hr j hj
      exact ⟨l, List.mem_cons_of_mem _ hl, facts, hj⟩

lemma walkBlocks_lowered {blocks blocks' : List Block} (h : walkBlocks rules f pass blocks = .ok (blocks', pass')) :
    ∀ c ∈ blocks', ∃ b ∈ blocks, Lowered rules b.code c.code := by
  induction blocks generalizing blocks' pass with
  | nil =>
    cases h
    nofun
  | cons b rest ih =>
    obtain ⟨⟨code, pass₁⟩, hk, h⟩ := bind_eq_ok_iff.mp h
    obtain ⟨⟨rest', pass₂⟩, hr, h⟩ := bind_eq_ok_iff.mp h
    cases h
    intro c hc
    rcases List.mem_cons.mp hc with rfl | hc
    · exact ⟨b, List.mem_cons_self, walkCode_lowered hk⟩
    · obtain ⟨d, hd, hl⟩ := ih hr c hc
      exact ⟨d, List.mem_cons_of_mem _ hd, hl⟩

lemma function_lowered {v : Verified} (h : function rules f = .ok v) :
    ∃ blocks, v.function = { f with blocks } ∧ ∀ c ∈ blocks, ∃ b ∈ f.blocks, Lowered rules b.code c.code := by
  obtain ⟨⟨blocks, pass⟩, hb, h⟩ := bind_eq_ok_iff.mp h
  cases h
  exact ⟨blocks, rfl, walkBlocks_lowered hb⟩

lemma exists_lower_of_verified {v : Verified} (h : function rules f = .ok v) {j : Instr} (hj : j ∈ v.function.code) :
    ∃ i ∈ f.code, ∃ facts : Facts, j = facts.lower rules i := by
  obtain ⟨blocks, hv, hb⟩ := function_lowered h
  rw [hv] at hj
  obtain ⟨c, hc, hj⟩ := List.mem_flatMap.mp hj
  obtain ⟨b, hmem, hl⟩ := hb c hc
  obtain ⟨i, hi, facts, rfl⟩ := hl j hj
  exact ⟨i, List.mem_flatMap.mpr ⟨b, hmem, hi⟩, facts, rfl⟩

lemma mem_operands_of_lower {facts : Facts} {i : Instr} {v : Operand} (hv : v ∈ (facts.lower rules i).operands)
    {x : String} (hx : v.symbol? = some x) : v ∈ i.operands := by
  unfold Facts.lower at hv
  split at hv
  · split at hv <;> exact hv
  · split at hv
    · obtain rfl := List.mem_singleton.mp hv
      cases hx
    · exact hv
  · exact hv

lemma capability?_lower (facts : Facts) (rules : Rules) (i : Instr) :
    (facts.lower rules i).capability? = i.capability? := by
  unfold Facts.lower
  split
  · split <;> rfl
  · split <;> rfl
  · rfl

lemma walkCode_capabilities {code code' : List Instr} (h : walkCode rules f pass code = .ok (code', pass')) :
    code'.filterMap Instr.capability? = code.filterMap Instr.capability? := by
  induction code generalizing code' pass with
  | nil =>
    cases h
    rfl
  | cons i rest ih =>
    obtain ⟨⟨j, pass₁⟩, hi, h⟩ := bind_eq_ok_iff.mp h
    obtain ⟨⟨rest', pass₂⟩, hr, h⟩ := bind_eq_ok_iff.mp h
    cases h
    obtain ⟨_, rfl, _⟩ := of_step_eq_ok hi
    rw [List.filterMap_cons, List.filterMap_cons, capability?_lower, ih hr]

lemma walkBlocks_capabilities {blocks blocks' : List Block}
    (h : walkBlocks rules f pass blocks = .ok (blocks', pass')) :
    (blocks'.flatMap (·.code)).filterMap Instr.capability? = (blocks.flatMap (·.code)).filterMap Instr.capability? := by
  induction blocks generalizing blocks' pass with
  | nil =>
    cases h
    rfl
  | cons b rest ih =>
    obtain ⟨⟨code, pass₁⟩, hc, h⟩ := bind_eq_ok_iff.mp h
    obtain ⟨⟨rest', pass₂⟩, hr, h⟩ := bind_eq_ok_iff.mp h
    cases h
    rw [List.flatMap_cons, List.flatMap_cons, List.filterMap_append, List.filterMap_append, walkCode_capabilities hc,
      ih hr]

lemma function_capabilities {v : Verified} (h : function rules f = .ok v) :
    v.function.capabilities = f.capabilities := by
  obtain ⟨⟨blocks, pass⟩, hb, h⟩ := bind_eq_ok_iff.mp h
  cases h
  exact congrArg Ordered.ofList (walkBlocks_capabilities hb)

end Lowered

lemma global_error {scope : Scope} {g : Global} (h : global scope g = .error e) :
    e = .sharedInitializer g.name ∨ ∃ source target, e = .invalidCast .unknown g.name source target := by
  unfold global at h
  split at h
  · cases h
  · split at h
    · exact .inl (Except.error.inj h).symm
    · split at h
      · split at h
        · exact .inr ⟨_, _, (Except.error.inj h).symm⟩
        · cases h
      · cases h

end DeviceLink.Verify
