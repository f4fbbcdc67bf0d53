import DeviceLink.Proofs.Described

/-! Verification has nothing left to do in a linked module: what it has lowered and what linking has renamed
passes again, under the names of the module alone, and stays as it is. -/

namespace DeviceLink

open Ir Fallible

namespace Verify

def Scope.ofModule (m : Module) : Scope where
  space? name := (m.global? name).map (·.space) <|> (m.function? name).map fun _ => .generic

section Lower

variable {rules : Rules} {i : Instr}

lemma lower_lower (facts : Facts) (rules : Rules) (i : Instr) :
    facts.lower rules (facts.lower rules i) = facts.lower rules i := by
  cases i with
  | spaceCast r p target t =>
    cases hu : facts.isUnproven rules p target <;> simp [Facts.lower, hu]
  | spaceTest r p space =>
    cases ha : facts.answer? rules p space <;> simp [Facts.lower, folded, ha]
  | _ => rfl

lemma after_lower (facts : Facts) (rules : Rules) (i : Instr) :
    facts.after rules.scope (facts.lower rules i) = facts.after rules.scope i := by
  cases i with
  | spaceCast r p target t =>
    cases hu : facts.isUnproven rules p target with
    | false => simp [Facts.lower, hu]
    | true =>
      have ht : target ≠ .generic := by
        simp only [Facts.isUnproven, Bool.and_eq_true, decide_eq_true_eq] at hu
        exact hu.1.2
      have hs : target.isSpecific = true := by simpa [Space.isSpecific] using ht
      simp [Facts.lower, hu, Facts.after, Facts.convertedOrigin?, ht, Option.filter_some, hs]
  | spaceTest r p space =>
    cases ha : facts.answer? rules p space with
    | none => simp [Facts.lower, ha]
    | some answer => cases answer <;> simp [Facts.lower, folded, ha, Facts.after, Facts.origin?]
  | _ => rfl

lemma clash?_lower {facts : Facts} {result : Ty} (h : facts.clash? rules result i = none) :
    facts.clash? rules result (facts.lower rules i) = none := by
  cases i with
  | spaceCast r p target t =>
    cases hu : facts.isUnproven rules p target with
    | false => simpa [Facts.lower, hu] using h
    | true => simp [Facts.lower, hu, Facts.clash?]
  | spaceTest r p space =>
    cases ha : facts.answer? rules p space with
    | none => simp [Facts.lower, ha, Facts.clash?]
    | some answer =>
      simp [Facts.lower, folded, ha, Facts.clash?, Facts.clash?.static, Facts.clash?.origin, Facts.static?,
        Facts.origin?, differ?]
  | _ => exact h

end Lower

section Replace

variable {rules rules' : Rules} {ρ : Operand → Operand} {i : Instr} {v : Operand}

structure Keeps (rules rules' : Rules) (ρ : Operand → Operand) (v : Operand) : Prop where
  static (facts : Facts) : facts.static? rules'.scope (ρ v) = facts.static? rules.scope v
  origin (facts : Facts) : facts.origin? rules'.scope (ρ v) = facts.origin? rules.scope v
  pointee (facts : Facts) : facts.pointee? (ρ v) = facts.pointee? v
  address : Facts.address? (ρ v) = Facts.address? v

namespace Keeps

lemma of_symbol? (hn : v.symbol? = none → ρ v = v)
    (hs : ∀ x, v.symbol? = some x → ∃ y, ρ v = v.withSymbol y ∧ rules'.scope.space? y = rules.scope.space? x) :
    Keeps rules rules' ρ v := by
  cases v with
  | global x =>
    obtain ⟨y, hy, hsp⟩ := hs x rfl
    rw [Operand.withSymbol] at hy
    constructor <;> simp [hy, hsp, Facts.static?, Facts.origin?, Facts.pointee?, Facts.address?]
  | function x =>
    obtain ⟨y, hy, _⟩ := hs x rfl
    rw [Operand.withSymbol] at hy
    constructor <;> simp [hy, Facts.static?, Facts.origin?, Facts.pointee?, Facts.address?]
  | _ =>
    constructor <;> simp [hn rfl, Facts.static?, Facts.origin?, Facts.pointee?, Facts.address?]

variable (h : Keeps rules rules' ρ v) (facts : Facts)

include h

lemma source : facts.source rules'.scope (ρ v) = facts.source rules.scope v := by
  rw [Facts.source, h.static, Facts.source]

lemma convertedOrigin? (target : Space) :
    facts.convertedOrigin? rules'.scope (ρ v) target = facts.convertedOrigin? rules.scope v target := by
  rw [Facts.convertedOrigin?, h.source, h.origin, Facts.convertedOrigin?]

lemma isUnproven (target : Space) : facts.isUnproven rules' (ρ v) target = facts.isUnproven rules v target := by
  rw [Facts.isUnproven, h.source, h.origin, Facts.isUnproven]

lemma answer? (hs : rules'.segments = rules.segments) (space : Space) :
    facts.answer? rules' (ρ v) space = facts.answer? rules v space := by
  rw [Facts.answer?, h.static, h.origin, h.address, hs, Facts.answer?]

lemma conversionClash? {target : Space} (hu : facts.isUnproven rules v target = false)
    (hc : facts.conversionClash? rules v target = none) : facts.conversionClash? rules' (ρ v) target = none := by
  rw [Facts.conversionClash?] at hc ⊢
  rw [h.source, h.origin]
  simp only [Facts.isUnproven] at hu
  grind

end Keeps

lemma after_mapOperands (facts : Facts) (h : ∀ v ∈ i.operands, Keeps rules rules' ρ v) :
    facts.after rules'.scope (i.mapOperands ρ) = facts.after rules.scope i := by
  rw [Instr.mapOperands_eq]
  cases i with
  | element r p _ t | cast r p t => exact congrArg (facts.define r t) ((h p List.mem_cons_self).origin facts)
  | spaceCast r p target t =>
    exact congrArg (facts.define r t) ((h p List.mem_cons_self).convertedOrigin? facts target)
  | select r c a b t =>
    have ha := (h a (by simp [Instr.operands])).origin facts
    have hb := (h b (by simp [Instr.operands])).origin facts
    simp [Instr.withOperands, Instr.operands, Facts.after, Facts.commonOrigin?, ha, hb]
  | binary r op lhs rhs t =>
    have hl := (h lhs (by simp [Instr.operands])).origin facts
    have hr := (h rhs (by simp [Instr.operands])).origin facts
    simp [Instr.withOperands, Instr.operands, Facts.after, hl, hr]
  | call result => cases result <;> rfl
  | dispatch result => cases result <;> rfl
  | _ => rfl

lemma lower_mapOperands (hs : rules'.segments = rules.segments) {facts : Facts} (hl : facts.lower rules i = i)
    (h : ∀ v ∈ i.operands, Keeps rules rules' ρ v) : facts.lower rules' (i.mapOperands ρ) = i.mapOperands ρ := by
  rw [Instr.mapOperands_eq]
  cases i with
  | spaceCast r p target t =>
    have hp := (h p List.mem_cons_self).isUnproven facts target
    cases hu : facts.isUnproven rules p target with
    | false => simp [Instr.operands, Instr.withOperands, Facts.lower, hp, hu]
    | true => simp [Facts.lower, hu] at hl
  | spaceTest r p space =>
    have hp := (h p List.mem_cons_self).answer? facts hs space
    cases ha : facts.answer? rules p space with
    | none => simp [Instr.operands, Instr.withOperands, Facts.lower, hp, ha]
    | some answer => simp [Facts.lower, folded, ha] at hl
  | _ => rfl

lemma clash?_mapOperands (hp : ∀ x, rules'.scope.params? x = none) {facts : Facts} {result : Ty}
    (hl : facts.lower rules i = i) (hc : facts.clash? rules result i = none)
    (h : ∀ v ∈ i.operands, Keeps rules rules' ρ v) : facts.clash? rules' result (i.mapOperands ρ) = none := by
  have hst : ∀ v ∈ i.operands, Facts.clash?.static facts rules' (ρ v) = Facts.clash?.static facts rules v :=
    fun v hv => (h v hv).static facts
  have hor : ∀ v ∈ i.operands, Facts.clash?.origin facts rules' (ρ v) = Facts.clash?.origin facts rules v :=
    fun v hv => (h v hv).origin facts
  rw [Instr.mapOperands_eq]
  cases i with
  | spaceCast r p target t =>
    have hu : facts.isUnproven rules p target = false := by
      cases hu : facts.isUnproven rules p target with
      | false => rfl
      | true => simp [Facts.lower, hu] at hl
    exact (h p List.mem_cons_self).conversionClash? facts hu hc
  | call r f args t => simp [Instr.operands, Instr.withOperands, Facts.clash?, hp]
  | phi r incoming t =>
    simp only [Instr.operands, List.forall_mem_map] at hst
    simp only [Facts.clash?, List.findSome?_eq_none_iff] at hc
    simp only [Instr.operands, Instr.withOperands, List.map_map, List.zip_map', Facts.clash?,
      List.findSome?_eq_none_iff, List.forall_mem_map, Function.comp_apply]
    intro p hp
    rw [hst p hp]
    exact hc p hp
  | ret v =>
    cases v with
    | none => rfl
    | some v =>
      have hv := hst v List.mem_cons_self
      simpa [Instr.operands, Instr.withOperands, Facts.clash?, hv] using hc
  | load r p t =>
    have hp := (h p List.mem_cons_self).pointee facts
    simpa [Instr.operands, Instr.withOperands, Facts.clash?, hp] using hc
  | store v p =>
    have hv := hst v List.mem_cons_self
    have hp := (h p (by simp [Instr.operands])).pointee facts
    simpa [Instr.operands, Instr.withOperands, Facts.clash?, hp, hv] using hc
  | element | cast | select | binary =>
    simp only [Instr.operands, List.forall_mem_cons] at hst hor
    simpa [Instr.operands, Instr.withOperands, Facts.clash?, hst, hor] using hc
  | _ => exact hc

end Replace

section Again

variable {rules rules' : Rules} {ρ : Operand → Operand} {f f' : Function} {pass pass' pass₁ : Pass}

lemma step_of_stable {i : Instr} (hc : pass.facts.clash? rules f.result i = none)
    (hl : pass.facts.lower rules i = i) :
    step rules f pass i = .ok (i, { pass with facts := pass.facts.after rules.scope i }) := by
  rw [step, hc]
  dsimp only
  rw [hl]
  cases i <;> rfl

variable (hs : rules'.segments = rules.segments) (hp : ∀ x, rules'.scope.params? x = none)
  (hf : f'.result = f.result) (hpass : pass'.facts = pass.facts)

include hs hp hf hpass

lemma step_again {i j : Instr} (h : step rules f pass i = .ok (j, pass₁))
    (hk : ∀ v ∈ j.operands, Keeps rules rules' ρ v) :
    step rules' f' pass' (j.mapOperands ρ) = .ok (j.mapOperands ρ, { pass' with facts := pass₁.facts }) := by
  obtain ⟨hc, rfl, hfacts⟩ := of_step_eq_ok h
  have hl := lower_lower pass.facts rules i
  rw [step_of_stable, hpass, after_mapOperands _ hk, after_lower, hfacts]
  · rw [hf, hpass]
    exact clash?_mapOperands hp hl (clash?_lower hc) hk
  · rw [hpass]
    exact lower_mapOperands hs hl hk

lemma walkCode_again {code code' : List Instr} (h : walkCode rules f pass code = .ok (code', pass₁))
    (hk : ∀ v ∈ code'.flatMap Instr.operands, Keeps rules rules' ρ v) :
    walkCode rules' f' pass' (code'.map (Instr.mapOperands ρ)) =
      .ok (code'.map (Instr.mapOperands ρ), { pass' with facts := pass₁.facts }) := by
  induction code generalizing pass pass' code' with
  | nil =>
    cases h
    rw [← hpass]
    rfl
  | cons i rest ih =>
    obtain ⟨⟨j, pass₂⟩, hi, h⟩ := bind_eq_ok_iff.mp h
    obtain ⟨⟨rest', pass₃⟩, hr, h⟩ := bind_eq_ok_iff.mp h
    cases h
    rw [List.flatMap_cons, List.forall_mem_append] at hk
    have hstep := step_again hs hp hf hpass hi hk.1
    exact bind_eq_ok_iff.mpr ⟨_, hstep, bind_eq_ok_iff.mpr ⟨_, ih (by rfl) hr hk.2, rfl⟩⟩

lemma walkBlocks_again {blocks blocks' : List Block} (h : walkBlocks rules f pass blocks = .ok (blocks', pass₁))
    (hk : ∀ b ∈ blocks', ∀ v ∈ b.code.flatMap Instr.operands, Keeps rules rules' ρ v) :
    walkBlocks rules' f' pass' (blocks'.map fun b => { b with code := b.code.map (Instr.mapOperands ρ) }) =
      .ok (blocks'.map fun b => { b with code := b.code.map (Instr.mapOperands ρ) },
        { pass' with facts := pass₁.facts }) := by
  induction blocks generalizing pass pass' blocks' with
  | nil =>
    cases h
    rw [← hpass]
    rfl
  | cons b rest ih =>
    obtain ⟨⟨code, pass₂⟩, hc, h⟩ := bind_eq_ok_iff.mp h
    obtain ⟨⟨rest', pass₃⟩, hr, h⟩ := bind_eq_ok_iff.mp h
    cases h
    rw [List.forall_mem_cons] at hk
    have hcode := walkCode_again hs hp hf hpass hc hk.1
    exact bind_eq_ok_iff.mpr ⟨_, hcode, bind_eq_ok_iff.mpr ⟨_, ih (by rfl) hr hk.2, rfl⟩⟩

omit hf hpass in
lemma function_again {v : Verified} (h : function rules f = .ok v)
    (hk : ∀ w ∈ v.function.code.flatMap Instr.operands, Keeps rules rules' ρ w) (name : String)
    (visibility : Visibility) :
    let g : Function := { v.function with
      name, visibility
      blocks := v.function.blocks.map fun b => { b with code := b.code.map (Instr.mapOperands ρ) } }
    function rules' g = .ok { function := g, runtimeChecks := 0, foldedTests := 0 } := by
  intro g
  obtain ⟨⟨blocks, pass⟩, hb, h⟩ := bind_eq_ok_iff.mp h
  cases h
  have hk : ∀ b ∈ blocks, ∀ w ∈ b.code.flatMap Instr.operands, Keeps rules rules' ρ w := by
    intro b hb w hw
    obtain ⟨i, hi, hw⟩ := List.mem_flatMap.mp hw
    exact hk w (List.mem_flatMap.mpr ⟨i, List.mem_flatMap.mpr ⟨b, hb, hi⟩, hw⟩)
  have hw := @walkBlocks_again rules rules' ρ f g _ { facts := .start g } _ hs hp rfl rfl _ _ hb hk
  exact bind_eq_ok_iff.mpr ⟨_, hw, rfl⟩

end Again

end Verify

namespace Linked

variable {units : List CompiledUnit} {p : Program} {roots : List SymbolId} {r : Reached} {ds : List Definition}

lemma space?_assemble (hg : Graph.build units = .ok p.graph) (hc : p.Covers roots r)
    (hd : p.graph.duplicateExternals = []) (h : (Naming.ofReached p.graph r).definitions = .ok ds) (name : String)
    (tables : List (String × List String)) {owner : ModuleId} {x : String} {t : SymbolId}
    (ht : p.graph.resolve? owner x = some t) (hrt : r.isReached t = true) (m : Module) :
    (Verify.Scope.ofModule (assemble name ds tables)).space? ((Naming.ofReached p.graph r).name t) =
      (p.scope owner m).space? x := by
  have hlt := (Graph.indexed_of_build hg).lt_of_resolve? ht
  obtain ⟨d, hmem, he⟩ := Naming.exists_mem_emits hg hc h (Naming.mem_symbols.mpr ⟨hlt, hrt⟩)
  have hn := Naming.name_of_emits he
  obtain ⟨hfun, hglob⟩ := @lookup_assemble name ds tables d (Naming.map_name_nodup hg hc hd h) hmem
  obtain ⟨s, b, hs, hb, rfl⟩ := he
  obtain ⟨s', m', hs', _, hdef⟩ := (Program.outcome_eq_ok_iff (Graph.build_bounded hg)).mp (hc.bodies.mp hb).2
  obtain rfl : s' = s := Option.some.inj (hs'.symm.trans hs)
  simp only [Verify.Scope.ofModule, Program.scope, ← hn, hfun, hglob, ht]
  cases hdef with
  | function hk => simp [hk, Naming.image, Definition.function?, Definition.global?, hs']
  | global hk _ hsp => simp [hk, hsp, Naming.image, Definition.function?, Definition.global?, hs']

end Linked

namespace Session

variable {s : Session} {e : Strategy} {out : Output}

lemma Links.keeps {roots : List SymbolId} {a : Analysis} (h : s.Links e roots a out) {id : SymbolId} {sym : Symbol}
    {b : Body} (hs : a.graph.symbols[id]? = some sym) (hb : a.reached.body? id = some b) (m : Module) (strict : Bool)
    {v : Operand} (hv : v ∈ b.operands) :
    Verify.Keeps ((s.program a.graph).rules sym.owner m)
      { scope := .ofModule out.linked.code, segments := some s.options.segments, strict }
      ((Linked.Naming.ofReached a.graph a.reached).rename sym.owner) v := by
  obtain ⟨ds, hd, hcode⟩ := h.exists_definitions
  apply Verify.Keeps.of_symbol?
  · intro hn
    simp [Linked.Naming.rename, hn]
  · intro x hx
    have hres : Linked.Resolves a.graph a.reached sym.owner x := by
      by_contra hno
      exact Linked.Naming.not_dangles_of_definitions h.walks.built h.walks.roots_lt h.walks.covers hd
        ⟨id, sym, b, v, x, hs, hb, hv, hx, hno⟩
    obtain ⟨t, ht, hrt⟩ := hres
    refine ⟨_, Linked.Naming.rename_of_resolve? hx ht, ?_⟩
    rw [hcode]
    exact Linked.space?_assemble h.walks.built h.walks.covers (Linked.duplicateExternals_eq_nil_of_link h.linked)
      hd _ _ ht hrt m

theorem linked_functions_are_stable (h : ((runBy e).run.run s).1 = .ok out) {f : Function}
    (hf : f ∈ out.linked.code.functions) (strict : Bool) :
    Verify.function { scope := .ofModule out.linked.code, segments := some s.options.segments, strict } f =
      .ok { function := f, runtimeChecks := 0, foldedTests := 0 } := by
  obtain ⟨roots, a, h⟩ := runBy_eq_ok_iff.mp h
  obtain ⟨id, sym, m, v, hs, hb, _, hdef, himage⟩ := h.exists_of_mem_functions hf
  cases hdef with
  | function _ _ _ hv =>
    cases himage
    refine Verify.function_again ?_ ?_ hv (fun w hw => h.keeps hs hb m strict hw) _ _
    · rfl
    · exact fun _ => rfl

def guardCode : Module where
  name := "guard"
  functions := [
    { name := "main", result := .void, params := [(0, .ptr .i8 .generic)], visibility := .external, isKernel := true
      blocks := [⟨0, [.spaceCast 1 (.temp 0) .shared (.ptr .i8 .shared), .spaceTest 2 (.temp 1) .shared,
        .spaceTest 3 (.temp 0) .global, .ret none]⟩] }]

def guarded : Session := describing [(guardCode, .program)] {}

theorem linked_functions_are_stable_guarded :
    (guardCode.functions.map fun f => (Verify.function { scope := .ofModule guardCode } f).toOption.map fun v =>
      (v.runtimeChecks, v.foldedTests)) = [some (1, 1)] ∧
    ∃ out f, ((runBy .alone).run.run guarded).1 = .ok out ∧ f ∈ out.linked.code.functions ∧
      Verify.function
          { scope := .ofModule out.linked.code, segments := some guarded.options.segments, strict := true } f =
        .ok { function := f, runtimeChecks := 0, foldedTests := 0 } := by
  refine ⟨by decide, ?_⟩
  let g := (Graph.build guarded.units).toOption.getD {}
  obtain ⟨a, out, h⟩ := @exists_links_describing [(guardCode, .program)] {} .alone g [0] (by decide) rfl (by decide)
    (by decide +kernel) (by decide)
  have hg : a.graph = g := Except.ok.inj h.walks.built.symm
  have hs : a.graph.symbols[0]? = some (Graph.symbolOfEntry 0 (.kernel "main")) := by
    rw [hg]
    decide
  obtain ⟨f, hf, _⟩ := h.exists_mem_functions hs rfl (.root List.mem_cons_self)
  have hrun := runBy_eq_ok_iff.mpr ⟨[0], a, h⟩
  exact ⟨out, f, hrun, hf, linked_functions_are_stable hrun hf true⟩

end Session

end DeviceLink
