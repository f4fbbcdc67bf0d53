import DeviceLink.Proofs.Naming
import DeviceLink.Proofs.Positions

/-! Pointers that a body passes on. The pass knows the type of a temporary only behind its definition, in the order in
which the blocks are listed. So in a body that passes, a pointer stays in its space wherever its definition is listed
in front of its use, and where it is not, nothing is compared. -/

namespace DeviceLink

namespace Ir

lemma Instr.map_fst_definition? (i : Instr) : i.definition?.map Prod.fst = i.result? := by
  cases i with
  | call result | dispatch result => cases result <;> rfl
  | _ => rfl

def Instr.flows (result : Ty) : Instr → List (Operand × Ty)
  | .phi _ incoming t => incoming.map fun p => (p.1, t)
  | .element _ base _ t => [(base, t)]
  | .cast _ v t => [(v, t)]
  | .ret (some v) => [(v, result)]
  | _ => []

namespace Function

def definitionsBefore (f : Function) (n : Nat) : List (Temp × Ty) :=
  f.params ++ (f.code.take n).filterMap Instr.definition?

def definitions (f : Function) : List (Temp × Ty) := f.params ++ f.code.filterMap Instr.definition?

def DefinesOnce (f : Function) : Prop := (f.params.map Prod.fst ++ f.code.filterMap Instr.result?).Nodup

instance (f : Function) : Decidable f.DefinesOnce := inferInstanceAs (Decidable (List.Nodup _))

def Ahead (f : Function) (n : Nat) (t : Temp) : Prop := ∃ m i, n ≤ m ∧ f.code[m]? = some i ∧ i.result? = some t

def Flow (f : Function) (n : Nat) (t : Temp) (source target : Space) : Prop :=
  ∃ i type type', f.code[n]? = some i ∧ (.temp t, type') ∈ i.flows f.result ∧ (t, type) ∈ f.definitions ∧
    type.space? = some source ∧ type'.space? = some target

variable {f : Function} {n : Nat} {t : Temp} {type : Ty}

lemma definitions_eq (f : Function) (n : Nat) :
    f.definitions = f.definitionsBefore n ++ (f.code.drop n).filterMap Instr.definition? := by
  rw [definitions, definitionsBefore, List.append_assoc, ← List.filterMap_append, List.take_append_drop]

lemma map_fst_definitions (f : Function) :
    f.definitions.map Prod.fst = f.params.map Prod.fst ++ f.code.filterMap Instr.result? := by
  rw [definitions, List.map_append, List.map_filterMap]
  simp only [Instr.map_fst_definition?]

lemma DefinesOnce.nodup (h : f.DefinesOnce) (n : Nat) :
    ((f.definitionsBefore n).map Prod.fst ++ ((f.code.drop n).filterMap Instr.definition?).map Prod.fst).Nodup := by
  rwa [← List.map_append, ← definitions_eq, map_fst_definitions]

lemma ahead_iff : f.Ahead n t ↔ ∃ type, (t, type) ∈ (f.code.drop n).filterMap Instr.definition? := by
  constructor
  · rintro ⟨m, i, hm, hi, hr⟩
    rw [← Instr.map_fst_definition?] at hr
    obtain ⟨⟨u, type⟩, hd, rfl⟩ := Option.map_eq_some_iff.mp hr
    refine ⟨type, List.mem_filterMap.mpr ⟨i, List.mem_of_getElem? (i := m - n) ?_, hd⟩⟩
    rwa [List.getElem?_drop, Nat.add_sub_cancel' hm]
  · rintro ⟨type, h⟩
    obtain ⟨i, hi, hd⟩ := List.mem_filterMap.mp h
    obtain ⟨k, hk⟩ := List.mem_iff_getElem?.mp hi
    rw [List.getElem?_drop] at hk
    refine ⟨n + k, i, Nat.le_add_right n k, hk, ?_⟩
    rw [← Instr.map_fst_definition?, hd]
    rfl

end Function

end Ir

namespace Verify

open Fallible Ir

variable {rules : Rules} {scope : Scope} {f : Function} {facts : Facts} {i : Instr} {n : Nat} {t : Temp} {type : Ty}

namespace Facts

lemma types_after (facts : Facts) (scope : Scope) (i : Instr) :
    (facts.after scope i).types = i.definition?.toList ++ facts.types := by
  cases h : i.definition? with
  | none => exact (after_of_definition?_eq_none h).1
  | some d =>
    rw [after_eq_define h]
    rfl

lemma types_behind (facts : Facts) (scope : Scope) (code : List Instr) :
    (facts.behind scope code).types = (code.filterMap Instr.definition?).reverse ++ facts.types := by
  induction code generalizing facts with
  | nil => rfl
  | cons i rest ih =>
    change ((facts.after scope i).behind scope rest).types = _
    rw [ih, types_after]
    cases h : i.definition? <;> simp [h]

lemma types_start (f : Function) : (start f).types = f.params.reverse := by
  have hfold (params : List (Temp × Ty)) (facts : Facts) :
      (params.foldl (fun facts p => facts.define p.1 p.2 none) facts).types = params.reverse ++ facts.types := by
    induction params generalizing facts with
    | nil => rfl
    | cons p rest ih =>
      rw [List.foldl_cons, ih, List.reverse_cons, List.append_assoc]
      rfl
  simpa [start] using hfold f.params { place := f.place }

lemma types_before (scope : Scope) (f : Function) (n : Nat) :
    (before scope f n).types = (f.definitionsBefore n).reverse := by
  rw [before, types_behind, types_start, Function.definitionsBefore, List.reverse_append]

lemma type?_before (hd : f.DefinesOnce) (h : (t, type) ∈ f.definitionsBefore n) :
    (before scope f n).type? t = some type := by
  have hkeys := (List.nodup_append.mp (hd.nodup n)).1
  rw [type?, types_before]
  apply Linked.lookup_eq_some (List.mem_reverse.mpr h)
  intro p hp he
  exact congrArg Prod.snd (List.inj_on_of_nodup_map hkeys (List.mem_reverse.mp hp) h he)

lemma type?_before_of_ahead (hd : f.DefinesOnce) (h : f.Ahead n t) : (before scope f n).type? t = none := by
  obtain ⟨type, hlater⟩ := Function.ahead_iff.mp h
  rw [type?, types_before, List.lookup_eq_none_iff]
  intro p hp
  have hfront : p.1 ∈ (f.definitionsBefore n).map Prod.fst := List.mem_map_of_mem (List.mem_reverse.mp hp)
  have hbehind : t ∈ ((f.code.drop n).filterMap Instr.definition?).map Prod.fst := List.mem_map.mpr ⟨_, hlater, rfl⟩
  have hne := (List.nodup_append.mp (hd.nodup n)).2.2 _ hfront _ hbehind
  simpa using hne.symm

end Facts

lemma differ?_of_mem_flows {result : Ty} (hc : facts.clash? rules result i = none) {v : Operand}
    (hf : (v, type) ∈ i.flows result) : differ? (facts.static? rules.scope v) type.space? = none := by
  cases i with
  | phi r incoming t =>
    obtain ⟨p, hp, he⟩ := List.mem_map.mp hf
    cases he
    exact List.findSome?_eq_none_iff.mp hc p hp
  | element r base is t =>
    cases List.mem_singleton.mp hf
    exact hc
  | cast r v t =>
    cases List.mem_singleton.mp hf
    exact ((Option.orElse_eq_none _ _).mp hc).1
  | ret v =>
    cases v with
    | none => cases hf
    | some v =>
      cases List.mem_singleton.mp hf
      exact hc
  | _ => cases hf

lemma eq_of_flow {v : Verified} (h : function rules f = .ok v) (hd : f.DefinesOnce) {source target : Space}
    (hf : f.Flow n t source target) (hn : ¬ f.Ahead n t) : source = target := by
  obtain ⟨i, type, type', hi, hflow, hdef, hs, ht⟩ := hf
  have hbefore : (t, type) ∈ f.definitionsBefore n := by
    rw [Function.definitions_eq f n, List.mem_append] at hdef
    exact hdef.resolve_right fun hlater => hn (Function.ahead_iff.mpr ⟨type, hlater⟩)
  have hstatic : (Facts.before rules.scope f n).static? rules.scope (.temp t) = some source := by
    rw [Facts.static?, Facts.type?_before hd hbefore]
    exact hs
  exact differ?_eq_none_iff.mp (differ?_of_mem_flows (clash?_before h hi) hflow) _ _ hstatic ht

/-- A body that passes mixes no spaces where it passes pointers on, unless it does so with a temporary whose definition
is listed no earlier. Of such a temporary the pass knows no type. -/
theorem flows_keep_spaces_iff {v : Verified} (h : function rules f = .ok v) (hd : f.DefinesOnce) :
    ((∀ n t source target, f.Flow n t source target → source = target) ↔
      ∀ n t source target, f.Flow n t source target → f.Ahead n t → source = target) ∧
    ∀ n t, f.Ahead n t → (Facts.before rules.scope f n).type? t = none := by
  refine ⟨⟨fun hall n t source target hf _ => hall n t source target hf, fun hahead n t source target hf => ?_⟩,
    fun n t => Facts.type?_before_of_ahead hd⟩
  by_cases hn : f.Ahead n t
  · exact hahead n t source target hf hn
  · exact eq_of_flow h hd hf hn

def spin : Function where
  name := "spin"
  result := .void
  params := [(0, .ptr .f32 .shared)]
  blocks := [
    ⟨0, [.branch 1]⟩,
    ⟨1, [.phi 1 [(.temp 0, 0), (.temp 2, 1)] (.ptr .f32 .shared), .alloca 2 .f32 none (.ptr .f32 .threadLocal),
      .branch 1]⟩]

theorem flow_is_missed_spin :
    spin.DefinesOnce ∧ (∃ v, function { scope := { space? := fun _ => none } } spin = .ok v) ∧
      spin.Flow 1 2 .threadLocal .shared ∧ ¬ ∀ n t source target, spin.Flow n t source target → source = target := by
  have hf : spin.Flow 1 2 .threadLocal .shared :=
    ⟨_, .ptr .f32 .threadLocal, .ptr .f32 .shared, rfl, by simp [Instr.flows], by decide, rfl, rfl⟩
  exact ⟨by decide, ⟨_, rfl⟩, hf, fun h => nomatch h 1 2 _ _ hf⟩

def stride : Function where
  name := "stride"
  result := .void
  params := [(0, .ptr .f32 .shared)]
  blocks := [
    ⟨0, [.branch 1]⟩,
    ⟨1, [.phi 1 [(.temp 0, 0), (.temp 2, 1)] (.ptr .f32 .shared),
      .element 2 (.temp 1) [.constant 1] (.ptr .f32 .shared), .branch 1]⟩]

theorem flows_keep_spaces_iff_stride :
    let scope : Scope := { space? := fun _ => none }
    (∃ v, function { scope } stride = .ok v) ∧ stride.DefinesOnce ∧ stride.Flow 1 2 .shared .shared ∧
      stride.Ahead 1 2 ∧ (Facts.before scope stride 1).type? 2 = none ∧
      ∀ n t source target, stride.Flow n t source target → source = target := by
  intro scope
  have hd : stride.DefinesOnce := by decide
  have ha : stride.Ahead 1 2 := ⟨2, _, by decide, rfl, rfl⟩
  obtain ⟨hiff, hnone⟩ := @flows_keep_spaces_iff { scope } stride _ rfl hd
  refine ⟨⟨_, rfl⟩, hd, ⟨_, .ptr .f32 .shared, .ptr .f32 .shared, rfl, by simp [Instr.flows], by decide, rfl, rfl⟩, ha,
    hnone 1 2 ha, hiff.mpr ?_⟩
  rintro n t source target ⟨i, type, type', hi, hf, hdef, hs, ht⟩ _
  have hdefined : ∀ d ∈ stride.definitions, d.2.space? = some .shared := by decide
  have hflows : ∀ i ∈ stride.code, ∀ p ∈ i.flows stride.result, p.2.space? = some .shared := by decide
  have hsource := hs.symm.trans (hdefined _ hdef)
  have htarget := ht.symm.trans (hflows i (List.mem_of_getElem? hi) _ hf)
  exact (Option.some.inj hsource).trans (Option.some.inj htarget).symm

end Verify

end DeviceLink
