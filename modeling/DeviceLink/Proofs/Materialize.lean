import DeviceLink.Reach
import DeviceLink.Proofs.Graph
import DeviceLink.Proofs.Verify

namespace DeviceLink

open Fallible

namespace Loader

structure Serves (l : Loader) (names : List String) (source : Source) : Prop where
  names : l.slots.map (·.name) = names
  outcomes {s : Slot} (hs : s ∈ l.slots) {o : Except LoadError Ir.Module} (ho : s.outcome = some o) :
    o = source.fetch s.name

variable {l : Loader} {names : List String} {source : Source}

lemma ofNames_serves (names : List String) (source : Source) : (ofNames names).Serves names source := by
  refine ⟨by simp [ofNames, Function.comp_def], ?_⟩
  intro s hs o ho
  obtain ⟨name, _, rfl⟩ := List.mem_map.mp hs
  cases ho

lemma load_fst (h : l.Serves names source) (id : Nat) :
    (l.load source id).1 =
      match names[id]? with
      | none => .error (.internal (.noSlot id))
      | some name => answer name (source.fetch name) := by
  rw [← h.names, List.getElem?_map]
  unfold load
  cases hs : l.slots[id]? with
  | none => rfl
  | some s =>
    cases ho : s.outcome with
    | none => simp [ho]
    | some o => simp [ho, h.outcomes (List.mem_of_getElem? hs) ho]

lemma load_serves (h : l.Serves names source) (id : Nat) : (l.load source id).2.Serves names source := by
  unfold load
  split
  · exact h
  · rename_i s hs
    split
    · exact h
    · refine ⟨?_, ?_⟩
      · have hn : (l.slots.map (·.name))[id]? = some s.name := by simp [hs]
        obtain ⟨_, hn⟩ := List.getElem?_eq_some_iff.mp hn
        rw [← h.names, List.map_set]
        dsimp only
        rw [← hn, List.set_getElem_self]
      · intro t ht o ho
        rcases List.mem_or_eq_of_mem_set ht with ht | rfl
        · exact h.outcomes ht ho
        · exact (Option.some.inj ho).symm

end Loader

namespace Program

def moduleNames (p : Program) : List String := p.graph.modules.map (·.name)

def outcome (p : Program) (id : SymbolId) : Except Fault Body := (p.materialize p.loader id).1

inductive DefinedIn (p : Program) (s : Symbol) (m : Ir.Module) : Body → Prop
  | function {f : Ir.Function} {v : Verify.Verified} (hk : s.kind = .function)
      (hf : m.function? s.name = some f) (hd : f.isDeclaration = false)
      (hv : Verify.function (p.rules s.owner m) f = .ok v) : DefinedIn p s m (.function v)
  | global {g : Ir.Global} (hk : s.kind = .data) (hg : m.global? s.name = some g)
      (hp : g.space = s.space) (hv : Verify.global (p.scope s.owner m) g = .ok ()) :
      DefinedIn p s m (.global g)

def Defines (p : Program) (id : SymbolId) (body : Body) : Prop :=
  ∃ s m, p.graph.symbols[id]? = some s ∧ p.source.fetch (p.graph.moduleName s.owner) = .ok m ∧
    p.DefinedIn s m body

lemma define_eq_ok_iff {p : Program} {s : Symbol} {m : Ir.Module} {body : Body} :
    p.define s m = .ok body ↔ p.DefinedIn s m body := by
  constructor
  · intro h
    unfold define at h
    cases hk : s.kind with
    | function =>
      simp only [hk] at h
      split at h
      · cases h
      · rename_i f hf
        obtain ⟨v, hv, hb⟩ := bind_eq_ok_iff.mp h
        obtain rfl := Except.ok.inj hb
        obtain ⟨hf, hd⟩ := Option.filter_eq_some_iff.mp hf
        exact .function hk hf (by simpa using hd) hv
    | data =>
      simp only [hk] at h
      split at h
      · cases h
      · rename_i g hg
        split at h
        · cases h
        · rename_i hp
          obtain ⟨_, hv, hb⟩ := bind_eq_ok_iff.mp h
          obtain rfl := Except.ok.inj hb
          exact .global hk hg (not_not.mp hp) hv
  · intro h
    cases h with
    | @function f v hk hf hd hv =>
      have hf' : (m.function? s.name).filter (fun f => !f.isDeclaration) = some f :=
        Option.filter_eq_some_iff.mpr ⟨hf, by simp [hd]⟩
      simp only [define, hk, hf', hv]
      rfl
    | global hk hg hp hv =>
      simp only [define, hk, hg, hp, ne_eq, not_true_eq_false, if_false, hv]
      rfl

lemma loader_serves (p : Program) : p.loader.Serves p.moduleNames p.source :=
  Loader.ofNames_serves _ _

lemma materialize_fst {p : Program} {l : Loader} (h : l.Serves p.moduleNames p.source) (id : SymbolId) :
    (p.materialize l id).1 = p.outcome id := by
  unfold outcome materialize
  split
  · rfl
  · simp only [Loader.load_fst h, Loader.load_fst p.loader_serves]

lemma materialize_serves {p : Program} {l : Loader} (h : l.Serves p.moduleNames p.source)
    (id : SymbolId) : (p.materialize l id).2.Serves p.moduleNames p.source := by
  unfold materialize
  split
  · exact h
  · exact Loader.load_serves h _

lemma outcome_of_symbol {p : Program} (hg : p.graph.Bounded) {id : SymbolId} {s : Symbol}
    (hs : p.graph.symbols[id]? = some s) :
    p.outcome id =
      (Loader.answer (p.graph.moduleName s.owner) (p.source.fetch (p.graph.moduleName s.owner))).bind
        (p.define s) := by
  have ho : s.owner < p.graph.modules.length := hg.owners (List.mem_of_getElem? hs)
  have hn : p.moduleNames[s.owner]? = some (p.graph.moduleName s.owner) := by
    simp [moduleNames, Graph.moduleName, ho]
  simp only [outcome, materialize, hs, Loader.load_fst p.loader_serves, hn]

lemma outcome_eq_ok_iff {p : Program} (hg : p.graph.Bounded) {id : SymbolId} {body : Body} :
    p.outcome id = .ok body ↔ p.Defines id body := by
  cases hs : p.graph.symbols[id]? with
  | none => simp [outcome, materialize, Defines, hs]
  | some s =>
    rw [outcome_of_symbol hg hs]
    cases hm : p.source.fetch (p.graph.moduleName s.owner) with
    | error e => simp [Loader.answer, Except.bind, Defines, hs, hm]
    | ok m => simp [Loader.answer, Except.bind, Defines, hs, hm, define_eq_ok_iff]

lemma define_ne_internal {p : Program} {s : Symbol} {m : Ir.Module} (cause : Inconsistency) :
    p.define s m ≠ .error (.internal cause) := by
  intro h
  unfold define at h
  split at h
  · split at h
    · cases h
    · rcases bind_eq_error_iff.mp h with h | ⟨_, _, h⟩
      · obtain ⟨_, _, _, h⟩ := Verify.function_error h
        cases h
      · cases h
  · split at h
    · cases h
    · split at h
      · cases h
      · rcases bind_eq_error_iff.mp h with h | ⟨_, _, h⟩
        · rcases Verify.global_error h with h | ⟨_, _, h⟩ <;> cases h
        · cases h

lemma outcome_ne_internal {p : Program} (hg : p.graph.Bounded) {id : SymbolId}
    (hid : id < p.graph.symbols.length) (cause : Inconsistency) :
    p.outcome id ≠ .error (.internal cause) := by
  rw [outcome_of_symbol hg (List.getElem?_eq_getElem hid)]
  cases p.source.fetch (p.graph.moduleName p.graph.symbols[id].owner) with
  | error e => simp [Loader.answer, Except.bind]
  | ok m => exact define_ne_internal cause

end Program

end DeviceLink
