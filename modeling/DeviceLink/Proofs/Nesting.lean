import DeviceLink.Proofs.Container
import DeviceLink.Proofs.Session

namespace DeviceLink

open Ir Json

section Rename

variable {f : Operand → Operand}

lemma depth_ofList_map {α : Type} {write : α → Json} {f : α → α} (h : ∀ x, (write (f x)).depth = (write x).depth)
    (xs : List α) : (ofList write (xs.map f)).depth = (ofList write xs).depth := by
  rw [ofList, ofList, depth, depth]
  congr 1
  induction xs with
  | nil => rfl
  | cons x xs ih => simp only [List.map_cons, depthItems, h, ih]

lemma depth_ofOption_map {α : Type} {write : α → Json} {f : α → α} (h : ∀ x, (write (f x)).depth = (write x).depth)
    (x : Option α) : (ofOption write (x.map f)).depth = (ofOption write x).depth := by
  cases x with
  | none => rfl
  | some x => exact h x

lemma depth_withSymbol (v : Operand) (x : String) : (v.withSymbol x).toJson.depth = v.toJson.depth := by
  cases v <;> rfl

lemma depth_mapOperands (h : ∀ v, (f v).toJson.depth = v.toJson.depth) (i : Instr) :
    (i.mapOperands f).toJson.depth = i.toJson.depth := by
  have hl := depth_ofList_map h
  have ho := depth_ofOption_map h
  have hp (incoming : List (Operand × Label)) :
      (ofList (fun p => .array [p.1.toJson, ofTemp p.2]) (incoming.map fun p => (f p.1, p.2))).depth =
        (ofList (fun p => .array [p.1.toJson, ofTemp p.2]) incoming).depth :=
    depth_ofList_map (fun p => by simp [depth, depthItems, h]) incoming
  rw [Instr.mapOperands_eq]
  cases i <;> simp [Instr.operands, Instr.withOperands, Instr.toJson, tagged, ofFields, depth, depthMembers, h, hl, ho,
    List.zip_map', hp]

end Rename

lemma depth_lower {room : Nat} {i : Instr} (h : i.toJson.depth ≤ room) (hr : 3 ≤ room) (facts : Verify.Facts)
    (rules : Verify.Rules) : (facts.lower rules i).toJson.depth ≤ room := by
  unfold Verify.Facts.lower
  split
  · split
    · exact h
    · exact h
  · split
    -- the answer may be deeper than the test was, but it has the same three brackets for every test
    · exact hr
    · exact h
  · exact h

section Shapes

variable {room : Nat}

@[simp] lemma depth_ofList_le {α : Type} {write : α → Json} {xs : List α} :
    (ofList write xs).depth ≤ room + 1 ↔ ∀ x ∈ xs, (write x).depth ≤ room := by
  rw [ofList, depth_array_le, List.forall_mem_map]

lemma depth_blocks_le {blocks : List Block} :
    (ofList Block.toJson blocks).depth ≤ room + 3 ↔ ∀ b ∈ blocks, ∀ i ∈ b.code, i.toJson.depth ≤ room := by
  simp [Block.toJson, ofTemp, ofNat, depth]

lemma depth_function_le {f : Function} {name : String} {visibility : Visibility} {blocks : List Block}
    (h : f.toJson.depth ≤ room + 1) (hb : (ofList Block.toJson blocks).depth ≤ room) :
    Json.depth { f with name, visibility, blocks : Function }.toJson ≤ room + 1 := by
  simp only [Function.toJson, depth_ofFields_le, List.forall_mem_cons] at h ⊢
  obtain ⟨_, hresult, hparams, _, _, hrest⟩ := h
  exact ⟨Nat.zero_le _, hresult, hparams, hb, Nat.zero_le _, hrest⟩

lemma depth_module_le {m : Module} : m.toJson.depth ≤ room + 3 ↔
    (∀ f ∈ m.functions, f.toJson.depth ≤ room + 1) ∧ ∀ g ∈ m.globals, g.toJson.depth ≤ room + 1 := by
  have hs (names : List String) : (ofStrings names).depth ≤ room + 1 := by simp [ofStrings]
  have ht : (ofFields (m.dispatchTables.entries.map fun t => (t.1, ofStrings t.2))).depth ≤ room + 2 := by
    rw [depth_ofFields_le, List.forall_mem_map]
    exact fun t _ => hs t.2
  simp [Module.toJson, Nat.le_succ_of_le (hs _), ht]

end Shapes

namespace Linked

variable {p : Program} {s : Symbol} {m : Module} {b : Body} {room : Nat} {id : SymbolId}

def Definition.toJson : Definition → Json
  | .function f => f.toJson
  | .global d => d.toJson

lemma Naming.depth_rename (n : Naming) (owner : ModuleId) (v : Operand) :
    (n.rename owner v).toJson.depth = v.toJson.depth := by
  unfold Naming.rename
  split
  · rfl
  · exact depth_withSymbol v _

lemma depth_image (n : Naming) (hd : p.DefinedIn s m b) (hm : m.toJson.depth ≤ room + 6) (hr : 3 ≤ room) :
    (n.image id s b).toJson.depth ≤ room + 4 := by
  -- six brackets are open around an instruction: the module, its functions, a function, its blocks, a block, its code
  obtain ⟨hfs, hgs⟩ := depth_module_le.mp hm
  cases hd with
  | @function f v _ hf _ hv =>
    have hfun := hfs f (List.mem_of_find?_eq_some hf)
    obtain ⟨blocks, hv, hlow⟩ := Verify.function_lowered hv
    have hcode : ∀ b ∈ f.blocks, ∀ i ∈ b.code, i.toJson.depth ≤ room := by
      simp only [Function.toJson, depth_ofFields_le, List.forall_mem_cons] at hfun
      exact depth_blocks_le.mp hfun.2.2.2.1
    simp only [Naming.image, hv, Definition.toJson]
    refine depth_function_le hfun (depth_blocks_le.mpr ?_)
    simp only [List.forall_mem_map, depth_mapOperands (n.depth_rename s.owner)]
    intro c hc j hj
    obtain ⟨b, hb, hlow⟩ := hlow c hc
    obtain ⟨i, hi, facts, rfl⟩ := hlow j hj
    exact depth_lower (hcode b hb i hi) hr facts _
  | @global g _ hg _ _ =>
    have hglob := hgs g (List.mem_of_find?_eq_some hg)
    have hinit := depth_ofOption_map (n.depth_rename s.owner) g.initializer
    simp only [Naming.image, Definition.toJson, Global.toJson, depth_ofFields_le, List.forall_mem_cons,
      hinit] at hglob ⊢
    exact ⟨Nat.zero_le _, hglob.2.1, hglob.2.2.1, hglob.2.2.2.1, hglob.2.2.2.2.1, Nat.zero_le _, List.forall_mem_nil _⟩

end Linked

lemma Source.depth_le_of_fetch {source : Source} {name : String} {m : Module} (h : source.fetch name = .ok m) :
    m.toJson.depth ≤ maxDepth := by
  unfold Source.fetch at h
  split at h
  · cases h
  · split at h
    · cases h
    · rename_i hd
      split at h
      · cases h
        exact Container.depth_le_of_decode hd
      · cases h

namespace Session

variable {s : Session} {e : Strategy} {out : Output}

lemma Links.depth_code {roots : List SymbolId} {a : Analysis} (h : s.Links e roots a out) :
    out.linked.code.toJson.depth ≤ maxDepth := by
  have hc := h.walks.covers
  obtain ⟨ds, hd, hcode⟩ := h.exists_definitions
  have hdef : ∀ d ∈ ds, d.toJson.depth ≤ 125 := by
    intro d hmem
    obtain ⟨id, sym, b, hs, hb, rfl⟩ := Linked.Naming.exists_emits_of_mem h.walks.built hc hd hmem
    obtain ⟨sym', m, hs', hm, hdef⟩ := (Program.outcome_eq_ok_iff h.walks.bounded).mp (hc.bodies.mp hb).2
    obtain rfl : sym' = sym := Option.some.inj (hs'.symm.trans hs)
    have hroom : m.toJson.depth ≤ 121 + 6 := Source.depth_le_of_fetch hm
    exact Linked.depth_image _ hdef hroom (by decide)
  rw [hcode]
  refine (@depth_module_le 124 _).mpr ⟨fun f hf => ?_, fun d hd => ?_⟩
  · exact hdef (.function f) (Linked.mem_filterMap_function?.mp hf)
  · exact hdef (.global d) (Linked.mem_filterMap_global?.mp hd)

theorem decode_bitcode (h : ((runBy e).run.run s).1 = .ok out) :
    Container.decode out.bitcode = .ok out.linked.code := by
  obtain ⟨roots, a, h⟩ := runBy_eq_ok_iff.mp h
  rw [h.bitcode, Container.encode, Container.decode_wrap, Container.readModule_compact,
    if_neg (by decide : ¬ Version.current < .oldest), if_pos h.depth_code]
  rfl

theorem decode_bitcode_twins :
    ∃ out, ((runBy .alone).run.run twins).1 = .ok out ∧ Container.decode out.bitcode = .ok out.linked.code := by
  obtain ⟨a, out, h⟩ := twins_links .alone
  have hrun := runBy_eq_ok_iff.mpr ⟨[0], a, h⟩
  exact ⟨out, hrun, decode_bitcode hrun⟩

end Session

end DeviceLink
