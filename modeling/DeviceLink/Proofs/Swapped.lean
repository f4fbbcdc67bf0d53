import DeviceLink.Proofs.Origins
import DeviceLink.Proofs.Rules

/-! The order of the operands of a binary operation. The result comes from where the first operand comes from that is
known to come from a memory. So the order decides nothing as long as the operands do not come from two different
memories, and where they do, a later conversion can tell the two orders apart. -/

namespace DeviceLink

def Ir.Instr.swap : Instr → Instr
  | .binary r op lhs rhs t => .binary r op rhs lhs t
  | i => i

namespace Verify

open Fallible Ir

variable {rules : Rules} {scope : Scope} {f : Function} {facts : Facts} {pass pass' : Pass} {i j : Instr}
  {code code' : List Instr} {n : Nat} {v : Verified} {o s : Space}

@[simp] lemma swap_swap (i : Instr) : i.swap.swap = i := by cases i <;> rfl

section Refill

lemma length_modify_code (f : Function) (n : Nat) :
    (f.code.modify n Instr.swap).length = (f.blocks.flatMap (·.code)).length :=
  List.length_modify ..

lemma refill_code (blocks : List Block) : refill blocks (blocks.flatMap (·.code)) = blocks := by
  induction blocks with
  | nil => rfl
  | cons b rest ih => simp [refill, ih]

lemma refill_refill {blocks : List Block} (h : code.length = (blocks.flatMap (·.code)).length) (code' : List Instr) :
    refill (refill blocks code) code' = refill blocks code' := by
  induction blocks generalizing code code' with
  | nil => rfl
  | cons b rest ih =>
    rw [List.flatMap_cons, List.length_append] at h
    have hb : (code.take b.code.length).length = b.code.length := by
      rw [List.length_take]
      omega
    have hrest : (code.drop b.code.length).length = (rest.flatMap (·.code)).length := by
      rw [List.length_drop]
      omega
    simp only [refill, hb, ih hrest]

end Refill

def swapAt (f : Function) (n : Nat) : Function :=
  { f with blocks := refill f.blocks (f.code.modify n Instr.swap) }

def Verified.swapAt (v : Verified) (n : Nat) : Verified := { v with function := Verify.swapAt v.function n }

lemma code_swapAt (f : Function) (n : Nat) : (swapAt f n).code = f.code.modify n Instr.swap :=
  code_refill (length_modify_code f n)

lemma swapAt_swapAt (f : Function) (n : Nat) : swapAt (swapAt f n) n = f := by
  have hcode : (swapAt f n).code.modify n Instr.swap = f.blocks.flatMap (·.code) := by
    rw [code_swapAt, List.modify_modify_eq, show Instr.swap ∘ Instr.swap = id from funext swap_swap, List.modify_id]
    rfl
  have hblocks : refill (swapAt f n).blocks ((swapAt f n).code.modify n Instr.swap) = f.blocks := by
    rw [hcode, swapAt, refill_refill (length_modify_code f n), refill_code]
  rw [swapAt, hblocks]
  rfl

lemma before_blocks (scope : Scope) {blocks : List Block}
    (h : (Function.code { f with blocks }).take n = f.code.take n) :
    Facts.before scope { f with blocks } n = .before scope f n := by
  rw [Facts.before, h]
  rfl

lemma before_swapAt (scope : Scope) (f : Function) (n : Nat) :
    Facts.before scope (swapAt f n) n = .before scope f n := by
  apply before_blocks
  change (swapAt f n).code.take n = _
  rw [code_swapAt, List.take_modify, List.modify_eq_self (List.length_take_le n f.code)]

inductive Torn (facts : Facts) (scope : Scope) : Instr → Prop
  | binary {r : Temp} {op : BinaryOp} {lhs rhs : Operand} {type : Ty} {s s' : Space}
      (hl : facts.origin? scope lhs = some s) (hr : facts.origin? scope rhs = some s') (hne : s ≠ s') :
      Torn facts scope (.binary r op lhs rhs type)

lemma Torn.swap (h : Torn facts scope i) : Torn facts scope i.swap := by
  cases h with
  | binary hl hr hne => exact .binary hr hl hne.symm

section Step

variable {r : Temp} {op : BinaryOp} {lhs rhs : Operand} {type : Ty}

lemma origin_comm (h : ¬ Torn facts scope (.binary r op lhs rhs type)) :
    (facts.origin? scope lhs <|> facts.origin? scope rhs) = (facts.origin? scope rhs <|> facts.origin? scope lhs) := by
  cases hl : facts.origin? scope lhs with
  | none => cases facts.origin? scope rhs <;> rfl
  | some s =>
    cases hr : facts.origin? scope rhs with
    | none => rfl
    | some s' =>
      have he : s = s' := by
        by_contra hne
        exact h (.binary hl hr hne)
      rw [he]

lemma clash?_binary_eq_none_iff {result : Ty} :
    facts.clash? rules result (.binary r op lhs rhs type) = none ↔
      differ? (facts.static? rules.scope lhs) type.space? = none ∧
        differ? (facts.static? rules.scope rhs) type.space? = none ∧
        differ? (facts.origin? rules.scope lhs <|> facts.origin? rules.scope rhs) type.specific? = none := by
  simp only [Facts.clash?, Facts.clash?.static, Facts.clash?.origin]
  rw [Option.orElse_eq_none, Option.orElse_eq_none]

lemma step_binary (hc : pass.facts.clash? rules f.result (.binary r op lhs rhs type) = none) :
    step rules f pass (.binary r op lhs rhs type) =
      .ok (.binary r op lhs rhs type, { pass with
        facts := pass.facts.define r type
          (pass.facts.origin? rules.scope lhs <|> pass.facts.origin? rules.scope rhs) }) := by
  rw [step, hc]
  rfl

lemma lower_swap (facts : Facts) (rules : Rules) (i : Instr) :
    facts.lower rules i.swap = (facts.lower rules i).swap := by
  cases i with
  | spaceCast r v target t => cases hu : facts.isUnproven rules v target <;> simp [Instr.swap, Facts.lower, hu]
  | spaceTest r v space => cases ha : facts.answer? rules v space <;> simp [Instr.swap, Facts.lower, folded, ha]
  | _ => rfl

lemma step_swap (hn : ¬ Torn pass.facts rules.scope i) (h : step rules f pass i = .ok (j, pass')) :
    step rules f pass i.swap = .ok (j.swap, pass') := by
  obtain ⟨hc, hj, _⟩ := of_step_eq_ok h
  cases i with
  | binary r op lhs rhs type =>
    obtain ⟨hl, hr, ho⟩ := clash?_binary_eq_none_iff.mp hc
    rw [origin_comm hn] at ho
    rw [step_binary hc] at h
    cases h
    rw [Instr.swap, step_binary (clash?_binary_eq_none_iff.mpr ⟨hr, hl, ho⟩), origin_comm hn]
  | _ =>
    have hswap : j.swap = j := by
      rw [hj, ← lower_swap]
      rfl
    rw [hswap]
    exact h

end Step

lemma walkCode_swap (hn : ∀ i, code[n]? = some i → ¬ Torn (pass.facts.behind rules.scope (code.take n)) rules.scope i)
    (h : walkCode rules f pass code = .ok (code', pass')) :
    walkCode rules f pass (code.modify n Instr.swap) = .ok (code'.modify n Instr.swap, pass') := by
  -- a swap leaves the pass as it is, so behind the position both walks are the same
  induction code generalizing n pass code' with
  | nil =>
    cases h
    simp [walkCode]
  | cons i rest ih =>
    obtain ⟨⟨j, pass₁⟩, hi, h⟩ := bind_eq_ok_iff.mp h
    obtain ⟨⟨rest', pass₂⟩, hr, h⟩ := bind_eq_ok_iff.mp h
    cases h
    cases n with
    | zero => exact bind_eq_ok_iff.mpr ⟨_, step_swap (hn i rfl) hi, bind_eq_ok_iff.mpr ⟨_, hr, rfl⟩⟩
    | succ n =>
      have hrest : ∀ k, rest[n]? = some k → ¬ Torn (pass₁.facts.behind rules.scope (rest.take n)) rules.scope k := by
        rw [(of_step_eq_ok hi).2.2]
        exact hn
      exact bind_eq_ok_iff.mpr ⟨_, hi, bind_eq_ok_iff.mpr ⟨_, ih hrest hr, rfl⟩⟩

lemma walkCode_blocks (rules : Rules) (f : Function) (blocks : List Block) (pass : Pass) (code : List Instr) :
    walkCode rules { f with blocks } pass code = walkCode rules f pass code := by
  induction code generalizing pass with
  | nil => rfl
  | cons i rest ih =>
    simp only [walkCode, ih]
    rfl

lemma function_swapAt (hn : ∀ i, f.code[n]? = some i → ¬ Torn (.before rules.scope f n) rules.scope i)
    (h : function rules f = .ok v) : function rules (swapAt f n) = .ok (v.swapAt n) := by
  obtain ⟨⟨code, pass⟩, hw, rfl⟩ := function_eq_ok_iff.mp h
  have hlength := (walkCode_rewrites hw).length
  refine function_eq_ok_iff.mpr ⟨(code.modify n Instr.swap, pass), ?_, ?_⟩
  · rw [code_swapAt, swapAt, walkCode_blocks]
    exact walkCode_swap hn hw
  · have hblocks : refill (refill f.blocks (f.code.modify n Instr.swap)) (code.modify n Instr.swap) =
        refill (refill f.blocks code) ((report f (code, pass)).function.code.modify n Instr.swap) := by
      rw [code_report hw, refill_refill (length_modify_code f n), refill_refill hlength]
    simp only [report, Verified.swapAt, swapAt] at hblocks ⊢
    rw [hblocks]

/-- The order of the operands at a position has no influence: the body passes in both orders or in neither, and what it
becomes is the same but for that order. -/
structure Blind (rules : Rules) (f : Function) (n : Nat) : Prop where
  passes {v : Verified} (h : function rules f = .ok v) : function rules (swapAt f n) = .ok (v.swapAt n)
  fails {e : Fault} (h : function rules f = .error e) : ∃ e', function rules (swapAt f n) = .error e'

lemma blind_of_not_torn (hn : ∀ i, f.code[n]? = some i → ¬ Torn (.before rules.scope f n) rules.scope i) :
    Blind rules f n := by
  refine ⟨function_swapAt hn, fun {e} he => ?_⟩
  cases hs : function rules (swapAt f n) with
  | error e' => exact ⟨e', rfl⟩
  | ok w =>
    have hback : ∀ i, (swapAt f n).code[n]? = some i →
        ¬ Torn (.before rules.scope (swapAt f n) n) rules.scope i := by
      intro i hi ht
      simp only [code_swapAt, List.getElem?_modify, if_true] at hi
      obtain ⟨k, hk, rfl⟩ := Option.map_eq_some_iff.mp hi
      rw [before_swapAt] at ht
      exact hn k hk (swap_swap k ▸ ht.swap)
    have hw := function_swapAt hback hs
    rw [swapAt_swapAt] at hw
    cases he.symm.trans hw

section Grounded

def Facts.Grounded (facts : Facts) : Prop := ∀ t s, facts.origins.lookup t = some s → s.isSpecific = true

namespace Facts

variable {t : Temp} {type : Ty} {origin : Option Space}

lemma Grounded.isSpecific (h : facts.Grounded) {p : Operand} (ho : facts.origin? scope p = some o) :
    o.isSpecific = true := by
  cases p with
  | temp t => exact h t o ho
  | global x => exact (Option.filter_eq_some_iff.mp ho).2
  | _ => cases ho

lemma Grounded.define (h : facts.Grounded) (ho : ∀ o, origin = some o → o.isSpecific = true) :
    (facts.define t type origin).Grounded := by
  intro u s hu
  by_cases he : u = t
  · subst he
    cases hk : (origin <|> type.specific?) with
    | some o =>
      rw [lookup_define_self hk] at hu
      cases hu
      cases origin with
      | none => exact (specific?_eq_some_iff.mp hk).2
      | some o => exact ho s hk
    | none =>
      simp only [Facts.define, hk] at hu
      exact h u s hu
  · rw [lookup_define_of_ne he] at hu
    exact h u s hu

lemma Grounded.given (h : facts.Grounded) (ho : facts.given? scope i = some o) : o.isSpecific = true := by
  cases i with
  | alloca =>
    cases ho
    rfl
  | element | cast => exact h.isSpecific ho
  | spaceCast r p target t =>
    by_cases ht : target = .generic
    · rw [given?, convertedOrigin?, if_pos ht] at ho
      exact (Option.filter_eq_some_iff.mp ho).2
    · rw [given?, convertedOrigin?, if_neg ht] at ho
      cases ho
      simpa [Space.isSpecific] using ht
  | checkedCast =>
    rw [given?, Option.filter_eq_some_iff] at ho
    exact ho.2
  | select => exact h.isSpecific (commonOrigin?_eq_some_iff.mp ho).1
  | binary r op lhs rhs t =>
    cases hl : facts.origin? scope lhs with
    | none =>
      rw [given?, hl] at ho
      exact h.isSpecific ho
    | some s =>
      rw [given?, hl] at ho
      cases ho
      exact h.isSpecific hl
  | _ => cases ho

lemma Grounded.after (h : facts.Grounded) (scope : Scope) (i : Instr) : (facts.after scope i).Grounded := by
  cases hd : i.definition? with
  | none =>
    intro t s hs
    rw [(after_of_definition?_eq_none hd).2] at hs
    exact h t s hs
  | some d =>
    rw [after_eq_define hd]
    exact h.define fun o => h.given

lemma grounded_before (scope : Scope) (f : Function) (n : Nat) : (before scope f n).Grounded := by
  have hstart : (start f).Grounded := List.foldlRecOn _ _ nofun fun _ h _ _ => h.define nofun
  exact List.foldlRecOn _ _ hstart fun _ h i _ => h.after scope i

end Facts

end Grounded

section Told

variable {r r' : Temp} {op : BinaryOp} {lhs rhs : Operand} {type type' : Ty}

lemma Facts.source_define_self (facts : Facts) (scope : Scope) (t : Temp) (type : Ty) (origin : Option Space) :
    (facts.define t type origin).source scope (.temp t) = type.specific?.getD .generic := by
  rw [source, static?, type?_define_self, Option.bind_some, Ty.specific?]
  cases type.space? with
  | none => rfl
  | some s => cases s <;> rfl

lemma conversionClash?_define_self (ht : ∀ t, type.specific? = some t → o = t) (hs : s ≠ .generic) :
    (facts.define r type (some o)).conversionClash? rules (.temp r) s = none ↔ o = s := by
  have horigin : (facts.define r type (some o)).origin? rules.scope (.temp r) = some o := Facts.lookup_define_self rfl
  rw [Facts.conversionClash?, Facts.source_define_self, horigin]
  cases hk : type.specific? with
  | none => simp [hs, hs.symm]
  | some t =>
    obtain rfl := ht t hk
    by_cases he : o = s <;> simp [he, hs]

lemma origin_eq_specific? {result : Ty} (hc : facts.clash? rules result (.binary r op lhs rhs type) = none)
    (ho : facts.origin? rules.scope lhs = some o) : ∀ t, type.specific? = some t → o = t := by
  have hd := (clash?_binary_eq_none_iff.mp hc).2.2
  rw [ho] at hd
  exact fun t => differ?_eq_none_iff.mp hd o t rfl

lemma before_succ_binary (hi : f.code[n]? = some (.binary r op lhs rhs type))
    (ho : (Facts.before scope f n).origin? scope lhs = some o) :
    Facts.before scope f (n + 1) = (Facts.before scope f n).define r type (some o) := by
  rw [Facts.before_succ hi, Facts.after, ho]
  rfl

lemma origin_eq_target (h : function rules f = .ok v) (hi : f.code[n]? = some (.binary r op lhs rhs type))
    (hx : f.code[n + 1]? = some (.spaceCast r' (.temp r) s type'))
    (ho : (Facts.before rules.scope f n).origin? rules.scope lhs = some o) (hs : s ≠ .generic) : o = s := by
  have hc := clash?_before h hx
  rw [before_succ_binary hi ho] at hc
  exact (conversionClash?_define_self (origin_eq_specific? (clash?_before h hi) ho) hs).mp hc

end Told

section Cut

def cut (f : Function) (n : Nat) (i : Instr) : Function := { f with blocks := [⟨0, f.code.take (n + 1) ++ [i]⟩] }

variable {m : Nat}

lemma code_cut (f : Function) (n : Nat) (i : Instr) : (cut f n i).code = f.code.take (n + 1) ++ [i] := by
  simp [cut, Function.code]

lemma length_take_code (hn : n < f.code.length) : (f.code.take (n + 1)).length = n + 1 :=
  List.length_take_of_le hn

lemma take_code_cut (hn : n < f.code.length) (hm : m ≤ n + 1) : (cut f n i).code.take m = f.code.take m := by
  rw [code_cut, List.take_append_of_le_length (by rwa [length_take_code hn]), List.take_take, Nat.min_eq_left hm]

lemma before_cut (hn : n < f.code.length) (hm : m ≤ n + 1) :
    Facts.before scope (cut f n i) m = .before scope f m :=
  before_blocks scope (take_code_cut hn hm)

lemma getElem?_code_cut (hn : n < f.code.length) (hm : m < n + 1) : (cut f n i).code[m]? = f.code[m]? := by
  rw [code_cut, List.getElem?_append_left (by rwa [length_take_code hn]), List.getElem?_take_of_lt hm]

lemma getElem?_code_cut_succ (hn : n < f.code.length) : (cut f n i).code[n + 1]? = some i := by
  rw [code_cut, List.getElem?_append_right (length_take_code hn).le, length_take_code hn, Nat.sub_self]
  rfl

lemma exists_function_cut (h : function rules f = .ok v) (hn : n < f.code.length)
    (hc : (Facts.before rules.scope f (n + 1)).clash? rules f.result i = none) :
    ∃ w, function rules (cut f n i) = .ok w := by
  refine exists_function_iff.mpr fun m k hk => ?_
  rcases Nat.lt_trichotomy m (n + 1) with hm | rfl | hm
  · rw [getElem?_code_cut hn hm] at hk
    rw [before_cut hn (Nat.le_of_lt hm)]
    exact clash?_before h hk
  · rw [getElem?_code_cut_succ hn] at hk
    obtain rfl := Option.some.inj hk
    rw [before_cut hn (Nat.le_refl _)]
    exact hc
  · have hlength : (cut f n i).code.length ≤ m := by
      rw [code_cut, List.length_append, length_take_code hn]
      exact hm
    rw [List.getElem?_eq_none hlength] at hk
    cases hk

lemma exists_telling (h : function rules f = .ok v) (hi : f.code[n]? = some i)
    (ht : Torn (.before rules.scope f n) rules.scope i) :
    ∃ g : Function, g.params = f.params ∧ g.code.take (n + 1) = f.code.take (n + 1) ∧
      (∃ w, function rules g = .ok w) ∧ ∃ e, function rules (swapAt g n) = .error e := by
  have hn : n < f.code.length := (List.getElem?_eq_some_iff.mp hi).1
  cases ht with
  | @binary r op lhs rhs type s s' hl hr hne =>
    have hs : s ≠ .generic := by simpa [Space.isSpecific] using (Facts.grounded_before _ f n).isSpecific hl
    -- in this order the result can be converted to the memory of the left operand, and in the other it cannot
    let x : Instr := .spaceCast r (.temp r) s (.ptr .i8 s)
    refine ⟨cut f n x, rfl, take_code_cut hn (Nat.le_refl _), ?_, ?_⟩
    · apply exists_function_cut h hn
      rw [before_succ_binary hi hl]
      exact (conversionClash?_define_self (origin_eq_specific? (clash?_before h hi) hl) hs).mpr rfl
    · cases hw : function rules (swapAt (cut f n x) n) with
      | error e => exact ⟨e, rfl⟩
      | ok w =>
        have hi' : (swapAt (cut f n x) n).code[n]? = some (.binary r op rhs lhs type) := by
          rw [code_swapAt, List.getElem?_modify_eq, getElem?_code_cut hn (Nat.lt_succ_self n), hi]
          rfl
        have hx : (swapAt (cut f n x) n).code[n + 1]? = some x := by
          rw [code_swapAt, List.getElem?_modify_ne _ _ (Nat.ne_of_lt (Nat.lt_succ_self n)), getElem?_code_cut_succ hn]
        rw [← before_cut hn (Nat.le_succ n), ← before_swapAt] at hr
        exact absurd (origin_eq_target hw hi' hx hr hs).symm hne

end Cut

/-- The order of the operands of an operation has no influence, unless they come from different memories. If they do and
the body passes, then of some body that begins in the same way the one order passes and the other does not. -/
theorem operand_order_is_blind (hi : f.code[n]? = some i) :
    (¬ Torn (.before rules.scope f n) rules.scope i → Blind rules f n) ∧
    (Torn (.before rules.scope f n) rules.scope i → (∃ v, function rules f = .ok v) →
      ∃ g : Function, g.params = f.params ∧ g.code.take (n + 1) = f.code.take (n + 1) ∧
        (∃ w, function rules g = .ok w) ∧ ∃ e, function rules (swapAt g n) = .error e) := by
  refine ⟨fun hn => blind_of_not_torn fun k hk => ?_, fun ht ⟨v, h⟩ => exists_telling h hi ht⟩
  rwa [Option.some.inj (hk.symm.trans hi)]

def mingle : Function where
  name := "mingle"
  result := .void
  params := [(0, .ptr .f32 .shared), (1, .ptr .f32 .global)]
  blocks := [
    ⟨0, [.cast 2 (.temp 0) .i64, .cast 3 (.temp 1) .i64, .binary 4 .add (.temp 2) (.temp 3) .i64,
      .cast 5 (.temp 4) (.ptr .f32 .shared), .ret none]⟩]

/-- The body passes, and with the operands of the sum swapped it does not. -/
theorem order_decides_mingle :
    let rules : Rules := { scope := { space? := fun _ => none } }
    (∃ v, function rules mingle = .ok v) ∧
      (swapAt mingle 2).code[2]? = some (.binary 4 .add (.temp 3) (.temp 2) .i64) ∧
      function rules (swapAt mingle 2) = .error (.invalidCast .unknown "mingle" .global .shared) ∧
      ¬ Blind rules mingle 2 := by
  intro rules
  refine ⟨⟨_, rfl⟩, rfl, rfl, fun h => ?_⟩
  cases (h.passes rfl : function rules (swapAt mingle 2) = _)

def bump : Function where
  name := "bump"
  result := .void
  params := [(0, .ptr .f32 .shared)]
  blocks := [
    ⟨0, [.cast 1 (.temp 0) .i64, .binary 2 .add (.temp 1) (.constant 4) .i64, .branch 1]⟩,
    ⟨1, [.cast 3 (.temp 2) (.ptr .f32 .shared), .spaceTest 4 (.temp 2) .shared, .ret none]⟩]

theorem operand_order_is_blind_bump :
    let rules : Rules := { scope := { space? := fun _ => none } }
    bump.code[1]? = some (.binary 2 .add (.temp 1) (.constant 4) .i64) ∧
      (∃ v, function rules bump = .ok v ∧ v.foldedTests = 1 ∧ function rules (swapAt bump 1) = .ok (v.swapAt 1)) ∧
      ∃ g : Function, g.params = mingle.params ∧ (∃ w, function rules g = .ok w) ∧
        ∃ e, function rules (swapAt g 2) = .error e := by
  intro rules
  refine ⟨rfl, ⟨_, rfl, rfl, ?_⟩, ?_⟩
  · refine ((@operand_order_is_blind rules bump _ 1 rfl).1 fun h => ?_).passes rfl
    cases h with
    | binary _ hr _ => cases hr
  · obtain ⟨g, hp, _, hg⟩ := (@operand_order_is_blind rules mingle _ 2 rfl).2 (.binary rfl rfl (by decide)) ⟨_, rfl⟩
    exact ⟨g, hp, hg⟩

end Verify

end DeviceLink
