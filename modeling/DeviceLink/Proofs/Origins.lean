import DeviceLink.Proofs.Positions

/-! Whether the type of a pointer names the memory it comes from. Four kinds of instructions of a body that passes can
make a pointer of which type and origin disagree, and without them the two agree at every point. -/

namespace DeviceLink.Verify

open Fallible Ir

variable {rules : Rules} {scope : Scope} {f : Function} {facts : Facts} {i : Instr} {t : Temp} {type : Ty} {o s : Space}
  {origin : Option Space} {v : Operand}

lemma specific?_eq_some_iff : type.specific? = some s ↔ type.space? = some s ∧ s.isSpecific = true :=
  Option.filter_eq_some_iff

namespace Facts

def Consistent (facts : Facts) : Prop :=
  ∀ t type s, facts.type? t = some type → type.specific? = some s → facts.origins.lookup t = some s

def Carries (facts : Facts) (scope : Scope) (v : Operand) (o : Space) : Prop :=
  facts.static? scope v = none ∧ facts.origin? scope v = some o

@[simp]
lemma type?_define_self (facts : Facts) (t : Temp) (type : Ty) (origin : Option Space) :
    (facts.define t type origin).type? t = some type :=
  List.lookup_cons_self

lemma type?_define_of_ne {u : Temp} (h : u ≠ t) : (facts.define t type origin).type? u = facts.type? u := by
  simp [type?, define, List.lookup_cons, beq_false_of_ne h]

lemma lookup_define_self (h : (origin <|> type.specific?) = some o) :
    (facts.define t type origin).origins.lookup t = some o := by
  simp [define, h]

lemma lookup_define_of_ne {u : Temp} (h : u ≠ t) :
    (facts.define t type origin).origins.lookup u = facts.origins.lookup u := by
  cases ho : (origin <|> type.specific?) <;> simp [define, ho, List.lookup_cons, beq_false_of_ne h]

lemma Consistent.define (h : facts.Consistent) (ho : ∀ s o, type.specific? = some s → origin = some o → o = s) :
    (facts.define t type origin).Consistent := by
  intro u type' s hu hs
  by_cases he : u = t
  · subst he
    obtain rfl : type = type' := by simpa using hu
    apply lookup_define_self
    cases origin with
    | none => exact hs
    | some o => exact congrArg some (ho s o hs rfl)
  · rw [type?_define_of_ne he] at hu
    rw [lookup_define_of_ne he]
    exact h u type' s hu hs

lemma not_consistent_define (hs : type.specific? = some s) (hne : o ≠ s) :
    ¬ (facts.define t type (some o)).Consistent := by
  intro h
  have hl := h t type s (type?_define_self ..) hs
  rw [lookup_define_self rfl] at hl
  exact hne (Option.some.inj hl)

lemma consistent_start (f : Function) : (start f).Consistent := by
  unfold start
  generalize hf : ({ place := f.place } : Facts) = facts
  have h : facts.Consistent := by
    subst hf
    nofun
  clear hf
  induction f.params generalizing facts with
  | nil => exact h
  | cons p rest ih => exact ih _ (h.define nofun)

lemma Consistent.origin_eq (h : facts.Consistent) (hv : facts.static? scope v = some s) (hs : s.isSpecific = true)
    (ho : facts.origin? scope v = some o) : o = s := by
  cases v with
  | temp t =>
    obtain ⟨type, ht, hsp⟩ := Option.bind_eq_some_iff.mp hv
    have hl := h t type s ht (specific?_eq_some_iff.mpr ⟨hsp, hs⟩)
    exact Option.some.inj (ho.symm.trans hl)
  | global x =>
    have hx := (Option.filter_eq_some_iff.mp ho).1
    simpa [static?, hx] using hv
  | _ => cases ho

lemma Consistent.carries (h : facts.Consistent) (hv : ∀ s', facts.static? scope v = some s' → s' = s)
    (hs : s.isSpecific = true) (ho : facts.origin? scope v = some o) (hne : o ≠ s) : facts.Carries scope v o := by
  refine ⟨?_, ho⟩
  cases hst : facts.static? scope v with
  | none => rfl
  | some s' =>
    obtain rfl := hv s' hst
    exact absurd (h.origin_eq hst hs ho) hne

lemma commonOrigin?_eq_some_iff {a b : Operand} :
    facts.commonOrigin? scope a b = some o ↔ facts.origin? scope a = some o ∧ facts.origin? scope b = some o := by
  unfold commonOrigin?
  cases facts.origin? scope a <;> cases facts.origin? scope b <;> grind

end Facts

/-- The instructions that a pass lets through although they make a pointer of which type and origin disagree. -/
inductive Mislabels (facts : Facts) (scope : Scope) : Instr → Prop
  | element {r : Temp} {base : Operand} {indices : List Operand} {type : Ty} {o s : Space}
      (hb : facts.Carries scope base o) (ht : type.specific? = some s) (hne : o ≠ s) :
      Mislabels facts scope (.element r base indices type)
  | select {r : Temp} {c a b : Operand} {type : Ty} {o s : Space} (ha : facts.Carries scope a o)
      (hb : facts.Carries scope b o) (ht : type.specific? = some s) (hne : o ≠ s) :
      Mislabels facts scope (.select r c a b type)
  | convert {r : Temp} {v : Operand} {target : Space} {type : Ty} {o s : Space}
      (ho : facts.convertedOrigin? scope v target = some o) (ht : type.specific? = some s) (hne : o ≠ s) :
      Mislabels facts scope (.spaceCast r v target type)
  | check {r : Temp} {v : Operand} {target : Space} {type : Ty} {s : Space} (htarget : target.isSpecific = true)
      (ht : type.specific? = some s) (hne : target ≠ s) : Mislabels facts scope (.checkedCast r v target type)

lemma mislabels_of_given? (h : facts.Consistent) {result : Ty} (hc : facts.clash? rules result i = none)
    (hd : i.definition? = some (t, type)) (hs : type.specific? = some s) (ho : facts.given? rules.scope i = some o)
    (hne : o ≠ s) : Mislabels facts rules.scope i := by
  obtain ⟨hsp, hspec⟩ := specific?_eq_some_iff.mp hs
  -- of the forms that give an origin, three compare it with the type of the result, so they cannot be met here
  cases i with
  | alloca r a n t =>
    cases hd
    cases ho
    exact absurd (differ?_eq_none_iff.mp hc _ _ rfl hsp) hne
  | element r p is t =>
    cases hd
    exact .element (h.carries (fun s' hs' => differ?_eq_none_iff.mp hc _ _ hs' hsp) hspec ho hne) hs hne
  | cast r v t =>
    cases hd
    obtain ⟨_, hc⟩ := (Option.orElse_eq_none _ _).mp hc
    exact absurd (differ?_eq_none_iff.mp hc _ _ ho hs) hne
  | binary r op lhs rhs t =>
    cases hd
    obtain ⟨_, hc⟩ := (Option.orElse_eq_none _ _).mp hc
    obtain ⟨_, hc⟩ := (Option.orElse_eq_none _ _).mp hc
    exact absurd (differ?_eq_none_iff.mp hc _ _ ho hs) hne
  | select r c a b t =>
    cases hd
    obtain ⟨ha, hb⟩ := Facts.commonOrigin?_eq_some_iff.mp ho
    obtain ⟨_, hc⟩ := (Option.orElse_eq_none _ _).mp hc
    -- the first arm that shows a space shows that of the result
    have ha := h.carries (fun s' hs' => differ?_eq_none_iff.mp hc s' _ (by simp [Facts.clash?.static, hs']) hsp)
      hspec ha hne
    have hb := h.carries (fun s' hs' => differ?_eq_none_iff.mp hc s' _ (by simp [Facts.clash?.static, ha.1, hs']) hsp)
      hspec hb hne
    exact .select ha hb hs hne
  | spaceCast r v target t =>
    cases hd
    exact .convert ho hs hne
  | checkedCast r v target t =>
    cases hd
    rw [Facts.given?, Option.filter_eq_some_iff] at ho
    obtain ⟨ho, htarget⟩ := ho
    cases ho
    exact .check htarget hs hne
  | _ => cases ho

lemma Facts.Consistent.after (h : facts.Consistent) {result : Ty} (hc : facts.clash? rules result i = none)
    (hm : ¬ Mislabels facts rules.scope i) : (facts.after rules.scope i).Consistent := by
  cases hd : i.definition? with
  | none =>
    obtain ⟨htypes, horigins⟩ := @after_of_definition?_eq_none i facts rules.scope hd
    intro t type s ht hs
    rw [Facts.type?, htypes] at ht
    rw [horigins]
    exact h t type s ht hs
  | some d =>
    rw [after_eq_define hd]
    apply h.define
    intro s o hs ho
    by_contra hne
    exact hm (mislabels_of_given? h hc hd hs ho hne)

lemma Mislabels.not_consistent (h : Mislabels facts scope i) : ¬ (facts.after scope i).Consistent := by
  cases h with
  | element hb ht hne =>
    rw [Facts.after, hb.2]
    exact Facts.not_consistent_define ht hne
  | select ha hb ht hne =>
    rw [Facts.after, Facts.commonOrigin?_eq_some_iff.mpr ⟨ha.2, hb.2⟩]
    exact Facts.not_consistent_define ht hne
  | convert ho ht hne =>
    rw [Facts.after, ho]
    exact Facts.not_consistent_define ht hne
  | check htarget ht hne =>
    rw [Facts.after, Option.filter_some, if_pos htarget]
    exact Facts.not_consistent_define ht hne

theorem tags_match_origins_iff {v : Verified} (h : function rules f = .ok v) :
    (∀ n, (Facts.before rules.scope f n).Consistent) ↔
      ∀ n i, f.code[n]? = some i → ¬ Mislabels (.before rules.scope f n) rules.scope i := by
  constructor
  · intro hcons n i hi hm
    have hn := hcons (n + 1)
    rw [Facts.before_succ hi] at hn
    exact hm.not_consistent hn
  · intro hm n
    induction n with
    | zero => exact Facts.consistent_start f
    | succ n ih =>
      cases hi : f.code[n]? with
      | none => rwa [Facts.before_succ_of_none hi]
      | some i =>
        rw [Facts.before_succ hi]
        exact ih.after (clash?_before h hi) (hm n i hi)

def smuggle : Function where
  name := "smuggle"
  result := .void
  params := [(0, .ptr .f32 .shared)]
  blocks := [
    ⟨0, [.cast 1 (.temp 0) .i64, .element 2 (.temp 1) [.constant 4] (.ptr .f32 .constant),
      .spaceTest 3 (.temp 2) .constant, .ret none]⟩]

/-- The body passes, and the test whether its pointer into constant memory is there gets the answer no. -/
theorem tag_contradicts_origin_smuggle :
    let scope : Scope := { space? := fun _ => none }
    let facts : Facts := .before scope smuggle 2
    (∃ v, function { scope } smuggle = .ok v ∧ v.function.code[2]? = some (.cast 3 (.constant 0) .i1)) ∧
      facts.type? 2 = some (.ptr .f32 .constant) ∧ facts.origins.lookup 2 = some .shared ∧ ¬ facts.Consistent := by
  intro scope facts
  refine ⟨⟨_, rfl, rfl⟩, rfl, rfl, fun h => ?_⟩
  cases h 2 _ _ rfl rfl

def carry : Function :=
  { smuggle with
    blocks := [
      ⟨0, [.cast 1 (.temp 0) .i64, .element 2 (.temp 1) [.constant 4] (.ptr .f32 .shared),
        .spaceTest 3 (.temp 2) .shared, .ret none]⟩] }

theorem tags_match_origins_iff_carry :
    let scope : Scope := { space? := fun _ => none }
    (∃ v, function { scope } carry = .ok v) ∧ (Facts.before scope carry 1).Carries scope (.temp 1) .shared ∧
      ∀ n, (Facts.before scope carry n).Consistent := by
  intro scope
  refine ⟨⟨_, rfl⟩, ⟨rfl, rfl⟩, (@tags_match_origins_iff { scope } carry _ rfl).mpr fun n i hi hm => ?_⟩
  match n, hi with
  | 0, rfl | 2, rfl | 3, rfl => cases hm
  | 1, rfl =>
    cases hm with
    | element hb ht hne => exact hne (Option.some.inj (hb.2.symm.trans ht))

end DeviceLink.Verify
