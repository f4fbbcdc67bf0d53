import DeviceLink.Proofs.Json.Text
import Mathlib.Data.List.TakeWhile

/-! What comes behind a value has no influence on how the value is read, unless the text ends with a number: only a
number goes on for as long as there are digits. A text that was cut, or that goes on behind its value, is refused. -/

namespace DeviceLink.Json

variable {s r rest : Bytes} {b : UInt8} {fuel fuel' : Nat}

def Closed : Json → Prop
  | .number _ => False
  | _ => True

section Parts

lemma skipBlanks_append (h : skipBlanks s = b :: rest) (t : Bytes) : skipBlanks (s ++ t) = b :: (rest ++ t) := by
  unfold skipBlanks at h ⊢
  rw [List.dropWhile_append, h]
  rfl

lemma pieces_append {ps : List Piece} (h : pieces s = some (ps, rest)) (t : Bytes) :
    pieces (s ++ t) = some (ps, rest ++ t) := by
  fun_induction pieces s generalizing ps with
  | case1 => cases h
  | case2 r =>
    cases h
    rfl
  | case3 a b c d r ih =>
    obtain ⟨n, hn, h⟩ := Option.bind_eq_some_iff.mp h
    obtain ⟨⟨qs, r'⟩, hr, h⟩ := Option.bind_eq_some_iff.mp h
    cases h
    simp only [List.cons_append]
    rw [pieces.eq_3, hn, ih hr]
    rfl
  | case4 e r hu ih =>
    obtain ⟨c, hc, h⟩ := Option.bind_eq_some_iff.mp h
    obtain ⟨⟨qs, r'⟩, hr, h⟩ := Option.bind_eq_some_iff.mp h
    cases h
    -- a cut number is no letter, so that it cannot be completed
    have hne : e ≠ 0x75 := by
      rintro rfl
      cases hc
    simp only [List.cons_append]
    rw [pieces.eq_4 _ _ fun _ _ _ _ _ he => absurd he hne, hc, ih hr]
    rfl
  | case5 => cases h
  | case6 c r hq _ _ hc ih =>
    obtain ⟨⟨qs, r'⟩, hr, h⟩ := Option.bind_eq_some_iff.mp h
    cases h
    have hs : c ≠ 0x5c := by
      rintro rfl
      exact hc rfl
    rw [List.cons_append, pieces.eq_5 c _ hq (fun _ _ _ _ _ h => absurd h hs) (fun _ _ h => absurd h hs), if_neg hc,
      ih hr]
    rfl

lemma stringBody_append {k : Bytes} (h : stringBody s = some (k, rest)) (t : Bytes) :
    stringBody (s ++ t) = some (k, rest ++ t) := by
  obtain ⟨⟨ps, r⟩, hp, he⟩ := Option.map_eq_some_iff.mp h
  cases he
  rw [stringBody, pieces_append hp]
  rfl

lemma literal_append {name : String} (h : literal name s = some rest) (t : Bytes) :
    literal name (s ++ t) = some (rest ++ t) := by
  simp only [literal, Option.ite_none_right_eq_some, Option.some.injEq, List.isPrefixOf_iff_prefix] at h ⊢
  obtain ⟨⟨r, rfl⟩, rfl⟩ := h
  rw [List.append_assoc]
  exact ⟨List.prefix_append _ _, by rw [List.drop_left, List.drop_left]⟩

end Parts

section Numbers

lemma digits_eq_some {ds : Bytes} (h : digits s = some (ds, rest)) :
    s = ds ++ rest ∧ ds ≠ [] ∧ (∀ b ∈ ds, isDigit b = true) ∧ Stops rest := by
  unfold digits at h
  rw [List.span_eq_takeWhile_dropWhile] at h
  split at h
  · cases h
  · rename_i hne hspan
    obtain ⟨rfl, rfl⟩ := Prod.mk.inj (Option.some.inj h)
    obtain ⟨rfl, rfl⟩ := Prod.mk.inj hspan
    refine ⟨List.takeWhile_append_dropWhile.symm, hne, fun b hb => List.mem_takeWhile_imp hb, fun b hb => ?_⟩
    have hstop := List.head?_dropWhile_not isDigit s
    rwa [Option.mem_def.mp hb] at hstop

lemma digits_append_of_ne_nil {ds : Bytes} (h : digits s = some (ds, rest)) (hne : rest ≠ []) (t : Bytes) :
    digits (s ++ t) = some (ds, rest ++ t) := by
  obtain ⟨rfl, hds, hd, hr⟩ := digits_eq_some h
  rw [List.append_assoc]
  obtain ⟨b, r, rfl⟩ := List.exists_cons_of_ne_nil hne
  exact digits_append hds hd hr

lemma wholePart_append {ds : Bytes} (h : wholePart s = some (ds, rest)) (hne : rest ≠ []) (t : Bytes) :
    wholePart (s ++ t) = some (ds, rest ++ t) := by
  unfold wholePart at h
  split at h
  · cases h
    rfl
  · rename_i hz
    cases s with
    | nil => cases h
    | cons b r =>
      rw [List.cons_append, wholePart.eq_2 _ fun r' he => hz r (by rw [(List.cons.inj he).1])]
      exact digits_append_of_ne_nil h hne t

lemma fraction_append {ds : List (Fin 10)} (h : fraction s = some (ds, rest)) (hne : rest ≠ []) (t : Bytes) :
    fraction (s ++ t) = some (ds, rest ++ t) := by
  unfold fraction at h
  split at h
  · obtain ⟨⟨ds', r⟩, hd, he⟩ := Option.map_eq_some_iff.mp h
    cases he
    rw [List.cons_append, fraction, digits_append_of_ne_nil hd hne]
    rfl
  · rename_i hp
    cases h
    cases s with
    | nil => exact absurd rfl hne
    | cons b r => exact fraction.eq_2 _ fun r' he => hp r (by rw [(List.cons.inj he).1])

lemma exponentDigits_append {e : Int} (h : exponentDigits s = some (e, rest)) (hne : rest ≠ []) (t : Bytes) :
    exponentDigits (s ++ t) = some (e, rest ++ t) := by
  unfold exponentDigits at h
  split at h
  all_goals
    obtain ⟨⟨ds, r⟩, hd, he⟩ := Option.map_eq_some_iff.mp h
    cases he
    have hd' := digits_append_of_ne_nil hd hne t
  · rw [List.cons_append, exponentDigits, hd']
    rfl
  · rw [List.cons_append, exponentDigits, hd']
    rfl
  · rename_i hp hm
    cases s with
    | nil => cases hd
    | cons b r =>
      rw [List.cons_append] at hd' ⊢
      rw [exponentDigits.eq_3 _ (fun r' he => hp r (by rw [(List.cons.inj he).1]))
        (fun r' he => hm r (by rw [(List.cons.inj he).1])), hd']
      rfl

lemma exponent_append {e : Option Int} (h : exponent s = some (e, rest)) (hne : rest ≠ []) (t : Bytes) :
    exponent (s ++ t) = some (e, rest ++ t) := by
  unfold exponent at h
  split at h
  · obtain ⟨⟨e', r⟩, hd, he⟩ := Option.map_eq_some_iff.mp h
    cases he
    rw [List.cons_append, exponent, exponentDigits_append hd hne]
    rfl
  · obtain ⟨⟨e', r⟩, hd, he⟩ := Option.map_eq_some_iff.mp h
    cases he
    rw [List.cons_append, exponent, exponentDigits_append hd hne]
    rfl
  · rename_i hl hu
    cases h
    cases s with
    | nil => exact absurd rfl hne
    | cons b r =>
      exact exponent.eq_3 _ (fun r' he => hl r (by rw [(List.cons.inj he).1]))
        (fun r' he => hu r (by rw [(List.cons.inj he).1]))

lemma magnitude_append {negative : Bool} {n : Number} (h : magnitude negative s = some (n, rest)) (hne : rest ≠ [])
    (t : Bytes) : magnitude negative (s ++ t) = some (n, rest ++ t) := by
  obtain ⟨⟨whole, r₁⟩, hw, h⟩ := Option.bind_eq_some_iff.mp h
  obtain ⟨⟨frac, r₂⟩, hf, h⟩ := Option.bind_eq_some_iff.mp h
  obtain ⟨⟨exp, r₃⟩, he, h⟩ := Option.bind_eq_some_iff.mp h
  obtain rfl : r₃ = rest := by
    dsimp only at h
    split at h <;> cases h <;> rfl
  -- what is left behind a part is there behind every part before it
  have hne₂ : r₂ ≠ [] := by
    rintro rfl
    cases he
    exact hne rfl
  have hne₁ : r₁ ≠ [] := by
    rintro rfl
    cases hf
    exact hne₂ rfl
  have hw' := wholePart_append hw hne₁ t
  have hf' := fraction_append hf hne₂ t
  have he' := exponent_append he hne t
  simp only [magnitude, hw', hf', he', Option.bind_eq_bind, Option.bind_some]
  dsimp only at h
  split at h <;> cases h <;> rfl

lemma numeral_append {n : Number} (h : numeral s = some (n, rest)) (hne : rest ≠ []) (t : Bytes) :
    numeral (s ++ t) = some (n, rest ++ t) := by
  unfold numeral at h
  split at h
  · exact magnitude_append h hne t
  · rename_i hm
    have h' := magnitude_append h hne t
    cases s with
    | nil => cases h
    | cons b r =>
      rw [← h']
      exact numeral.eq_2 _ fun r' he => hm r (by rw [(List.cons.inj he).1])

lemma exists_cons_of_numeral {p : Number × Bytes} (h : numeral s = some p) :
    ∃ b r, s = b :: r ∧ (b = 0x2d ∨ isDigit b = true) := by
  unfold numeral at h
  split at h
  · exact ⟨_, _, rfl, .inl rfl⟩
  · obtain ⟨⟨whole, r⟩, hw, _⟩ := Option.bind_eq_some_iff.mp h
    unfold wholePart at hw
    split at hw
    · exact ⟨_, _, rfl, .inr rfl⟩
    · obtain ⟨rfl, hne, hd, _⟩ := digits_eq_some hw
      obtain ⟨b, ds, rfl⟩ := List.exists_cons_of_ne_nil hne
      exact ⟨b, ds ++ r, rfl, .inr (hd b List.mem_cons_self)⟩

end Numbers

section Steps

inductive ValueStep (fuel : Nat) : Bytes → Json → Bytes → Prop
  | string {r k rest : Bytes} (h : stringBody r = some (k, rest)) : ValueStep fuel (0x22 :: r) (.string k) rest
  | nil {r rest : Bytes} (h : skipBlanks r = 0x5d :: rest) : ValueStep fuel (0x5b :: r) (.array []) rest
  | array {b : UInt8} {r r' rest : Bytes} {xs : List Json} (hr : skipBlanks r = b :: r') (hb : b ≠ 0x5d)
      (h : items fuel (b :: r') = some (xs, rest)) : ValueStep fuel (0x5b :: r) (.array xs) rest
  | empty {r rest : Bytes} (h : skipBlanks r = 0x7d :: rest) : ValueStep fuel (0x7b :: r) (.object []) rest
  | object {b : UInt8} {r r' rest : Bytes} {ms : List (Bytes × Json)} (hr : skipBlanks r = b :: r') (hb : b ≠ 0x7d)
      (h : members fuel (b :: r') = some (ms, rest)) : ValueStep fuel (0x7b :: r) (.object ms) rest
  | null {r rest : Bytes} (h : literal "ull" r = some rest) : ValueStep fuel (0x6e :: r) .null rest
  | true {r rest : Bytes} (h : literal "rue" r = some rest) : ValueStep fuel (0x74 :: r) (.bool true) rest
  | false {r rest : Bytes} (h : literal "alse" r = some rest) : ValueStep fuel (0x66 :: r) (.bool false) rest
  | number {s rest : Bytes} {n : Number} (h : numeral s = some (n, rest)) : ValueStep fuel s (.number n) rest

inductive ItemsStep (fuel : Nat) (s : Bytes) : List Json → Bytes → Prop
  | next {x : Json} {xs : List Json} {r r' rest : Bytes} (hx : value fuel s = some (x, r))
      (hr : skipBlanks r = 0x2c :: r') (h : items fuel r' = some (xs, rest)) : ItemsStep fuel s (x :: xs) rest
  | last {x : Json} {r rest : Bytes} (hx : value fuel s = some (x, r)) (hr : skipBlanks r = 0x5d :: rest) :
      ItemsStep fuel s [x] rest

inductive MembersStep (fuel : Nat) (s : Bytes) : List (Bytes × Json) → Bytes → Prop
  | next {k q q' v r r' rest : Bytes} {x : Json} {ms : List (Bytes × Json)} (hs : skipBlanks s = 0x22 :: q)
      (hk : stringBody q = some (k, q')) (hq : skipBlanks q' = 0x3a :: v) (hx : value fuel v = some (x, r))
      (hr : skipBlanks r = 0x2c :: r') (h : members fuel r' = some (ms, rest)) :
      MembersStep fuel s ((k, x) :: ms) rest
  | last {k q q' v r rest : Bytes} {x : Json} (hs : skipBlanks s = 0x22 :: q) (hk : stringBody q = some (k, q'))
      (hq : skipBlanks q' = 0x3a :: v) (hx : value fuel v = some (x, r)) (hr : skipBlanks r = 0x7d :: rest) :
      MembersStep fuel s [(k, x)] rest

lemma items_nil (fuel : Nat) : items fuel [] = none := by
  match fuel with
  | 0 => rfl
  | 1 => rfl
  | _ + 2 => rfl

lemma members_nil (fuel : Nat) : members fuel [] = none := by
  cases fuel <;> rfl

variable {x : Json} {xs : List Json} {ms : List (Bytes × Json)}

lemma value_eq_some_iff : value (fuel + 1) s = some (x, rest) ↔ ValueStep fuel (skipBlanks s) x rest := by
  rw [value]
  generalize skipBlanks s = s'
  constructor
  · intro h
    split at h
    · obtain ⟨_, hk, he⟩ := Option.map_eq_some_iff.mp h
      cases he
      exact .string hk
    · rename_i r
      split at h
      · rename_i hr
        cases h
        exact .nil hr
      · rename_i hb
        obtain ⟨_, hi, he⟩ := Option.map_eq_some_iff.mp h
        cases he
        cases hr : skipBlanks r with
        | nil => rw [hr, items_nil] at hi; cases hi
        | cons b r' =>
          rw [hr] at hi
          exact .array hr (fun he => hb r' (by rw [hr, he])) hi
    · rename_i r
      split at h
      · rename_i hr
        cases h
        exact .empty hr
      · rename_i hb
        obtain ⟨_, hm, he⟩ := Option.map_eq_some_iff.mp h
        cases he
        cases hr : skipBlanks r with
        | nil => rw [hr, members_nil] at hm; cases hm
        | cons b r' =>
          rw [hr] at hm
          exact .object hr (fun he => hb r' (by rw [hr, he])) hm
    · obtain ⟨_, hl, he⟩ := Option.map_eq_some_iff.mp h
      cases he
      exact .null hl
    · obtain ⟨_, hl, he⟩ := Option.map_eq_some_iff.mp h
      cases he
      exact .true hl
    · obtain ⟨_, hl, he⟩ := Option.map_eq_some_iff.mp h
      cases he
      exact .false hl
    · obtain ⟨_, hn, he⟩ := Option.map_eq_some_iff.mp h
      cases he
      exact .number hn
  · intro h
    cases h with
    | string h => simp [h]
    | nil h => simp [h]
    | array hr hb h => simp [h, hr, hb]
    | empty h => simp [h]
    | object hr hb h => simp [h, hr, hb]
    | null h => simp [h]
    | true h => simp [h]
    | false h => simp [h]
    | number h =>
      obtain ⟨b, r, rfl, hb⟩ := exists_cons_of_numeral h
      have hskip : skipBlanks (b :: r) = b :: r := by simp [skipBlanks, isBlank_eq_false hb]
      have hv := value_numeral hb fuel r
      rw [value, hskip, h] at hv
      exact hv

lemma items_eq_some_iff : items (fuel + 1) s = some (xs, rest) ↔ ItemsStep fuel s xs rest := by
  rw [items]
  constructor
  · intro h
    obtain ⟨⟨x, r⟩, hx, h⟩ := Option.bind_eq_some_iff.mp h
    dsimp only at h
    split at h
    · rename_i hr
      obtain ⟨_, hi, he⟩ := Option.map_eq_some_iff.mp h
      cases he
      exact .next hx hr hi
    · rename_i hr
      cases h
      exact .last hx hr
    · cases h
  · intro h
    cases h with
    | next hx hr h => simp [hx, hr, h]
    | last hx hr => simp [hx, hr]

lemma members_eq_some_iff : members (fuel + 1) s = some (ms, rest) ↔ MembersStep fuel s ms rest := by
  rw [members]
  constructor
  · intro h
    split at h
    · rename_i hs
      obtain ⟨⟨k, q'⟩, hk, h⟩ := Option.bind_eq_some_iff.mp h
      dsimp only at h
      split at h
      · rename_i hq
        obtain ⟨⟨x, r⟩, hx, h⟩ := Option.bind_eq_some_iff.mp h
        dsimp only at h
        split at h
        · rename_i hr
          obtain ⟨_, hm, he⟩ := Option.map_eq_some_iff.mp h
          cases he
          exact .next hs hk hq hx hr hm
        · rename_i hr
          cases h
          exact .last hs hk hq hx hr
        · cases h
      · cases h
    · cases h
  · intro h
    cases h with
    | next hs hk hq hx hr h => simp [hs, hk, hq, hx, hr, h]
    | last hs hk hq hx hr => simp [hs, hk, hq, hx, hr]

end Steps

section Growth

structure Grows (fuel : Nat) : Prop where
  value {fuel' : Nat} {s rest : Bytes} {x : Json} (h : value fuel s = some (x, rest)) (hf : fuel ≤ fuel')
    (he : rest ≠ [] ∨ x.Closed) (t : Bytes) : value fuel' (s ++ t) = some (x, rest ++ t)
  items {fuel' : Nat} {s rest : Bytes} {xs : List Json} (h : items fuel s = some (xs, rest)) (hf : fuel ≤ fuel')
    (t : Bytes) : items fuel' (s ++ t) = some (xs, rest ++ t)
  members {fuel' : Nat} {s rest : Bytes} {ms : List (Bytes × Json)} (h : members fuel s = some (ms, rest))
    (hf : fuel ≤ fuel') (t : Bytes) : members fuel' (s ++ t) = some (ms, rest ++ t)

lemma ne_nil_of_skipBlanks (h : skipBlanks s = b :: rest) : s ≠ [] := by
  rintro rfl
  cases h

variable {x : Json} {xs : List Json} {ms : List (Bytes × Json)}

lemma ValueStep.append (h : ValueStep fuel s x rest) (hg : Grows fuel) (hf : fuel ≤ fuel')
    (he : rest ≠ [] ∨ x.Closed) (t : Bytes) : ValueStep fuel' (s ++ t) x (rest ++ t) := by
  cases h with
  | string h => exact .string (stringBody_append h t)
  | nil h => exact .nil (skipBlanks_append h t)
  | array hr hb h => exact .array (skipBlanks_append hr t) hb (hg.items h hf t)
  | empty h => exact .empty (skipBlanks_append h t)
  | object hr hb h => exact .object (skipBlanks_append hr t) hb (hg.members h hf t)
  | null h => exact .null (literal_append h t)
  | true h => exact .true (literal_append h t)
  | false h => exact .false (literal_append h t)
  | number h => exact .number (numeral_append h (he.resolve_right id) t)

lemma ItemsStep.append (h : ItemsStep fuel s xs rest) (hg : Grows fuel) (hf : fuel ≤ fuel') (t : Bytes) :
    ItemsStep fuel' (s ++ t) xs (rest ++ t) := by
  cases h with
  | next hx hr h =>
    exact .next (hg.value hx hf (.inl (ne_nil_of_skipBlanks hr)) t) (skipBlanks_append hr t) (hg.items h hf t)
  | last hx hr => exact .last (hg.value hx hf (.inl (ne_nil_of_skipBlanks hr)) t) (skipBlanks_append hr t)

lemma MembersStep.append (h : MembersStep fuel s ms rest) (hg : Grows fuel) (hf : fuel ≤ fuel') (t : Bytes) :
    MembersStep fuel' (s ++ t) ms (rest ++ t) := by
  cases h with
  | next hs hk hq hx hr h =>
    exact .next (skipBlanks_append hs t) (stringBody_append hk t) (skipBlanks_append hq t)
      (hg.value hx hf (.inl (ne_nil_of_skipBlanks hr)) t) (skipBlanks_append hr t) (hg.members h hf t)
  | last hs hk hq hx hr =>
    exact .last (skipBlanks_append hs t) (stringBody_append hk t) (skipBlanks_append hq t)
      (hg.value hx hf (.inl (ne_nil_of_skipBlanks hr)) t) (skipBlanks_append hr t)

lemma ValueStep.ne_nil (h : ValueStep fuel s x rest) : s ≠ [] := by
  cases h with
  | number h =>
    obtain ⟨b, r, rfl, _⟩ := exists_cons_of_numeral h
    exact List.cons_ne_nil b r
  | _ => exact List.cons_ne_nil _ _

lemma grows (fuel : Nat) : Grows fuel := by
  induction fuel with
  | zero => exact ⟨nofun, nofun, nofun⟩
  | succ fuel ih =>
    refine ⟨fun {fuel'} s rest x h hf he t => ?_, fun {fuel'} s rest xs h hf t => ?_,
      fun {fuel'} s rest ms h hf t => ?_⟩
    all_goals obtain ⟨k, rfl⟩ := Nat.exists_eq_add_of_lt hf
    · have hstep := value_eq_some_iff.mp h
      apply value_eq_some_iff.mpr
      obtain ⟨b, r, hs⟩ := List.exists_cons_of_ne_nil hstep.ne_nil
      rw [skipBlanks_append hs]
      rw [hs] at hstep
      exact hstep.append ih (Nat.le_add_right _ _) he t
    · exact items_eq_some_iff.mpr ((items_eq_some_iff.mp h).append ih (Nat.le_add_right _ _) t)
    · exact members_eq_some_iff.mpr ((members_eq_some_iff.mp h).append ih (Nat.le_add_right _ _) t)

end Growth

section Texts

variable {j : Json}

lemma not_closed_of_compact (h : j.compact = b :: rest) (hb : b = 0x2d ∨ isDigit b = true) : ¬ j.Closed := by
  have hv := @value_compact j (2 * j.compact.length + 1) [] (by omega) delimited_nil
  rw [List.append_nil, h, value_numeral hb] at hv
  obtain ⟨⟨n, r⟩, _, he⟩ := Option.map_eq_some_iff.mp hv
  obtain rfl : .number n = j := (Prod.mk.inj he).1
  exact id

lemma closed_of_append_eq (hj : j.Closed) {t : Bytes} (h : s ++ t = j.compact) {x : Json}
    (hv : value (fuel + 1) s = some (x, rest)) : x.Closed := by
  have hstep := value_eq_some_iff.mp hv
  cases s with
  | nil => exact absurd rfl hstep.ne_nil
  | cons b r =>
    obtain ⟨c, u, hc, hblank, _⟩ := opens_compact j
    rw [List.cons_append] at h
    obtain rfl : b = c := (List.cons.inj (h.trans hc)).1
    have hskip : skipBlanks (b :: r) = b :: r := by simp [skipBlanks, hblank]
    rw [hskip] at hstep
    cases hstep with
    | number hn =>
      obtain ⟨b', r', he, hb⟩ := exists_cons_of_numeral hn
      obtain rfl : b = b' := (List.cons.inj he).1
      exact absurd hj (not_closed_of_compact h.symm hb)
    | _ => trivial

lemma parse_compact_append (hj : j.Closed) (t : Bytes) :
    parse (j.compact ++ t) = if skipBlanks t = [] then some j else none := by
  have hv := @value_compact j (2 * j.compact.length) [] (Nat.le_refl _) delimited_nil
  rw [List.append_nil] at hv
  have hlen : 2 * j.compact.length ≤ 2 * (j.compact ++ t).length + 2 := by
    rw [List.length_append]
    omega
  rw [parse, (grows _).value hv hlen (.inr hj) t]
  rfl

lemma parse_of_append_eq (hj : j.Closed) {t : Bytes} (h : s ++ t = j.compact) (ht : t ≠ []) : parse s = none := by
  rw [parse]
  cases hv : value (2 * s.length + 2) s with
  | none => rfl
  | some p =>
    obtain ⟨x, r⟩ := p
    have hx := closed_of_append_eq hj h hv
    have hlen : 2 * s.length + 2 ≤ 2 * j.compact.length + 2 := by
      rw [← h, List.length_append]
      omega
    have hlong := (grows _).value hv hlen (.inr hx) t
    have hwhole := @value_compact j (2 * j.compact.length + 2) [] (by omega) delimited_nil
    rw [h] at hlong
    rw [List.append_nil, hlong] at hwhole
    have hnil : r ++ t = [] := (Prod.mk.inj (Option.some.inj hwhole)).2
    exact absurd (List.append_eq_nil_iff.mp hnil).2 ht

end Texts

end DeviceLink.Json
