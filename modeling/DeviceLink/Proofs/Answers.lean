import DeviceLink.Proofs.Placement
import DeviceLink.Proofs.Positions

/-! Tests on addresses that are known before the code runs. Such a test gets the answer that the segments give for
its address, with one exception: a null pointer of a memory counts as an address in that memory, where the segments
have none. -/

namespace DeviceLink

namespace SegmentMap

lemma isIn_generic (m : SegmentMap) (addr : UInt64) : m.isIn addr .generic = true := rfl

end SegmentMap

namespace Verify

open Fallible Ir

variable {scope : Scope} {m : SegmentMap} {strict : Bool} {f : Function} {facts : Facts} {v : Operand} {space : Space}
  {addr : UInt64}

lemma folded_injective (result : Temp) : Function.Injective (folded result) := by
  intro a b h
  cases a <;> cases b <;> simp_all [folded]

lemma answer?_of_address? (hm : m.fault? = none) (ha : Facts.address? v = some addr) :
    facts.answer? { scope, segments := some m, strict } v space = some (m.isIn addr space || v = .null space) := by
  by_cases hs : space = .generic
  · subst hs
    simp [Facts.answer?, SegmentMap.isIn_generic]
  · cases v with
    | null s =>
      cases ha
      by_cases hg : s = .generic
      · subst hg
        simp [Facts.answer?, Facts.origin?, Facts.static?, Facts.address?, Option.filter_some, Space.isSpecific, hs,
          Ne.symm hs]
      · simp [Facts.answer?, Facts.origin?, Facts.static?, Space.isSpecific, hs, hg, SegmentMap.isIn_zero hm hs]
    | constant n =>
      cases ha
      simp [Facts.answer?, Facts.origin?, Facts.static?, Facts.address?, hs]
    | _ => cases ha

lemma getElem?_code_of_spaceTest {v : Verified} (hm : m.fault? = none)
    (h : function { scope, segments := some m, strict } f = .ok v) {n : Nat} {r : Temp} {p : Operand}
    (hi : f.code[n]? = some (.spaceTest r p space)) (ha : Facts.address? p = some addr) :
    v.function.code[n]? = some (folded r (m.isIn addr space || p = .null space)) := by
  rw [getElem?_code_of_function h, hi, Option.map_some, Facts.lower, answer?_of_address? hm ha]

/-- With segments that are well placed, every test on a known address is decided. The answers are those of the
segments, unless the body asks of a null pointer of a memory whether it is there. -/
theorem known_answers_match_iff {v : Verified} (hm : m.fault? = none)
    (h : function { scope, segments := some m, strict } f = .ok v) :
    (∀ (n : Nat) r p space addr, f.code[n]? = some (.spaceTest r p space) → Facts.address? p = some addr →
      v.function.code[n]? = some (folded r (m.isIn addr space || p = .null space))) ∧
    ((∀ (n : Nat) r p space addr, f.code[n]? = some (.spaceTest r p space) → Facts.address? p = some addr →
      v.function.code[n]? = some (folded r (m.isIn addr space))) ↔
      ∀ (n : Nat) r space, f.code[n]? = some (.spaceTest r (.null space) space) → space = .generic) := by
  refine ⟨fun n r p space addr => getElem?_code_of_spaceTest hm h, ?_, ?_⟩
  · intro hall n r space hi
    by_contra hs
    have hfold := (getElem?_code_of_spaceTest hm h hi rfl).symm.trans (hall n r (.null space) space 0 hi rfl)
    have hanswer := folded_injective r (Option.some.inj hfold)
    rw [SegmentMap.isIn_zero hm hs] at hanswer
    simp at hanswer
  · intro hnull n r p space addr hi ha
    rw [getElem?_code_of_spaceTest hm h hi ha]
    by_cases hp : p = .null space
    · subst hp
      obtain rfl := hnull n r space hi
      rw [SegmentMap.isIn_generic, Bool.true_or]
    · rw [decide_eq_false hp, Bool.or_false]

def vacant : Function where
  name := "vacant"
  result := .void
  blocks := [⟨0, [.spaceTest 0 (.null .shared) .shared, .ret none]⟩]

/-- The answer is yes, although no address of a memory is null. -/
theorem null_is_found_vacant :
    SegmentMap.standard.fault? = none ∧
      (∃ v, function { scope := { space? := fun _ => none }, segments := some .standard } vacant = .ok v ∧
        v.function.code[0]? = some (folded 0 true)) ∧
      Facts.address? (.null .shared) = some 0 ∧ SegmentMap.standard.isIn 0 .shared = false :=
  ⟨by decide, ⟨_, rfl, rfl⟩, rfl, by decide⟩

def survey : Function where
  name := "survey"
  result := .void
  blocks := [
    ⟨0, [.spaceTest 0 (.null .shared) .constant, .spaceTest 1 (.constant 0x100000000000) .shared, .branch 1]⟩,
    ⟨1, [.spaceTest 2 (.constant 0x100100000000) .shared, .spaceTest 3 (.null .generic) .generic, .ret none]⟩]

theorem known_answers_match_iff_survey :
    let rules : Rules := { scope := { space? := fun _ => none }, segments := some .standard }
    SegmentMap.standard.fault? = none ∧
      ∃ v, function rules survey = .ok v ∧
        v.function.code[1]? = some (folded 1 (SegmentMap.standard.isIn 0x100000000000 .shared)) ∧
        ∀ (n : Nat) r p space addr, survey.code[n]? = some (.spaceTest r p space) → Facts.address? p = some addr →
          v.function.code[n]? = some (folded r (SegmentMap.standard.isIn addr space)) := by
  intro rules
  have hm : SegmentMap.standard.fault? = none := by decide
  have hnull : ∀ (n : Nat) r space, survey.code[n]? = some (.spaceTest r (.null space) space) → space = .generic := by
    intro n r space hi
    have hmem := List.mem_of_getElem? hi
    grind [survey, Function.code]
  refine ⟨hm, _, rfl, ?_⟩
  have hall := (@known_answers_match_iff rules.scope .standard false survey _ hm rfl).2.mpr hnull
  exact ⟨hall 1 _ _ _ _ rfl rfl, hall⟩

end Verify

end DeviceLink
