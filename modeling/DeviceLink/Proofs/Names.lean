import DeviceLink.Names
import Mathlib.Data.List.Nodup
import Mathlib.Data.List.Perm.Subperm
import Mathlib.Tactic.Lemma

namespace DeviceLink.Names

lemma repeated?_eq_none_iff {seen xs : List String} :
    repeated? seen xs = none ↔ xs.Nodup ∧ ∀ x ∈ xs, x ∉ seen := by
  induction xs generalizing seen with
  | nil => simp [repeated?]
  | cons x rest ih =>
    rw [repeated?]
    split
    · simp_all
    · simp only [ih, List.nodup_cons, List.mem_cons, forall_eq_or_imp, not_or]
      grind

lemma numbered_succ (base : String) (k : Nat) : numbered base (k + 1) = base ++ "." ++ (k + 1).repr := rfl

lemma numbered_injective (base : String) : Function.Injective (numbered base) := by
  have hlt (k : Nat) : base.length < (numbered base (k + 1)).length := by
    rw [numbered_succ, String.length_append, String.length_append]
    exact Nat.lt_of_lt_of_le (Nat.lt_succ_self _) (Nat.le_add_right _ _)
  rintro (_ | j) (_ | k) h
  · rfl
  · exact absurd (congrArg String.length h) (Nat.ne_of_lt (hlt k))
  · exact absurd (congrArg String.length h) (Nat.ne_of_gt (hlt j))
  · rw [numbered_succ, numbered_succ, String.append_right_inj, Nat.repr_eq_ofList_toDigits,
      Nat.repr_eq_ofList_toDigits, String.ofList_inj] at h
    have hd := congrArg (Nat.ofDigitChars 10 · 0) h
    simpa only [Nat.ofDigitChars_toDigits (by decide : 1 < 10) (by decide : 10 ≤ 10)] using hd

lemma exists_fresh (taken : List String) (base : String) :
    ∃ k ≤ taken.length, fresh taken base = numbered base k ∧ numbered base k ∉ taken ∧
      ∀ j < k, numbered base j ∈ taken := by
  rw [fresh]
  cases hf : ((List.range (taken.length + 1)).map (numbered base)).find? (· ∉ taken) with
  | some x =>
    obtain ⟨hx, k, hk, rfl, hmin⟩ := List.find?_eq_some_iff_getElem.mp hf
    rw [List.length_map, List.length_range] at hk
    simp only [List.getElem_map, List.getElem_range] at hx hmin ⊢
    exact ⟨k, Nat.le_of_lt_succ hk, rfl, by simpa using hx, fun j hj => by simpa using hmin j hj⟩
  | none =>
    have hsub : (List.range (taken.length + 1)).map (numbered base) ⊆ taken := by
      intro x hx
      simpa using List.find?_eq_none.mp hf x hx
    have hnodup : ((List.range (taken.length + 1)).map (numbered base)).Nodup :=
      List.nodup_range.map (numbered_injective base)
    have hle := (List.subperm_of_subset hnodup hsub).length_le
    rw [List.length_map, List.length_range] at hle
    exact absurd hle (Nat.not_succ_le_self _)

lemma fresh_notMem (taken : List String) (base : String) : fresh taken base ∉ taken := by
  obtain ⟨k, _, hk, hfree, _⟩ := exists_fresh taken base
  rwa [hk]

end DeviceLink.Names
