import DeviceLink.Table
import Mathlib.Data.List.Sort

namespace DeviceLink

namespace Ordered

variable {α : Type} [LT α] [DecidableLT α]

lemma mem_of_mem_insert {a b : α} {xs : List α} (h : b ∈ insert a xs) : b = a ∨ b ∈ xs := by
  induction xs with
  | nil => exact .inl (List.mem_singleton.mp h)
  | cons c rest ih =>
    simp only [insert] at h
    split at h
    · exact List.mem_cons.mp h
    · split at h
      · rcases List.mem_cons.mp h with h | h
        · exact .inr (h ▸ List.mem_cons_self)
        · exact (ih h).imp_right (List.mem_cons_of_mem _)
      · exact .inr h

lemma mem_of_mem_ofList {b : α} {xs : List α} (h : b ∈ ofList xs) : b ∈ xs := by
  induction xs with
  | nil => exact h
  | cons a rest ih =>
    rcases mem_of_mem_insert h with h | h
    · exact h ▸ List.mem_cons_self
    · exact List.mem_cons_of_mem _ (ih h)

lemma mem_insert_of_mem {a b : α} {xs : List α} (h : b ∈ xs) : b ∈ insert a xs := by
  induction xs with
  | nil => cases h
  | cons c rest ih =>
    simp only [insert]
    split
    · exact List.mem_cons_of_mem _ h
    · split
      · exact List.mem_cons.mpr ((List.mem_cons.mp h).imp_right ih)
      · exact h

section Trichotomous

variable [Std.Trichotomous (α := α) (· < ·)]

lemma mem_insert_self (a : α) (xs : List α) : a ∈ insert a xs := by
  induction xs with
  | nil => exact List.mem_singleton_self a
  | cons b rest ih =>
    simp only [insert]
    split
    · exact List.mem_cons_self
    · rename_i hab
      split
      · exact List.mem_cons_of_mem _ ih
      · rename_i hba
        obtain rfl : a = b := Std.Trichotomous.trichotomous a b hab hba
        exact List.mem_cons_self

lemma mem_ofList {a : α} {xs : List α} : a ∈ ofList xs ↔ a ∈ xs := by
  refine ⟨mem_of_mem_ofList, fun h => ?_⟩
  induction xs with
  | nil => cases h
  | cons b rest ih =>
    rcases List.mem_cons.mp h with rfl | h
    · exact mem_insert_self a _
    · exact mem_insert_of_mem (ih h)

end Trichotomous

section Transitive

variable [IsTrans α (· < ·)]

lemma pairwise_insert (a : α) {xs : List α} (h : xs.Pairwise (· < ·)) : (insert a xs).Pairwise (· < ·) := by
  induction xs with
  | nil => exact List.pairwise_singleton _ a
  | cons b rest ih =>
    obtain ⟨hb, hrest⟩ := List.pairwise_cons.mp h
    simp only [insert]
    split
    · rename_i hab
      apply List.pairwise_cons.mpr
      refine ⟨fun c hc => ?_, h⟩
      rcases List.mem_cons.mp hc with rfl | hc
      · exact hab
      · exact IsTrans.trans a b c hab (hb c hc)
    · split
      · rename_i hba
        apply List.pairwise_cons.mpr
        refine ⟨fun c hc => ?_, ih hrest⟩
        rcases mem_of_mem_insert hc with rfl | hc
        · exact hba
        · exact hb c hc
      · exact h

lemma pairwise_ofList (xs : List α) : (ofList xs).Pairwise (· < ·) := by
  induction xs with
  | nil => exact .nil
  | cons a rest ih => exact pairwise_insert a ih

lemma ofList_congr [Std.Trichotomous (α := α) (· < ·)] [Std.Asymm (α := α) (· < ·)] {xs ys : List α}
    (h : ∀ a, a ∈ xs ↔ a ∈ ys) : ofList xs = ofList ys := by
  apply (pairwise_ofList xs).eq_of_mem_iff (pairwise_ofList ys)
  intro a
  rw [mem_ofList, mem_ofList]
  exact h a

end Transitive

lemma put_eq_append {β : Type} {key : String} {value : β} {t : List (String × β)} (h : ∀ b ∈ t, b.1 < key) :
    put key value t = t ++ [(key, value)] := by
  induction t with
  | nil => rfl
  | cons b rest ih =>
    have hb : b.1 < key := h b List.mem_cons_self
    rw [put, if_neg (String.lt_asymm hb), if_pos hb, ih fun c hc => h c (List.mem_cons_of_mem _ hc),
      List.cons_append]

lemma lookup_cons {β : Type} (k : String) (b : String × β) (t : List (String × β)) :
    (b :: t).lookup k = if k = b.1 then some b.2 else t.lookup k := by
  rw [List.lookup_cons]
  by_cases hk : k = b.1
  · rw [if_pos hk, beq_iff_eq.mpr hk]
  · rw [if_neg hk, beq_eq_false_iff_ne.mpr hk]

lemma lookup_put {β : Type} (key : String) (value : β) (t : List (String × β)) (k : String) :
    (put key value t).lookup k = if k = key then some value else t.lookup k := by
  induction t with
  | nil => exact lookup_cons k (key, value) []
  | cons b rest ih =>
    rw [put]
    split
    · exact lookup_cons k (key, value) (b :: rest)
    · split
      · rename_i hlt
        rw [lookup_cons, lookup_cons, ih]
        by_cases hb : k = b.1
        · have hk : k ≠ key := hb ▸ String.ne_of_lt hlt
          rw [if_pos hb, if_neg hk, if_pos hb]
        · rw [if_neg hb, if_neg hb]
      · rename_i hnlt hngt
        obtain rfl : key = b.1 := String.le_antisymm (String.not_lt.1 hngt) (String.not_lt.1 hnlt)
        rw [lookup_cons, lookup_cons]
        by_cases hk : k = b.1
        · rw [if_pos hk, if_pos hk]
        · rw [if_neg hk, if_neg hk, if_neg hk]

end Ordered

namespace Table

variable {β : Type}

lemma mem_of_mem_foldl_insert {b : String × β} {bindings : List (String × β)} {t : Table β}
    (h : b ∈ (bindings.foldl (fun t b => t.insert b.1 b.2) t).entries) : b ∈ bindings ∨ b ∈ t.entries := by
  induction bindings generalizing t with
  | nil => exact .inr h
  | cons c rest ih =>
    rcases ih h with h | h
    · exact .inl (List.mem_cons_of_mem _ h)
    · rcases Ordered.mem_put h with h | h
      · exact .inl (h ▸ List.mem_cons_self)
      · exact .inr h

lemma mem_of_mem_ofList {b : String × β} {bindings : List (String × β)} (h : b ∈ (ofList bindings).entries) :
    b ∈ bindings :=
  (mem_of_mem_foldl_insert h).resolve_right List.not_mem_nil

lemma entries_injective {t u : Table β} (h : t.entries = u.entries) : t = u := by
  cases t
  cases u
  cases h
  rfl

lemma entries_foldl_insert {bindings : List (String × β)} {t : Table β}
    (h : (t.entries ++ bindings).Pairwise fun a b => a.1 < b.1) :
    (bindings.foldl (fun t b => t.insert b.1 b.2) t).entries = t.entries ++ bindings := by
  induction bindings generalizing t with
  | nil => simp
  | cons b rest ih =>
    have hput : (t.insert b.1 b.2).entries = t.entries ++ [b] :=
      Ordered.put_eq_append fun c hc => (List.pairwise_append.mp h).2.2 c hc b List.mem_cons_self
    rw [List.foldl_cons, ih, hput, List.append_assoc, List.singleton_append]
    rwa [hput, List.append_assoc, List.singleton_append]

lemma find?_insert (t : Table β) (key : String) (value : β) (k : String) :
    (t.insert key value).find? k = if k = key then some value else t.find? k :=
  Ordered.lookup_put key value t.entries k

lemma find?_ofList (bindings : List (String × β)) (key : String) :
    (ofList bindings).find? key = bindings.reverse.lookup key := by
  have h (t : Table β) : (bindings.foldl (fun t b => t.insert b.1 b.2) t).find? key =
      (bindings.reverse.lookup key).or (t.find? key) := by
    induction bindings generalizing t with
    | nil => rfl
    | cons b rest ih =>
      rw [List.foldl_cons, ih, find?_insert, List.reverse_cons, List.lookup_append, Option.or_assoc,
        Ordered.lookup_cons]
      by_cases hk : key = b.1 <;> simp [hk]
  exact (h empty).trans Option.or_none

lemma ofList_entries (t : Table β) : ofList t.entries = t := by
  have h : (ofList t.entries).entries = t.entries := entries_foldl_insert t.ascending
  exact entries_injective h

lemma mem_entries_iff {t : Table β} {key : String} {value : β} :
    (key, value) ∈ t.entries ↔ t.find? key = some value := by
  obtain ⟨entries, hasc⟩ := t
  change _ ↔ entries.lookup key = some value
  induction entries with
  | nil => simp
  | cons b rest ih =>
    obtain ⟨hb, hrest⟩ := List.pairwise_cons.mp hasc
    rw [List.mem_cons, ih hrest, Ordered.lookup_cons]
    by_cases hk : key = b.1
    · -- the keys behind the first one are greater
      have hnone : rest.lookup key ≠ some value := fun h =>
        String.lt_irrefl _ (hk ▸ hb _ ((ih hrest).mpr h))
      rw [if_pos hk, or_iff_left hnone, Option.some_inj, Prod.ext_iff, and_iff_right hk, eq_comm]
    · rw [if_neg hk]
      exact or_iff_right fun h => hk (congrArg Prod.fst h)

lemma mem_keys_iff {t : Table β} {key : String} : key ∈ t.entries.map (·.1) ↔ (t.find? key).isSome = true := by
  rw [Option.isSome_iff_exists, List.mem_map]
  constructor
  · rintro ⟨b, hb, rfl⟩
    exact ⟨b.2, mem_entries_iff.mp hb⟩
  · rintro ⟨value, hv⟩
    exact ⟨(key, value), mem_entries_iff.mpr hv, rfl⟩

lemma ext_find? {t u : Table β} (h : ∀ key, t.find? key = u.find? key) : t = u := by
  have : Std.Irrefl fun a b : String × β => a.1 < b.1 := ⟨fun a => String.lt_irrefl a.1⟩
  have : Std.Asymm fun a b : String × β => a.1 < b.1 := ⟨fun a b => String.lt_asymm⟩
  apply entries_injective
  refine t.ascending.eq_of_mem_iff u.ascending fun b => ?_
  rw [mem_entries_iff, mem_entries_iff, h]

section Extend

variable {t : Table (List β)} {keys : List String} {more : List β} {c : String}

lemma isSome_find?_extend :
    ((t.extend keys more).find? c).isSome = true ↔ c ∈ keys ∨ (t.find? c).isSome = true := by
  induction keys generalizing t with
  | nil => simp [extend]
  | cons key rest ih =>
    rw [extend, List.foldl_cons]
    refine ih.trans ?_
    rw [find?_insert, List.mem_cons]
    by_cases hc : c = key <;> simp [hc]

lemma getD_find?_extend :
    ((t.extend keys more).find? c).getD [] =
      (t.find? c).getD [] ++ (keys.filter (· = c)).flatMap fun _ => more := by
  induction keys generalizing t with
  | nil => simp [extend]
  | cons key rest ih =>
    rw [extend, List.foldl_cons]
    refine ih.trans ?_
    rw [find?_insert]
    by_cases hc : c = key
    · simp [hc]
    · simp [hc, Ne.symm hc]

lemma extend_nil_congr {names : List String} (h : ∀ c, c ∈ keys ↔ c ∈ names) :
    t.extend keys [] = t.extend names [] := by
  refine ext_find? fun c => ?_
  have hsome : ((t.extend keys []).find? c).isSome = ((t.extend names []).find? c).isSome := by
    rw [Bool.eq_iff_iff, isSome_find?_extend, isSome_find?_extend, h]
  have hnil (xs : List String) : (xs.flatMap fun _ => ([] : List β)) = [] := List.flatMap_eq_nil_iff.mpr fun _ _ => rfl
  have hget : ((t.extend keys []).find? c).getD [] = ((t.extend names []).find? c).getD [] := by
    rw [getD_find?_extend, getD_find?_extend, hnil, hnil]
  cases hk : (t.extend keys []).find? c <;> cases hn : (t.extend names []).find? c <;> simp_all

end Extend

end Table

end DeviceLink
