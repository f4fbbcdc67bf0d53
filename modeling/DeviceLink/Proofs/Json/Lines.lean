import DeviceLink.Proofs.Json.Ending

namespace DeviceLink.Json

variable {s t : Bytes} {x : Json} {fuel : Nat}

section Blanks

lemma skipBlanks_newline (level : Nat) (s : Bytes) : skipBlanks (newline level ++ s) = skipBlanks s := by
  apply List.dropWhile_append_of_pos
  intro b hb
  rcases List.mem_cons.mp hb with rfl | hb
  · rfl
  · rw [List.eq_of_mem_replicate hb]
    rfl

lemma value_congr (h : skipBlanks s = skipBlanks t) : value fuel s = value fuel t := by
  cases fuel with
  | zero => rfl
  | succ fuel => rw [value, value, h]

lemma items_congr (h : skipBlanks s = skipBlanks t) : items fuel s = items fuel t := by
  cases fuel with
  | zero => rfl
  | succ fuel => rw [items, items, value_congr h]

lemma members_congr (h : skipBlanks s = skipBlanks t) : members fuel s = members fuel t := by
  cases fuel with
  | zero => rfl
  | succ fuel => rw [members, members, h]

end Blanks

section Lines

lemma members_spaced (h : value fuel s = some (x, t)) (k : Bytes) :
    members (fuel + 1) (quoted k ++ (.ofString ": " ++ s)) =
      match skipBlanks t with
      | 0x2c :: rest => (members fuel rest).map fun q => ((k, x) :: q.1, q.2)
      | 0x7d :: rest => some ([(k, x)], rest)
      | _ => none := by
  have hs : skipBlanks (0x20 :: s) = skipBlanks s := rfl
  change members (fuel + 1) (quoted k ++ 0x3a :: 0x20 :: s) = _
  rw [members_key, value_congr hs, h]
  rfl

lemma opens_indented (j : Json) (level : Nat) : Opens (j.indented level) := by
  match j with
  | .null => exact opens_compact .null
  | .bool b => exact opens_compact (.bool b)
  | .number n => exact opens_compact (.number n)
  | .string s => exact opens_compact (.string s)
  | .array [] => exact opens_compact (.array [])
  | .object [] => exact opens_compact (.object [])
  | .array (x :: xs) => exact ⟨_, _, rfl, rfl, by decide⟩
  | .object (m :: ms) => exact ⟨_, _, rfl, rfl, by decide⟩

lemma delimited_indentedItems (level : Nat) (xs : List Json) (rest : Bytes) :
    Delimited (indentedItems level xs ++ rest) := by
  cases xs with
  | nil => exact delimited_cons (.inr (.inr (.inr rfl))) _
  | cons x xs => exact delimited_cons (.inl rfl) _

lemma delimited_indentedMembers (level : Nat) (ms : List (Bytes × Json)) (rest : Bytes) :
    Delimited (indentedMembers level ms ++ rest) := by
  cases ms with
  | nil => exact delimited_cons (.inr (.inr (.inr rfl))) _
  | cons m ms => exact delimited_cons (.inl rfl) _

-- The fuel is counted as for one line: the blanks only add to it.
mutual

theorem value_indented : ∀ (j : Json) {level fuel : Nat} {rest : Bytes}, 2 * (j.indented level).length ≤ fuel →
    Delimited rest → value fuel (j.indented level ++ rest) = some (j, rest)
  | .null, _, _, _, hf, hr => value_compact .null hf hr
  | .bool b, _, _, _, hf, hr => value_compact (.bool b) hf hr
  | .number n, _, _, _, hf, hr => value_compact (.number n) hf hr
  | .string s, _, _, _, hf, hr => value_compact (.string s) hf hr
  | .array [], _, _, _, hf, hr => value_compact (.array []) hf hr
  | .object [], _, _, _, hf, hr => value_compact (.object []) hf hr
  | .array (x :: xs), level, fuel, rest, hf, _ => by
    simp only [indented, List.length_append, List.length_cons] at hf
    obtain ⟨fuel, rfl⟩ := Nat.exists_eq_add_of_le' (by omega : 2 ≤ fuel)
    have hx := @value_indented x (level + 1) fuel _ (by omega) (delimited_indentedItems level xs rest)
    have hxs := items_indented xs (by omega) hx
    have ho := (opens_indented x (level + 1)).append (indentedItems level xs ++ rest)
    have hs := (skipBlanks_newline (level + 1) _).trans ho.skipBlanks
    simp only [indented, List.append_assoc, List.cons_append]
    obtain ⟨b, r, heq, _, hb⟩ := ho
    rw [heq] at hxs hs ⊢
    exact value_eq_some_iff.mpr (.array hs hb hxs)
  | .object ((k, x) :: ms), level, fuel, rest, hf, _ => by
    simp only [indented, List.length_append, List.length_cons] at hf
    obtain ⟨fuel, rfl⟩ := Nat.exists_eq_add_of_le' (by omega : 2 ≤ fuel)
    have hx := @value_indented x (level + 1) fuel _ (by omega) (delimited_indentedMembers level ms rest)
    have hms := members_indented ms k (by omega) hx
    simp only [indented, List.append_assoc, List.cons_append]
    exact value_eq_some_iff.mpr (.object (skipBlanks_newline (level + 1) _) (by decide) hms)

theorem items_indented : ∀ (xs : List Json) {level fuel : Nat} {s rest : Bytes} {x : Json},
    2 * (indentedItems level xs).length ≤ fuel → value fuel s = some (x, indentedItems level xs ++ rest) →
      items (fuel + 1) s = some (x :: xs, rest)
  | [], level, fuel, s, rest, x, _, hx => by
    refine items_eq_some_iff.mpr (.last hx ?_)
    rw [indentedItems, List.append_assoc, skipBlanks_newline]
    rfl
  | y :: ys, level, fuel, s, rest, x, hf, hx => by
    simp only [indentedItems, List.length_append, List.length_cons] at hf
    obtain ⟨fuel, rfl⟩ := Nat.exists_eq_add_of_le' (by omega : 1 ≤ fuel)
    have hy := @value_indented y (level + 1) fuel _ (by omega) (delimited_indentedItems level ys rest)
    have hys := items_indented ys (by omega) hy
    rw [← items_congr (skipBlanks_newline (level + 1) _)] at hys
    simp only [indentedItems, List.append_assoc, List.cons_append] at hx
    exact items_eq_some_iff.mpr (.next hx rfl hys)

theorem members_indented : ∀ (ms : List (Bytes × Json)) (k : Bytes) {level fuel : Nat} {s rest : Bytes} {x : Json},
    2 * (indentedMembers level ms).length ≤ fuel → value fuel s = some (x, indentedMembers level ms ++ rest) →
      members (fuel + 1) (quoted k ++ (.ofString ": " ++ s)) = some ((k, x) :: ms, rest)
  | [], k, level, fuel, s, rest, x, _, hx => by
    rw [members_spaced hx, indentedMembers, List.append_assoc, skipBlanks_newline]
    rfl
  | (l, y) :: ms, k, level, fuel, s, rest, x, hf, hx => by
    simp only [indentedMembers, List.length_append, List.length_cons] at hf
    obtain ⟨fuel, rfl⟩ := Nat.exists_eq_add_of_le' (by omega : 1 ≤ fuel)
    have hy := @value_indented y (level + 1) fuel _ (by omega) (delimited_indentedMembers level ms rest)
    have hms := members_indented ms l (by omega) hy
    rw [← members_congr (skipBlanks_newline (level + 1) _)] at hms
    rw [members_spaced hx]
    simp only [indentedMembers, List.append_assoc, List.cons_append]
    change Option.map _ (members (fuel + 1) _) = _
    rw [hms]
    rfl

end

theorem parse_pretty (j : Json) : parse j.pretty = some j := by
  have h := @value_indented j 0 (2 * (j.indented 0).length + 2) [] (by omega) delimited_nil
  rw [List.append_nil] at h
  rw [parse, pretty, h]
  rfl

end Lines

end DeviceLink.Json
