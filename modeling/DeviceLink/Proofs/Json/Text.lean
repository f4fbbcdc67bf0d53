import DeviceLink.Json.Parser
import DeviceLink.Json.Printer
import Mathlib.Data.List.TakeDrop
import Mathlib.Tactic.Lemma
import Mathlib.Tactic.SplitIfs

namespace DeviceLink.Json

def Delimited (rest : Bytes) : Prop := ∀ b ∈ rest.head?, b = 0x2c ∨ b = 0x5d ∨ b = 0x7d ∨ b = 0x0a

lemma delimited_nil : Delimited [] := by
  rintro b ⟨⟩

lemma delimited_cons {b : UInt8} (h : b = 0x2c ∨ b = 0x5d ∨ b = 0x7d ∨ b = 0x0a) (rest : Bytes) :
    Delimited (b :: rest) := by
  rintro c ⟨⟩
  exact h

section Strings

variable {b : UInt8} {rest : Bytes}

inductive Escaped (b : UInt8) : Bytes → Prop
  | plain (hq : b ≠ 0x22) (hs : b ≠ 0x5c) (hc : ¬ b < 0x20) : Escaped b [b]
  | letter {e : UInt8} (he : simpleEscape e = some b) (hu : e ≠ 0x75) : Escaped b [0x5c, e]
  | number {c d : UInt8} (hb : b < 0x20) (hn : hexQuad 0x30 0x30 c d = some b.toNat) :
      Escaped b [0x5c, 0x75, 0x30, 0x30, c, d]

lemma hexQuad_hexDigit : ∀ n < 0x20,
    hexQuad 0x30 0x30 (hexDigit (n / 16)) (hexDigit (n % 16)) = some n := by
  decide

lemma escaped_escape (b : UInt8) : Escaped b (escape b) := by
  unfold escape
  split_ifs with hq hs hb ht hn hf hr hc
  · exact .letter (by rw [hq]; rfl) (by decide)
  · exact .letter (by rw [hs]; rfl) (by decide)
  · exact .letter (by rw [hb]; rfl) (by decide)
  · exact .letter (by rw [ht]; rfl) (by decide)
  · exact .letter (by rw [hn]; rfl) (by decide)
  · exact .letter (by rw [hf]; rfl) (by decide)
  · exact .letter (by rw [hr]; rfl) (by decide)
  · exact .number hc (hexQuad_hexDigit _ (UInt8.lt_iff_toNat_lt.mp hc))
  · exact .plain hq hs hc

def Piece.Spells (b : UInt8) (p : Piece) : Prop := p = .byte b ∨ b < 0x20 ∧ p = .unit b.toNat

lemma pieces_escaped {s : Bytes} (h : Escaped b s) :
    ∃ q, Piece.Spells b q ∧ ∀ rest, pieces (s ++ rest) = (pieces rest).map fun p => (q :: p.1, p.2) := by
  cases h with
  | plain hq hs hc =>
    refine ⟨.byte b, .inl rfl, fun rest => ?_⟩
    rw [List.singleton_append, pieces.eq_5 b rest hq (fun _ _ _ _ _ h => absurd h hs) (fun _ _ h => absurd h hs)]
    cases pieces rest <;> simp [hs, hc]
  | @letter e he hu =>
    refine ⟨.byte b, .inl rfl, fun rest => ?_⟩
    rw [List.cons_append, List.singleton_append, pieces.eq_4 e rest (fun _ _ _ _ _ h => absurd h hu), he]
    cases pieces rest <;> rfl
  | @number c d hb hn =>
    refine ⟨.unit b.toNat, .inr ⟨hb, rfl⟩, fun rest => ?_⟩
    simp only [List.cons_append, List.nil_append]
    rw [pieces.eq_3, hn]
    cases pieces rest <;> rfl

lemma spell_cons {q : Piece} (h : Piece.Spells b q) (ps : List Piece) : spell (q :: ps) = b :: spell ps := by
  rcases h with rfl | ⟨hb, rfl⟩
  · rfl
  · have hlt : b.toNat < 0x20 := UInt8.lt_iff_toNat_lt.mp hb
    have hcode : codePoint b.toNat = [b] := by
      rw [codePoint, if_pos (by omega), Nat.toUInt8_eq, UInt8.ofNat_toNat]
    have hhigh : isHighSurrogate b.toNat = false := by
      simp only [isHighSurrogate, Bool.and_eq_false_iff, decide_eq_false_iff_not]
      omega
    -- two numbers in a row are read as one character only if the first is a high surrogate
    by_cases hps : ∃ m rest, ps = .unit m :: rest
    · obtain ⟨m, rest, rfl⟩ := hps
      rw [spell.eq_3, hhigh, hcode]
      rfl
    · rw [spell.eq_4 _ _ fun m rest h => hps ⟨m, rest, h⟩, hcode]
      rfl

lemma exists_pieces (s rest : Bytes) :
    ∃ ps, pieces (s.flatMap escape ++ 0x22 :: rest) = some (ps, rest) ∧ spell ps = s := by
  induction s with
  | nil => exact ⟨[], rfl, rfl⟩
  | cons b s ih =>
    obtain ⟨ps, hp, hs⟩ := ih
    obtain ⟨q, hq, h⟩ := pieces_escaped (escaped_escape b)
    refine ⟨q :: ps, ?_, ?_⟩
    · rw [List.flatMap_cons, List.append_assoc, h, hp]
      rfl
    · rw [spell_cons hq, hs]

lemma stringBody_escape (s rest : Bytes) : stringBody (s.flatMap escape ++ 0x22 :: rest) = some (s, rest) := by
  obtain ⟨ps, hp, hs⟩ := exists_pieces s rest
  rw [stringBody, hp, Option.map_some, hs]

end Strings

section Numbers

variable {rest : Bytes}

def Stops (rest : Bytes) : Prop := ∀ b ∈ rest.head?, isDigit b = false

lemma toNat_toUInt8 {c : Char} (h : c.isDigit = true) :
    c.toUInt8.toNat = c.toNat ∧ 0x30 ≤ c.toNat ∧ c.toNat ≤ 0x39 := by
  have hc : 0x30 ≤ c.toNat ∧ c.toNat ≤ 0x39 := by
    simpa [Char.isDigit, UInt32.le_iff_toNat_le] using h
  exact ⟨Nat.mod_eq_of_lt (Nat.lt_of_le_of_lt hc.2 (by decide)), hc⟩

lemma isDigit_toUInt8 {c : Char} (h : c.isDigit = true) : isDigit c.toUInt8 = true := by
  obtain ⟨hn, hc⟩ := toNat_toUInt8 h
  simp only [isDigit, UInt8.le_iff_toNat_le, hn, Bool.and_eq_true, decide_eq_true_eq]
  exact hc

lemma ofUInt8_toUInt8 {c : Char} (h : c.isDigit = true) : Char.ofUInt8 c.toUInt8 = c := by
  apply Char.ext
  apply UInt32.toNat_inj.mp
  exact (toNat_toUInt8 h).1

lemma isDigit_of_mem_toDigits {n : Nat} {c : Char} (h : c ∈ Nat.toDigits 10 n) : c.isDigit = true :=
  Nat.isDigit_of_mem_toDigits (by decide) (by decide) h

lemma isDigit_of_mem_ofNat {n : Nat} {b : UInt8} (h : b ∈ Bytes.ofNat n) : isDigit b = true := by
  obtain ⟨c, hc, rfl⟩ := List.mem_map.mp h
  exact isDigit_toUInt8 (isDigit_of_mem_toDigits hc)

lemma ofNat_ne_nil (n : Nat) : Bytes.ofNat n ≠ [] := by
  simp [Bytes.ofNat]

lemma ofNat_append_ne {b : UInt8} (hb : isDigit b = false) (n : Nat) (rest r : Bytes) :
    Bytes.ofNat n ++ rest ≠ b :: r := by
  intro h
  obtain ⟨c, ds, hc⟩ := List.exists_cons_of_ne_nil (ofNat_ne_nil n)
  rw [hc] at h
  have hd : isDigit c = true := isDigit_of_mem_ofNat (hc ▸ List.mem_cons_self)
  rw [(List.cons.inj h).1, hb] at hd
  cases hd

lemma digitsValue_ofNat (n : Nat) : digitsValue (Bytes.ofNat n) = n := by
  have h : (Bytes.ofNat n).map Char.ofUInt8 = Nat.toDigits 10 n := by
    rw [Bytes.ofNat, List.map_map]
    exact (List.map_congr_left fun c hc => ofUInt8_toUInt8 (isDigit_of_mem_toDigits hc)).trans (List.map_id _)
  rw [digitsValue, h, Nat.ofDigitChars_ten_toDigits]

lemma digitChar_ne_zero : ∀ n < 10, 0 < n → n.digitChar.toUInt8 ≠ 0x30 := by
  decide

lemma ofNat_eq_cons {n : Nat} (hn : 0 < n) : ∃ d ds, Bytes.ofNat n = d :: ds ∧ d ≠ 0x30 := by
  induction n using Nat.strongRecOn with
  | _ n ih =>
    by_cases hlt : n < 10
    · rw [Bytes.ofNat, Nat.toDigits_of_lt_base hlt]
      exact ⟨_, [], rfl, digitChar_ne_zero n hlt hn⟩
    · obtain ⟨d, ds, hd, hne⟩ := ih (n / 10) (by omega) (by omega)
      have hsplit : Bytes.ofNat n = Bytes.ofNat (n / 10) ++ [(n % 10).digitChar.toUInt8] := by
        rw [Bytes.ofNat, Nat.toDigits_of_base_le (by decide) (by omega), List.map_append]
        rfl
      exact ⟨d, _, by rw [hsplit, hd]; rfl, hne⟩

lemma digits_append {ds : Bytes} (hne : ds ≠ []) (hd : ∀ b ∈ ds, isDigit b = true) (hr : Stops rest) :
    digits (ds ++ rest) = some (ds, rest) := by
  have htake : rest.takeWhile isDigit = [] := by
    cases rest with
    | nil => rfl
    | cons b rest => simp [hr b rfl]
  have hdrop : rest.dropWhile isDigit = rest := by
    cases rest with
    | nil => rfl
    | cons b rest => simp [hr b rfl]
  have hspan : (ds ++ rest).span isDigit = (ds, rest) := by
    rw [List.span_eq_takeWhile_dropWhile, List.takeWhile_append_of_pos hd, List.dropWhile_append_of_pos hd,
      htake, hdrop, List.append_nil]
  rw [digits, hspan]
  cases ds with
  | nil => exact absurd rfl hne
  | cons d ds => rfl

lemma digits_ofNat (n : Nat) (hr : Stops rest) : digits (Bytes.ofNat n ++ rest) = some (Bytes.ofNat n, rest) :=
  digits_append (ofNat_ne_nil n) (fun _ => isDigit_of_mem_ofNat) hr

lemma wholePart_ofNat (n : Nat) (hr : Stops rest) :
    wholePart (Bytes.ofNat n ++ rest) = some (Bytes.ofNat n, rest) := by
  rcases Nat.eq_zero_or_pos n with rfl | hn
  · rfl
  · obtain ⟨d, ds, hd, hne⟩ := ofNat_eq_cons hn
    have h := digits_ofNat n hr
    rw [hd] at h ⊢
    rw [← h]
    exact wholePart.eq_2 _ fun _ h => hne (List.cons.inj h).1

lemma ofNat_digit : ∀ d : Fin 10, ∃ b : UInt8, Bytes.ofNat d.val = [b] ∧ isDigit b = true ∧ digit b = d := by
  have h : ∀ d : Fin 10, Bytes.ofNat d.val = [(0x30 + d.val).toUInt8] ∧
      isDigit (0x30 + d.val).toUInt8 = true ∧ digit (0x30 + d.val).toUInt8 = d := by
    decide
  exact fun d => ⟨_, h d⟩

lemma map_digit_flatMap (ds : List (Fin 10)) : (ds.flatMap (Bytes.ofNat ·.val)).map digit = ds := by
  induction ds with
  | nil => rfl
  | cons d ds ih =>
    obtain ⟨b, hb, _, hd⟩ := ofNat_digit d
    rw [List.flatMap_cons, hb, List.map_append, ih, List.map_singleton, hd]
    rfl

lemma flatMap_ne_nil {ds : List (Fin 10)} (h : ds ≠ []) : ds.flatMap (Bytes.ofNat ·.val) ≠ [] := by
  intro he
  rw [← map_digit_flatMap ds, he] at h
  exact h rfl

lemma fraction_point (ds : List (Fin 10)) (hr : Stops rest) (hp : rest.head? ≠ some 0x2e) :
    fraction (Number.point ds ++ rest) = some (ds, rest) := by
  by_cases hd : ds = []
  · subst hd
    exact fraction.eq_2 rest fun r h => hp (by rw [h]; rfl)
  · have hb : ∀ b ∈ ds.flatMap (Bytes.ofNat ·.val), isDigit b = true := by
      intro b hb
      obtain ⟨d, _, hb⟩ := List.mem_flatMap.mp hb
      exact isDigit_of_mem_ofNat hb
    have hpoint : Number.point ds = 0x2e :: ds.flatMap (Bytes.ofNat ·.val) := by
      rw [Number.point, if_neg (by simpa using hd)]
      rfl
    rw [hpoint, List.cons_append, fraction, digits_append (flatMap_ne_nil hd) hb hr, Option.map_some,
      map_digit_flatMap]

lemma exponentDigits_sign (e : Int) (hr : Stops rest) :
    exponentDigits (Number.sign (e < 0) ++ (Bytes.ofNat e.natAbs ++ rest)) = some (e, rest) := by
  have hd := digits_ofNat e.natAbs hr
  by_cases he : e < 0
  · rw [decide_eq_true he]
    change exponentDigits (0x2d :: (Bytes.ofNat e.natAbs ++ rest)) = _
    rw [exponentDigits, hd, Option.map_some, digitsValue_ofNat]
    congr 2
    omega
  · rw [decide_eq_false he]
    change exponentDigits (Bytes.ofNat e.natAbs ++ rest) = _
    rw [exponentDigits.eq_3 _ (ofNat_append_ne rfl _ _) (ofNat_append_ne rfl _ _), hd, Option.map_some,
      digitsValue_ofNat]
    congr 2
    omega

lemma Delimited.stops (h : Delimited rest) : Stops rest := by
  intro b hb
  rcases h b hb with rfl | rfl | rfl | rfl <;> rfl

lemma Delimited.head?_ne (h : Delimited rest) {b : UInt8} (hb : b ∉ [0x2c, 0x5d, 0x7d, 0x0a]) :
    rest.head? ≠ some b := by
  intro he
  have := h b he
  simp_all

lemma magnitude_int (negative : Bool) (n : Nat) (h : Delimited rest) :
    magnitude negative (Bytes.ofNat n ++ rest) = some (.int negative n, rest) := by
  have hf : fraction rest = some ([], rest) := fraction_point [] h.stops (h.head?_ne (by decide))
  have he : exponent rest = some (none, rest) :=
    exponent.eq_3 rest (fun r hr => h.head?_ne (by decide) (congrArg List.head? hr))
      (fun r hr => h.head?_ne (by decide) (congrArg List.head? hr))
  simp [magnitude, wholePart_ofNat n h.stops, hf, he, digitsValue_ofNat]

lemma magnitude_real (negative : Bool) (n : Nat) (ds : List (Fin 10)) (e : Int) (h : Delimited rest) :
    magnitude negative (Bytes.ofNat n ++ (Number.point ds ++
      (0x65 :: (Number.sign (e < 0) ++ (Bytes.ofNat e.natAbs ++ rest))))) =
      some (.real negative n ds e, rest) := by
  have hstop : Stops (0x65 :: (Number.sign (e < 0) ++ (Bytes.ofNat e.natAbs ++ rest))) := by
    rintro b ⟨⟩
    rfl
  have hpoint : Stops (Number.point ds ++ 0x65 :: (Number.sign (e < 0) ++ (Bytes.ofNat e.natAbs ++ rest))) := by
    by_cases hd : ds = []
    · rw [hd]
      exact hstop
    · rw [Number.point, if_neg (by simpa using hd)]
      rintro b ⟨⟩
      rfl
  have hf := fraction_point ds hstop (by simp)
  have he : exponent (0x65 :: (Number.sign (e < 0) ++ (Bytes.ofNat e.natAbs ++ rest))) = some (some e, rest) := by
    rw [exponent, exponentDigits_sign e h.stops, Option.map_some]
  simp [magnitude, wholePart_ofNat n hpoint, hf, he, digitsValue_ofNat]

lemma numeral_sign (negative : Bool) (n : Nat) (rest : Bytes) :
    numeral (Number.sign negative ++ (Bytes.ofNat n ++ rest)) = magnitude negative (Bytes.ofNat n ++ rest) := by
  cases negative with
  | true => rfl
  | false => exact numeral.eq_2 _ (ofNat_append_ne rfl _ _)

lemma numeral_print (n : Number) (h : Delimited rest) : numeral (n.print ++ rest) = some (n, rest) := by
  cases n with
  | int negative n =>
    rw [Number.print, List.append_assoc, numeral_sign, magnitude_int negative n h]
  | real negative n ds e =>
    rw [← magnitude_real negative n ds e h, ← numeral_sign]
    simp only [Number.print, List.append_assoc]
    rfl

end Numbers

section Values

variable {fuel : Nat} {s t rest : Bytes} {x : Json} {xs : List Json} {k : Bytes} {ms : List (Bytes × Json)}

def Opens (s : Bytes) : Prop := ∃ b t, s = b :: t ∧ isBlank b = false ∧ b ≠ 0x5d

lemma Opens.append (h : Opens s) (rest : Bytes) : Opens (s ++ rest) := by
  obtain ⟨b, t, rfl, hb⟩ := h
  exact ⟨b, t ++ rest, rfl, hb⟩

lemma Opens.skipBlanks (h : Opens s) : skipBlanks s = s := by
  obtain ⟨b, t, rfl, hb, _⟩ := h
  simp [Json.skipBlanks, hb]

lemma print_eq_cons (n : Number) : ∃ b t, n.print = b :: t ∧ (b = 0x2d ∨ isDigit b = true) := by
  have h (negative : Bool) (n : Nat) (rest : Bytes) :
      ∃ b t, Number.sign negative ++ (Bytes.ofNat n ++ rest) = b :: t ∧ (b = 0x2d ∨ isDigit b = true) := by
    cases negative with
    | true => exact ⟨_, _, rfl, .inl rfl⟩
    | false =>
      obtain ⟨d, ds, hd⟩ := List.exists_cons_of_ne_nil (ofNat_ne_nil n)
      refine ⟨d, ds ++ rest, ?_, .inr (isDigit_of_mem_ofNat (hd ▸ List.mem_cons_self))⟩
      rw [hd]
      rfl
  cases n with
  | int negative n => simpa [Number.print] using h negative n []
  | real negative n ds e => simpa only [Number.print, List.append_assoc] using h negative n _

lemma isBlank_eq_false {b : UInt8} (h : b = 0x2d ∨ isDigit b = true) : isBlank b = false := by
  rcases h with rfl | h
  · rfl
  · by_contra hb
    simp only [isBlank, Bool.not_eq_false, Bool.or_eq_true, decide_eq_true_eq] at hb
    rcases hb with ((rfl | rfl) | rfl) | rfl <;> cases h

lemma value_numeral {b : UInt8} (h : b = 0x2d ∨ isDigit b = true) (fuel : Nat) (t : Bytes) :
    value (fuel + 1) (b :: t) = (numeral (b :: t)).map fun p => (.number p.1, p.2) := by
  have hs : skipBlanks (b :: t) = b :: t := by simp [skipBlanks, isBlank_eq_false h]
  have hne : b ∉ [0x22, 0x5b, 0x7b, 0x6e, 0x74, 0x66] := by
    intro hb
    simp only [List.mem_cons, List.not_mem_nil, or_false] at hb
    rcases hb with rfl | rfl | rfl | rfl | rfl | rfl <;> simp [isDigit] at h
  rw [value, hs]
  split <;> simp_all

lemma opens_compact (j : Json) : Opens j.compact := by
  match j with
  | .null => exact ⟨_, _, rfl, rfl, by decide⟩
  | .bool true => exact ⟨_, _, rfl, rfl, by decide⟩
  | .bool false => exact ⟨_, _, rfl, rfl, by decide⟩
  | .number n =>
    obtain ⟨b, t, hn, hb⟩ := print_eq_cons n
    refine ⟨b, t, hn, isBlank_eq_false hb, ?_⟩
    rintro rfl
    simp [isDigit] at hb
  | .string s => exact ⟨_, _, rfl, rfl, by decide⟩
  | .array [] => exact ⟨_, _, rfl, rfl, by decide⟩
  | .array (x :: xs) => exact ⟨_, _, rfl, rfl, by decide⟩
  | .object [] => exact ⟨_, _, rfl, rfl, by decide⟩
  | .object (m :: ms) => exact ⟨_, _, rfl, rfl, by decide⟩

lemma value_string (fuel : Nat) (s rest : Bytes) : value (fuel + 1) (quoted s ++ rest) = some (.string s, rest) := by
  have h : quoted s ++ rest = 0x22 :: (s.flatMap escape ++ 0x22 :: rest) := by simp [quoted]
  rw [h]
  change Option.map _ (stringBody (s.flatMap escape ++ 0x22 :: rest)) = _
  rw [stringBody_escape]
  rfl

lemma items_last (h : value fuel s = some (x, 0x5d :: rest)) : items (fuel + 1) s = some ([x], rest) := by
  rw [items, h]
  rfl

lemma items_next (h : value fuel s = some (x, 0x2c :: t)) (ht : items fuel t = some (xs, rest)) :
    items (fuel + 1) s = some (x :: xs, rest) := by
  rw [items, h]
  change Option.map _ (items fuel t) = _
  rw [ht]
  rfl

lemma members_key (fuel : Nat) (k s : Bytes) :
    members (fuel + 1) (quoted k ++ 0x3a :: s) = (value fuel s).bind fun p =>
      match skipBlanks p.2 with
      | 0x2c :: rest => (members fuel rest).map fun q => ((k, p.1) :: q.1, q.2)
      | 0x7d :: rest => some ([(k, p.1)], rest)
      | _ => none := by
  have h : quoted k ++ 0x3a :: s = 0x22 :: (k.flatMap escape ++ 0x22 :: 0x3a :: s) := by simp [quoted]
  rw [h, members]
  change (stringBody (k.flatMap escape ++ 0x22 :: 0x3a :: s)).bind _ = _
  rw [stringBody_escape]
  rfl

lemma members_last (h : value fuel s = some (x, 0x7d :: rest)) :
    members (fuel + 1) (quoted k ++ 0x3a :: s) = some ([(k, x)], rest) := by
  rw [members_key, h]
  rfl

lemma members_next (h : value fuel s = some (x, 0x2c :: t)) (ht : members fuel t = some (ms, rest)) :
    members (fuel + 1) (quoted k ++ 0x3a :: s) = some ((k, x) :: ms, rest) := by
  rw [members_key, h]
  change Option.map _ (members fuel t) = _
  rw [ht]
  rfl

lemma value_array (ho : Opens s) (h : items fuel s = some (xs, rest)) :
    value (fuel + 1) (0x5b :: s) = some (.array xs, rest) := by
  have hs := ho.skipBlanks
  obtain ⟨b, t, rfl, _, hc⟩ := ho
  have hopen : skipBlanks (0x5b :: b :: t) = 0x5b :: b :: t := rfl
  rw [value, hopen]
  simp only [hs]
  split
  · simp_all
  · rw [h]
    rfl

lemma value_object (h : members fuel (quoted k ++ s) = some (ms, rest)) :
    value (fuel + 1) (0x7b :: (quoted k ++ s)) = some (.object ms, rest) := by
  change Option.map _ (members fuel (quoted k ++ s)) = _
  rw [h]
  rfl

lemma value_number (fuel : Nat) (n : Number) (h : Delimited rest) :
    value (fuel + 1) (n.print ++ rest) = some (.number n, rest) := by
  obtain ⟨b, t, hn, hb⟩ := print_eq_cons n
  have hp := numeral_print n h
  rw [hn, List.cons_append] at hp ⊢
  rw [value_numeral hb, hp]
  rfl

-- A call of the parser either takes a byte or is followed by one that does: two units for each byte are enough.
mutual

theorem value_compact : ∀ (j : Json) {fuel : Nat} {rest : Bytes}, 2 * j.compact.length ≤ fuel → Delimited rest →
    value fuel (j.compact ++ rest) = some (j, rest)
  | j, 0, _, hf, _ => by
    obtain ⟨b, t, h, _⟩ := opens_compact j
    simp [h] at hf
  | .null, _ + 1, _, _, _ | .bool true, _ + 1, _, _, _ | .bool false, _ + 1, _, _, _
  | .array [], _ + 1, _, _, _ | .object [], _ + 1, _, _, _ => rfl
  | .number n, fuel + 1, _, _, hr => value_number fuel n hr
  | .string s, fuel + 1, rest, _, _ => value_string fuel s rest
  | .array (x :: xs), fuel + 1, rest, hf, _ => by
    have ho : Opens ((compactItems (x :: xs)).tail ++ rest) := ((opens_compact x).append _).append _
    refine value_array ho (items_compact (x :: xs) (List.cons_ne_nil _ _) ?_)
    simp [compact, compactItems] at hf ⊢
    omega
  | .object ((k, x) :: ms), fuel + 1, rest, hf, _ => by
    have hlen : 2 * (compactMembers ((k, x) :: ms)).length ≤ fuel + 2 := by
      simp [compact, compactMembers] at hf ⊢
      omega
    have h := @members_compact ((k, x) :: ms) fuel rest (List.cons_ne_nil _ _) hlen
    simp only [compact, compactMembers, List.tail_cons, List.append_assoc, List.cons_append] at h ⊢
    exact value_object h

theorem items_compact : ∀ (xs : List Json) {fuel : Nat} {rest : Bytes}, xs ≠ [] →
    2 * (compactItems xs).length ≤ fuel + 2 → items fuel ((compactItems xs).tail ++ rest) = some (xs, rest)
  | [], _, _, hne, _ => absurd rfl hne
  | x :: xs, 0, _, _, hf => by
    obtain ⟨b, t, h, _⟩ := opens_compact x
    simp only [compactItems, h, List.length_append, List.length_cons] at hf
    omega
  | [x], fuel + 1, rest, _, hf => by
    apply items_last
    have hr := delimited_cons (.inr (.inl rfl)) rest
    simp only [compactItems, List.length_append, List.length_cons] at hf
    simpa [compactItems] using value_compact x (by omega) hr
  | x :: y :: ys, fuel + 1, rest, _, hf => by
    have hr := delimited_cons (.inl rfl) ((compactItems (y :: ys)).tail ++ rest)
    simp only [compactItems, List.length_append, List.length_cons] at hf
    refine items_next (t := (compactItems (y :: ys)).tail ++ rest) ?_
      (items_compact (y :: ys) (List.cons_ne_nil _ _) ?_)
    · simpa [compactItems] using value_compact x (by omega) hr
    · simp only [compactItems, List.length_append, List.length_cons]
      omega

theorem members_compact : ∀ (ms : List (Bytes × Json)) {fuel : Nat} {rest : Bytes}, ms ≠ [] →
    2 * (compactMembers ms).length ≤ fuel + 2 →
      members fuel ((compactMembers ms).tail ++ rest) = some (ms, rest)
  | [], _, _, hne, _ => absurd rfl hne
  | (k, x) :: ms, 0, _, _, hf => by
    simp only [compactMembers, List.length_append, List.length_cons] at hf
    omega
  | [(k, x)], fuel + 1, rest, _, hf => by
    have hr := delimited_cons (.inr (.inr (.inl rfl))) rest
    simp only [compactMembers, List.length_append, List.length_cons] at hf
    simp only [compactMembers, List.tail_cons, List.append_assoc, List.cons_append, List.nil_append]
    exact members_last (value_compact x (by omega) hr)
  | (k, x) :: (l, y) :: ms, fuel + 1, rest, _, hf => by
    have hr := delimited_cons (.inl rfl) ((compactMembers ((l, y) :: ms)).tail ++ rest)
    simp only [compactMembers, List.length_append, List.length_cons] at hf
    have h := @members_compact ((l, y) :: ms) fuel rest (List.cons_ne_nil _ _) ?_
    · simp only [compactMembers, List.tail_cons, List.append_assoc, List.cons_append] at h hr ⊢
      exact members_next (value_compact x (by omega) hr) h
    · simp only [compactMembers, List.length_append, List.length_cons]
      omega

end

theorem parse_compact (j : Json) : parse j.compact = some j := by
  have h := @value_compact j (2 * j.compact.length + 2) [] (by omega) delimited_nil
  rw [List.append_nil] at h
  rw [parse, h]
  rfl

end Values

end DeviceLink.Json
