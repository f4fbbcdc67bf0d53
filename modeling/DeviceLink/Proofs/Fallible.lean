import Mathlib.Data.List.Forall2
import Mathlib.Tactic.Lemma

namespace DeviceLink.Fallible

variable {ε α β : Type}

lemma bind_eq_ok_iff {x : Except ε α} {f : α → Except ε β} {b : β} :
    x >>= f = .ok b ↔ ∃ a, x = .ok a ∧ f a = .ok b := by
  cases x <;> simp [bind, Except.bind]

lemma bind_eq_error_iff {x : Except ε α} {f : α → Except ε β} {e : ε} :
    x >>= f = .error e ↔ x = .error e ∨ ∃ a, x = .ok a ∧ f a = .error e := by
  cases x <;> simp [bind, Except.bind]

lemma ite_eq_ok_iff {c : Prop} [Decidable c] {a b : α} {e : ε} :
    (if c then .ok a else .error e : Except ε α) = .ok b ↔ c ∧ b = a := by
  split <;> simp_all [eq_comm]

lemma exists_of_isOk {x : Except ε α} (h : x.isOk = true) : ∃ a, x = .ok a := by
  cases x with
  | ok a => exact ⟨a, rfl⟩
  | error e => cases h

lemma exists_of_any {x : Except ε α} {q : α → Bool} (h : x.toOption.any q = true) : ∃ a, x = .ok a ∧ q a = true := by
  cases x with
  | ok a => exact ⟨a, rfl, h⟩
  | error e => cases h

lemma mapM_iff_forall₂ {m : Type → Type} [Monad m] [LawfulMonad m] {R : {γ : Type} → m γ → γ → Prop}
    (hpure : ∀ {γ : Type} {a b : γ}, R (pure a) b ↔ a = b)
    (hbind : ∀ {γ δ : Type} {x : m γ} {f : γ → m δ} {b : δ}, R (x >>= f) b ↔ ∃ a, R x a ∧ R (f a) b)
    {f : α → m β} {xs : List α} {ys : List β} : R (xs.mapM f) ys ↔ List.Forall₂ (fun x y => R (f x) y) xs ys := by
  induction xs generalizing ys with
  | nil => rw [List.mapM_nil, List.forall₂_nil_left_iff, hpure, eq_comm]
  | cons x xs ih =>
    rw [List.mapM_cons, List.forall₂_cons_left_iff, hbind]
    simp only [hbind, hpure, ih]
    constructor
    · rintro ⟨y, hy, zs, hz, rfl⟩
      exact ⟨y, zs, hy, hz, rfl⟩
    · rintro ⟨y, zs, hy, hz, rfl⟩
      exact ⟨y, hy, zs, hz, rfl⟩

lemma mapM_eq_ok_iff {f : α → Except ε β} {xs : List α} {ys : List β} :
    xs.mapM f = .ok ys ↔ List.Forall₂ (fun x y => f x = .ok y) xs ys :=
  mapM_iff_forall₂ (R := fun x b => x = Except.ok b) (Iff.of_eq (Except.ok.injEq ..)) bind_eq_ok_iff

lemma mapM_eq_some_iff {f : α → Option β} {xs : List α} {ys : List β} :
    xs.mapM f = some ys ↔ List.Forall₂ (fun x y => f x = some y) xs ys :=
  mapM_iff_forall₂ (R := fun x b => x = some b) Option.some_inj Option.bind_eq_some_iff

lemma exists_of_mem_forall₂ {R : α → β → Prop} {xs : List α} {ys : List β} (h : List.Forall₂ R xs ys) {x : α}
    (hx : x ∈ xs) : ∃ y ∈ ys, R x y := by
  induction h with
  | nil => cases hx
  | cons hy _ ih =>
    rcases List.mem_cons.mp hx with rfl | hx
    · exact ⟨_, List.mem_cons_self, hy⟩
    · obtain ⟨y, hm, he⟩ := ih hx
      exact ⟨y, List.mem_cons_of_mem _ hm, he⟩

lemma exists_of_mem_mapM {f : α → Except ε β} {xs : List α} {ys : List β} (h : xs.mapM f = .ok ys)
    {y : β} (hy : y ∈ ys) : ∃ x ∈ xs, f x = .ok y :=
  exists_of_mem_forall₂ (mapM_eq_ok_iff.mp h).flip hy

lemma exists_mem_mapM {f : α → Except ε β} {xs : List α} {ys : List β} (h : xs.mapM f = .ok ys)
    {x : α} (hx : x ∈ xs) : ∃ y ∈ ys, f x = .ok y :=
  exists_of_mem_forall₂ (mapM_eq_ok_iff.mp h) hx

lemma exists_first_of_mapM_eq_error {f : α → Except ε β} {xs : List α} {e : ε} (h : xs.mapM f = .error e) :
    ∃ before x after, xs = before ++ x :: after ∧ (∀ y ∈ before, ∃ z, f y = .ok z) ∧ f x = .error e := by
  induction xs with
  | nil => cases h
  | cons x xs ih =>
    rw [List.mapM_cons, bind_eq_error_iff] at h
    rcases h with h | ⟨y, hy, h⟩
    · exact ⟨[], x, xs, rfl, by simp, h⟩
    · rcases bind_eq_error_iff.mp h with h | ⟨zs, _, h⟩
      · obtain ⟨before, w, after, rfl, hb, hw⟩ := ih h
        exact ⟨x :: before, w, after, rfl, List.forall_mem_cons.mpr ⟨⟨y, hy⟩, hb⟩, hw⟩
      · cases h

lemma exists_of_mapM_eq_error {f : α → Except ε β} {xs : List α} {e : ε} (h : xs.mapM f = .error e) :
    ∃ x ∈ xs, f x = .error e := by
  obtain ⟨before, x, after, rfl, _, hx⟩ := exists_first_of_mapM_eq_error h
  exact ⟨x, List.mem_append_cons_self, hx⟩

lemma exists_mapM_eq_ok {f : α → Except ε β} {xs : List α} (h : ∀ x ∈ xs, ∃ y, f x = .ok y) :
    ∃ ys, xs.mapM f = .ok ys := by
  cases hm : xs.mapM f with
  | ok ys => exact ⟨ys, rfl⟩
  | error e =>
    obtain ⟨x, hx, he⟩ := exists_of_mapM_eq_error hm
    obtain ⟨y, hy⟩ := h x hx
    cases he.symm.trans hy

lemma mapM_eq_error_iff {f : α → Except ε β} {xs : List α} {e : ε} :
    xs.mapM f = .error e ↔
      ∃ before x after, xs = before ++ x :: after ∧ (∀ y ∈ before, ∃ z, f y = .ok z) ∧ f x = .error e := by
  refine ⟨exists_first_of_mapM_eq_error, ?_⟩
  rintro ⟨before, x, after, rfl, hb, hx⟩
  obtain ⟨ys, hys⟩ := exists_mapM_eq_ok hb
  rw [List.mapM_append, hys, List.mapM_cons, hx]
  rfl

lemma mapM_eq_ok_map {f : α → Except ε β} {g : α → β} {xs : List α} (h : ∀ x ∈ xs, f x = .ok (g x)) :
    xs.mapM f = .ok (xs.map g) := by
  rw [mapM_eq_ok_iff, List.forall₂_map_right_iff, List.forall₂_same]
  exact h

lemma eq_map_of_mapM_eq_ok {f : α → Except ε β} {g : α → β} (hg : ∀ x y, f x = .ok y → g x = y)
    {xs : List α} {ys : List β} (h : xs.mapM f = .ok ys) : xs.map g = ys := by
  rw [← List.forall₂_eq_eq_eq, List.forall₂_map_left_iff]
  exact (mapM_eq_ok_iff.mp h).imp fun x y => hg x y

lemma mapM_eq_flatMap {γ δ : Type} {step : α → Except ε β} {out : α → β} {parts : α → List γ}
    {f : γ → Except ε δ} (h : ∀ x, step x = (fun _ => out x) <$> (parts x).mapM f) (xs : List α) :
    xs.mapM step = (fun _ => xs.map out) <$> (xs.flatMap parts).mapM f := by
  induction xs with
  | nil => rfl
  | cons x rest ih => simp [h, ih]

inductive Alike (R : α → β → Prop) : Except ε α → Except ε β → Prop
  | ok {a : α} {b : β} (h : R a b) : Alike R (.ok a) (.ok b)
  | error (e : ε) : Alike R (.error e) (.error e)

namespace Alike

variable {γ δ : Type} {R : α → β → Prop} {S : γ → δ → Prop} {x : Except ε α} {y : Except ε β}

lemma bind {f : α → Except ε γ} {g : β → Except ε δ} (h : Alike R x y) (hfg : ∀ a b, R a b → Alike S (f a) (g b)) :
    Alike S (x >>= f) (y >>= g) := by
  cases h with
  | ok h => exact hfg _ _ h
  | error e => exact .error e

lemma map {f : α → γ} {g : β → δ} (h : Alike R x y) (hfg : ∀ a b, R a b → S (f a) (g b)) :
    Alike S (f <$> x) (g <$> y) := by
  cases h with
  | ok h => exact .ok (hfg _ _ h)
  | error e => exact .error e

lemma imp {R' : α → β → Prop} (h : Alike R x y) (hR : ∀ a b, x = .ok a → y = .ok b → R a b → R' a b) :
    Alike R' x y := by
  cases h with
  | ok h => exact .ok (hR _ _ rfl rfl h)
  | error e => exact .error e

end Alike

end DeviceLink.Fallible
