import DeviceLink.Proofs.Indexes
import Mathlib.Order.Bounds.Basic

namespace DeviceLink.Graph

open Fallible

def Named (units : List CompiledUnit) (x : String) (id : SymbolId) : Prop :=
  ∃ e, (entries units)[id]? = some e ∧ e.name = x

/-- The symbol that a driver means by a name: the first that is seen from everywhere, or else the first of all. -/
def Elects (units : List CompiledUnit) (x : String) (id : SymbolId) : Prop :=
  IsLeast {i | Exports units x i} id ∨ (∀ i, ¬ Exports units x i) ∧ IsLeast {i | Named units x i} id

variable {units : List CompiledUnit} {g : Graph} {x : String} {id : SymbolId} {extra more : List String}
  {roots roots' : List SymbolId}

section Order

lemma roots_subset (hr : g.roots extra = .ok roots) (hr' : g.roots more = .ok roots') (hsub : extra ⊆ more) :
    roots ⊆ roots' := by
  intro id hid
  rw [mem_roots_iff hr']
  rw [mem_roots_iff hr] at hid
  exact hid.imp_right fun ⟨x, hx, hd⟩ => ⟨x, hsub hx, hd⟩

lemma roots_congr (hr : g.roots extra = .ok roots) (hsame : ∀ x, x ∈ more ↔ x ∈ extra) : g.roots more = .ok roots := by
  have hok := exists_roots_iff.mp ⟨roots, hr⟩
  obtain ⟨roots', hr'⟩ : ∃ roots', g.roots more = .ok roots' :=
    exists_roots_iff.mpr fun x hx => hok x ((hsame x).mp hx)
  have hsub := roots_subset hr' hr fun x => (hsame x).mp
  have hsup := roots_subset hr hr' fun x => (hsame x).mpr
  rw [hr', (roots_pairwise hr').eq_of_mem_iff (roots_pairwise hr) fun id => ⟨@hsub id, @hsup id⟩]

end Order

section Names

lemma exists_named_iff : (∃ i, Named units x i) ↔ x ∈ (entries units).map (·.name) := by
  rw [List.mem_map]
  constructor
  · rintro ⟨i, e, he, hx⟩
    exact ⟨e, List.mem_of_getElem? he, hx⟩
  · rintro ⟨e, he, hx⟩
    obtain ⟨i, hi⟩ := List.getElem?_of_mem he
    exact ⟨i, e, hi, hx⟩

lemma Elects.named (hid : Elects units x id) : Named units x id := by
  rcases hid with ⟨⟨e, he, _, hx⟩, _⟩ | ⟨_, hleast⟩
  · exact ⟨e, he, hx⟩
  · exact hleast.1

lemma named_symbolOfEntry (k : ModuleId) (e : SymbolEntry) :
    decide ((symbolOfEntry k e).name = x) = true ↔ e.name = x :=
  decide_eq_true_iff

variable (h : build units = .ok g)

include h

lemma designated?_eq_some_iff : g.designated? x = some id ↔ Elects units x id := by
  cases hx : g.external? x with
  | some first =>
    have hfirst := (external?_eq_some_iff_isLeast h).mp hx
    have hdes : g.designated? x = some first := by simp [designated?, hx]
    rw [hdes, Option.some_inj]
    constructor
    · rintro rfl
      exact .inl hfirst
    · rintro (hleast | ⟨hno, _⟩)
      · exact hfirst.unique hleast
      · exact absurd hfirst.1 (hno first)
  | none =>
    have hno (i : SymbolId) (hi : Exports units x i) : False := by
      obtain ⟨first, hf⟩ := (exists_external?_iff h).mpr ⟨i, hi⟩
      cases hx.symm.trans hf
    have hdes : g.designated? x = g.symbols.findIdx? (·.name = x) := by simp [designated?, hx]
    rw [hdes, findIdx?_symbols_eq_some_iff h named_symbolOfEntry]
    constructor
    · intro hleast
      exact .inr ⟨hno, hleast⟩
    · rintro (hleast | ⟨_, hleast⟩)
      · exact absurd hleast.1 (hno id)
      · exact hleast

lemma exists_designated?_iff : (∃ id, g.designated? x = some id) ↔ x ∈ (entries units).map (·.name) := by
  rw [← exists_named_iff]
  constructor
  · rintro ⟨id, hid⟩
    exact ⟨id, ((designated?_eq_some_iff h).mp hid).named⟩
  · intro hx
    obtain ⟨id, hid⟩ : ∃ id, g.symbols.findIdx? (·.name = x) = some id :=
      (exists_findIdx?_symbols_iff h named_symbolOfEntry).mpr hx
    cases hext : g.external? x with
    | some first => exact ⟨first, by simp [designated?, hext]⟩
    | none => exact ⟨id, by simpa [designated?, hext] using hid⟩

lemma designate_eq_error_iff {fault : Fault} :
    g.designate x = .error fault ↔ x ∉ (entries units).map (·.name) ∧ fault = .unresolved "<driver>" x := by
  rw [← exists_designated?_iff h, designate]
  cases g.designated? x <;> simp [eq_comm]

lemma roots_eq_error_iff {fault : Fault} :
    g.roots extra = .error fault ↔ ∃ before x after, extra = before ++ x :: after ∧
      (∀ y ∈ before, y ∈ (entries units).map (·.name)) ∧ x ∉ (entries units).map (·.name) ∧
      fault = .unresolved "<driver>" x := by
  have hroots : g.roots extra = .error fault ↔ extra.mapM g.designate = .error fault := by
    rw [Graph.roots, bind_eq_error_iff]
    exact or_iff_left fun ⟨_, _, hpure⟩ => nomatch hpure
  simp only [hroots, mapM_eq_error_iff, designate_eq_error_iff h, designate_eq_ok_iff, exists_designated?_iff h]

lemma mem_roots_iff_elects (hr : g.roots extra = .ok roots) :
    id ∈ roots ↔ (∃ u e, Stands units id u e ∧ u.opens e = true) ∨ ∃ x ∈ extra, Elects units x id := by
  rw [mem_roots_iff hr]
  refine or_congr ?_ ?_
  · constructor
    · rintro ⟨s, hs, hroot⟩
      obtain ⟨k, u, e, hst, hu, rfl⟩ := exists_stands h hs
      exact ⟨u, e, hst, (isRoot_symbolOfEntry h hu e).symm.trans hroot⟩
    · rintro ⟨u, e, hst, hopens⟩
      obtain ⟨k, hu, hs⟩ := hst.exists_symbol h
      exact ⟨_, hs, (isRoot_symbolOfEntry h hu e).trans hopens⟩
  · simp only [designated?_eq_some_iff h]

end Names

theorem roots_are_exact (h : build units = .ok g) (extra : List String) :
    ((∃ roots, g.roots extra = .ok roots) ↔ ∀ x ∈ extra, x ∈ (entries units).map (·.name)) ∧
    (∀ fault, g.roots extra = .error fault ↔ ∃ before x after, extra = before ++ x :: after ∧
      (∀ y ∈ before, y ∈ (entries units).map (·.name)) ∧ x ∉ (entries units).map (·.name) ∧
      fault = .unresolved "<driver>" x) ∧
    ∀ roots, g.roots extra = .ok roots →
      roots.Pairwise (· < ·) ∧
      (∀ id, id ∈ roots ↔
        (∃ u e, Stands units id u e ∧ (e.isKernel = true ∨ e.visibility = .external ∧ u.kind = .program)) ∨
          ∃ x ∈ extra, Elects units x id) ∧
      (∀ x ∈ extra, ∃ id ∈ roots, Elects units x id) ∧
      (∀ again, (∀ x, x ∈ again ↔ x ∈ extra) → g.roots again = .ok roots) ∧
      ∀ more roots', extra ⊆ more → g.roots more = .ok roots' → roots ⊆ roots' := by
  refine ⟨?_, fun fault => roots_eq_error_iff h, fun roots hr => ⟨roots_pairwise hr, fun id => ?_, fun x hx => ?_,
    fun again hsame => roots_congr hr hsame, fun more roots' hsub hr' => roots_subset hr hr' hsub⟩⟩
  · simp only [exists_roots_iff, exists_designated?_iff h]
  · rw [mem_roots_iff_elects h hr]
    simp [CompiledUnit.opens]
  · obtain ⟨id, hid⟩ := exists_roots_iff.mp ⟨roots, hr⟩ x hx
    exact ⟨id, (mem_roots_iff hr).mpr (.inr ⟨x, hx, hid⟩), (designated?_eq_some_iff h).mp hid⟩

theorem roots_are_exact_sketch :
    ∃ g, build sketch = .ok g ∧
      (∃ roots, g.roots ["mix", "pick", "mix"] = .ok roots ∧ 0 ∈ roots ∧ 2 ∈ roots ∧ 5 ∈ roots ∧
        g.roots ["pick", "mix"] = .ok roots) ∧
      g.roots ["mix", "fade", "blend"] = .error (.unresolved "<driver>" "fade") := by
  have hg : build sketch = .ok ((build sketch).toOption.getD {}) := rfl
  refine ⟨_, hg, ?_, ?_⟩
  · obtain ⟨hok, _, hroots⟩ := roots_are_exact hg ["mix", "pick", "mix"]
    obtain ⟨roots, hr⟩ := hok.mpr (by decide)
    obtain ⟨_, hmem, _, hsame, _⟩ := hroots roots hr
    have hpick : Elects sketch "pick" 2 := .inl (isLeast_entry ⟨_, rfl, rfl, rfl⟩ (by decide))
    have hhidden : ∀ e ∈ entries sketch, ¬ (e.isExternal = true ∧ e.name = "mix") := by decide
    have hmix : Elects sketch "mix" 5 :=
      .inr ⟨fun i ⟨e, he, hext⟩ => hhidden e (List.mem_of_getElem? he) hext, isLeast_entry ⟨_, rfl, rfl⟩ (by decide)⟩
    refine ⟨roots, hr, (hmem 0).mpr (.inl ⟨_, _, ⟨0, rfl, rfl⟩, .inl rfl⟩), ?_, ?_, hsame _ (by simp)⟩
    · exact (hmem 2).mpr (.inr ⟨"pick", by decide, hpick⟩)
    · exact (hmem 5).mpr (.inr ⟨"mix", by decide, hmix⟩)
  · exact ((roots_are_exact hg _).2.1 _).mpr ⟨["mix"], "fade", ["blend"], rfl, by decide, by decide, rfl⟩

end DeviceLink.Graph
