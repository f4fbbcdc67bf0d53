import DeviceLink.Proofs.Entries

namespace DeviceLink

open Ir

lemma Graph.duplicateExternals_eq_nil_of_nodup {units : List CompiledUnit} {g : Graph} (h : build units = .ok g)
    (hn : (units.flatMap CompiledUnit.externals).Nodup) : g.duplicateExternals = [] := by
  refine List.eq_nil_iff_forall_not_mem.mpr fun ⟨i, j⟩ hmem => ?_
  obtain ⟨s, t, u, v, _, _, _, _, k, l, hkl, hk, hl, hu, hv⟩ := clash_of_mem_duplicateExternals h hmem
  obtain ⟨hlt, rfl⟩ := List.getElem?_eq_some_iff.mp hk
  obtain ⟨hlt', rfl⟩ := List.getElem?_eq_some_iff.mp hl
  have hdis := List.pairwise_iff_getElem.mp (List.nodup_flatMap.mp hn).2
  rcases Nat.lt_or_gt_of_ne hkl with hkl | hkl
  · exact hdis k l hlt hlt' hkl hu hv
  · exact hdis l k hlt' hlt hkl hv hu

namespace Program

variable {p q : Program} {units units' : List CompiledUnit} {k j : ModuleId} {u : CompiledUnit} {m : Module}

lemma space?_scope_eq_some_iff (h : Graph.build units = .ok p.graph) (hd : p.graph.duplicateExternals = [])
    (hu : units[k]? = some u) {x : String} {space : Space} :
    (p.scope k m).space? x = some space ↔ ∃ v d, Means units u x v d ∧ d.place = space := by
  simp only [scope, Option.bind_eq_bind, Option.bind_eq_some_iff, Option.pure_def, Option.some.injEq]
  constructor
  · rintro ⟨t, ht, s, hs, rfl⟩
    obtain ⟨v, d, hm, hst⟩ := (Graph.resolve?_eq_some_iff h hd hu).mp ht
    obtain ⟨i, _, hs'⟩ := hst.exists_symbol h
    obtain rfl := Option.some.inj (hs'.symm.trans hs)
    exact ⟨v, d, hm, rfl⟩
  · rintro ⟨v, d, hm, rfl⟩
    obtain ⟨hv, hmem⟩ := hm.mem (List.mem_of_getElem? hu)
    obtain ⟨t, hst⟩ := Graph.exists_stands_of_mem hv hmem
    obtain ⟨i, _, hs⟩ := hst.exists_symbol h
    exact ⟨t, (Graph.resolve?_eq_some_iff h hd hu).mpr ⟨v, d, hm, hst⟩, _, hs, rfl⟩

section Perm

variable (hp : units.Perm units') (h : Graph.build units = .ok p.graph) (hd : p.graph.duplicateExternals = [])
  (h' : Graph.build units' = .ok q.graph) (hd' : q.graph.duplicateExternals = []) (hu : units[k]? = some u)
  (hu' : units'[j]? = some u)

include hp h hd h' hd' hu hu'

lemma scope_eq_of_perm : p.scope k m = q.scope j m := by
  have hspace : (p.scope k m).space? = (q.scope j m).space? := by
    funext x
    ext space
    rw [space?_scope_eq_some_iff h hd hu, space?_scope_eq_some_iff h' hd' hu']
    simp only [means_iff_of_perm hp]
  exact congrArg (Verify.Scope.mk · _) hspace

variable (hsource : p.source = q.source) (hseg : p.segments = q.segments) (hstrict : p.strict = q.strict)

include hseg hstrict

lemma define_eq_of_perm (e : SymbolEntry) :
    p.define (Graph.symbolOfEntry k e) m = q.define (Graph.symbolOfEntry j e) m := by
  have hscope : p.scope k m = q.scope j m := scope_eq_of_perm hp h hd h' hd' hu hu'
  have hrules : p.rules k m = q.rules j m := by rw [rules, rules, hscope, hseg, hstrict]
  simp only [define, Graph.symbolOfEntry, hscope, hrules, Graph.moduleName_of_build h hu,
    Graph.moduleName_of_build h' hu']

include hsource

lemma outcome_eq_of_perm {i i' : SymbolId} {e : SymbolEntry} (hi : p.graph.symbols[i]? = some (Graph.symbolOfEntry k e))
    (hi' : q.graph.symbols[i']? = some (Graph.symbolOfEntry j e)) : p.outcome i = q.outcome i' := by
  have hname : p.graph.moduleName k = u.name := Graph.moduleName_of_build h hu
  have hname' : q.graph.moduleName j = u.name := Graph.moduleName_of_build h' hu'
  have hdefine : p.define (Graph.symbolOfEntry k e) = q.define (Graph.symbolOfEntry j e) := by
    funext m
    exact define_eq_of_perm hp h hd h' hd' hu hu' hseg hstrict e
  rw [outcome_of_symbol (Graph.build_bounded h) hi, outcome_of_symbol (Graph.build_bounded h') hi', hdefine]
  simp only [Graph.symbolOfEntry, hname, hname', hsource]

end Perm

end Program

namespace Session

/-- A second session has the units of a first one in another order. No external name is defined twice, and the extra
roots are external. -/
structure Reordered (s t : Session) : Prop where
  units : s.units.Perm t.units
  source : s.source = t.source
  options : s.options = t.options
  distinct : (s.units.flatMap CompiledUnit.externals).Nodup
  designated : ∀ x ∈ s.options.extraRoots, ∃ u ∈ s.units, x ∈ u.externals

variable {s t : Session} {e f : Strategy} {g g' : Graph} {roots roots' : List SymbolId} {r r' : Reached} {l l' : Loader}

namespace Reordered

lemma symm (h : s.Reordered t) : t.Reordered s where
  units := h.units.symm
  source := h.source.symm
  options := h.options.symm
  distinct := (h.units.flatMap_right _).nodup_iff.mp h.distinct
  designated := by
    rw [← h.options]
    intro x hx
    obtain ⟨u, hu, hmem⟩ := h.designated x hx
    exact ⟨u, h.units.mem_iff.mp hu, hmem⟩

lemma duplicateExternals (h : s.Reordered t) (hg : Graph.build s.units = .ok g) : g.duplicateExternals = [] :=
  Graph.duplicateExternals_eq_nil_of_nodup hg h.distinct

lemma reaches_iff_kept (h : s.Reordered t) (hw : s.Walks e g roots (.ok r, l)) {i : SymbolId} {u : CompiledUnit}
    {d : SymbolEntry} (hi : Graph.Stands s.units i u d) :
    g.Reaches roots (.symbol i) ↔ Kept s.units s.options.extraRoots u d :=
  hi.reaches_iff_kept hw.built h.designated (h.duplicateExternals hw.built) hw.rooted

lemma kept_iff (h : s.Reordered t) {u : CompiledUnit} {d : SymbolEntry} :
    Kept s.units s.options.extraRoots u d ↔ Kept t.units t.options.extraRoots u d := by
  rw [← h.options]
  exact ⟨fun hk => hk.perm h.units, fun hk => hk.perm h.units.symm⟩

lemma outcome_eq (h : s.Reordered t) (hg : Graph.build s.units = .ok g) (hg' : Graph.build t.units = .ok g')
    {i i' : SymbolId} {u : CompiledUnit} {d : SymbolEntry} (hi : Graph.Stands s.units i u d)
    (hi' : Graph.Stands t.units i' u d) : (s.program g).outcome i = (t.program g').outcome i' := by
  obtain ⟨k, hu, hs⟩ := hi.exists_symbol hg
  obtain ⟨j, hu', hs'⟩ := hi'.exists_symbol hg'
  refine Program.outcome_eq_of_perm h.units hg (h.duplicateExternals hg) hg' (h.symm.duplicateExternals hg') hu hu'
    h.source ?_ ?_ hs hs'
  · simp only [program, h.options]
  · simp only [program, h.options]

lemma exists_reaches (h : s.Reordered t) (hw : s.Walks e g roots (.ok r, l)) (hg' : Graph.build t.units = .ok g')
    (hr' : g'.roots t.options.extraRoots = .ok roots') {i' : SymbolId} (hi' : g'.Reaches roots' (.symbol i')) :
    ∃ i u d, Graph.Stands s.units i u d ∧ Graph.Stands t.units i' u d ∧ g.Reaches roots (.symbol i) := by
  have hlt := Graph.symbol_mem_nodes.mp ((Graph.build_bounded hg').reaches (Graph.lt_of_mem_roots hg' hr') hi')
  obtain ⟨_, u, d, hst', _⟩ := Graph.exists_stands hg' (List.getElem?_eq_getElem hlt)
  have hk : Kept t.units t.options.extraRoots u d :=
    (hst'.reaches_iff_kept hg' h.symm.designated (h.symm.duplicateExternals hg') hr').mp hi'
  have hk := h.kept_iff.mpr hk
  obtain ⟨i, hst⟩ := Graph.exists_stands_of_mem hk.mem.1 hk.mem.2
  exact ⟨i, u, d, hst, hst', (h.reaches_iff_kept hw hst).mpr hk⟩

lemma exists_walks (h : s.Reordered t) (hw : s.Walks e g roots (.ok r, l)) :
    ∃ g' roots' r' l', t.Walks f g' roots' (.ok r', l') := by
  obtain ⟨g', hg'⟩ := Graph.exists_build_iff.mpr ((Graph.wellFormed_of_build hw.built).perm h.units)
  obtain ⟨roots', hr'⟩ := Graph.exists_roots hg' h.symm.designated
  obtain ⟨r', l', hw'⟩ := @Session.exists_walks t f g' roots' (h.options ▸ hw.segments) hg' hr' fun i' hi' => by
    obtain ⟨i, u, d, hst, hst', hi⟩ := h.exists_reaches hw hg' hr' hi'
    obtain ⟨b, hb⟩ := hw.covers.defined hi
    exact ⟨b, h.outcome_eq hw.built hg' hst hst' ▸ hb⟩
  exact ⟨g', roots', r', l', hw'⟩

lemma resolves_iff (h : s.Reordered t) (hw : s.Walks e g roots (.ok r, l)) {k : ModuleId} {u : CompiledUnit}
    (hu : s.units[k]? = some u) {x : String} :
    Linked.Resolves g r k x ↔ ∃ v d, Means s.units u x v d ∧ Kept s.units s.options.extraRoots v d := by
  have hd := h.duplicateExternals hw.built
  constructor
  · rintro ⟨i, hi, hreach⟩
    obtain ⟨v, d, hm, hst⟩ := (Graph.resolve?_eq_some_iff hw.built hd hu).mp hi
    exact ⟨v, d, hm, (h.reaches_iff_kept hw hst).mp (hw.covers.marks.mp hreach)⟩
  · rintro ⟨v, d, hm, hk⟩
    obtain ⟨i, hst⟩ := Graph.exists_stands_of_mem hk.mem.1 hk.mem.2
    exact ⟨i, (Graph.resolve?_eq_some_iff hw.built hd hu).mpr ⟨v, d, hm, hst⟩,
      hw.covers.marks.mpr ((h.reaches_iff_kept hw hst).mpr hk)⟩

lemma not_dangles (h : s.Reordered t) (hw : s.Walks e g roots (.ok r, l)) (hw' : t.Walks f g' roots' (.ok r', l'))
    (hn : ¬ Linked.Dangles g r) : ¬ Linked.Dangles g' r' := by
  rintro ⟨i', sym', b, v, x, hs', hb, hv, hx, hres⟩
  obtain ⟨hi', ho⟩ := hw'.covers.bodies.mp hb
  obtain ⟨i, u, d, hst, hst', hi⟩ := h.exists_reaches hw hw'.built hw'.rooted hi'
  obtain ⟨k, hu, hs⟩ := hst.exists_symbol hw.built
  obtain ⟨j, hu', hsym⟩ := hst'.exists_symbol hw'.built
  obtain rfl := Option.some.inj (hsym.symm.trans hs')
  have hb' : r.body? i = some b :=
    hw.covers.bodies.mpr ⟨hi, (h.outcome_eq hw.built hw'.built hst hst').trans ho⟩
  refine hn ⟨i, _, b, v, x, hs, hb', hv, hx, fun hold => hres ?_⟩
  obtain ⟨v, d, hm, hk⟩ := (h.resolves_iff hw hu).mp hold
  exact (h.symm.resolves_iff hw' hu').mpr ⟨v, d, hm.perm h.units, h.kept_iff.mp hk⟩

lemma exists_links {a : Analysis} {out : Output} (h : s.Reordered t) (hl : s.Links e roots a out) :
    ∃ roots' a' out', t.Links f roots' a' out' := by
  obtain ⟨g', roots', r', l', hw'⟩ := h.exists_walks (f := f) hl.walks
  obtain ⟨ds, hd, _⟩ := hl.exists_definitions
  have hn : ¬ Linked.Dangles a.graph a.reached :=
    Linked.Naming.not_dangles_of_definitions (p := s.program a.graph) hl.walks.built hl.walks.roots_lt
      hl.walks.covers hd
  exact ⟨roots', _, hw'.exists_links (h.symm.duplicateExternals hw'.built) (h.not_dangles hl.walks hw' hn)⟩

lemma mem_reachedNames_iff {a : Analysis} (h : s.Reordered t)
    (hw : s.Walks e a.graph roots (.ok a.reached, a.loader)) {unit x : String} :
    (unit, x) ∈ a.reachedNames ↔
      ∃ u d, Kept s.units s.options.extraRoots u d ∧ u.name = unit ∧ d.name = x := by
  rw [hw.mem_reachedNames_iff]
  constructor
  · rintro ⟨i, u, d, hst, hreach, hnames⟩
    exact ⟨u, d, (h.reaches_iff_kept hw hst).mp hreach, hnames⟩
  · rintro ⟨u, d, hk, hnames⟩
    obtain ⟨i, hst⟩ := Graph.exists_stands_of_mem hk.mem.1 hk.mem.2
    exact ⟨i, u, d, hst, (h.reaches_iff_kept hw hst).mpr hk, hnames⟩

lemma exists_analyzeBy (h : s.Reordered t) :
    (∃ a, ((analyzeBy e).run.run s).1 = .ok a) → ∃ b, ((analyzeBy f).run.run t).1 = .ok b := by
  rintro ⟨a, ha⟩
  obtain ⟨roots, hw⟩ := analyzeBy_eq_ok_iff.mp ha
  obtain ⟨g', roots', r', l', hw'⟩ := h.exists_walks (f := f) hw
  exact ⟨{ graph := g', loader := l', reached := r' }, analyzeBy_eq_ok_iff.mpr ⟨roots', hw'⟩⟩

lemma exists_runBy (h : s.Reordered t) :
    (∃ out, ((runBy e).run.run s).1 = .ok out) → ∃ out, ((runBy f).run.run t).1 = .ok out := by
  rintro ⟨out, ho⟩
  obtain ⟨roots, a, hl⟩ := runBy_eq_ok_iff.mp ho
  obtain ⟨roots', a', out', hl'⟩ := h.exists_links (f := f) hl
  exact ⟨out', runBy_eq_ok_iff.mpr ⟨roots', a', hl'⟩⟩

end Reordered

theorem order_is_irrelevant {s : Session} {units : List CompiledUnit} (hp : s.units.Perm units)
    (hn : (s.units.flatMap CompiledUnit.externals).Nodup)
    (hx : ∀ x ∈ s.options.extraRoots, x ∈ s.units.flatMap CompiledUnit.externals) (e f : Strategy) :
    ((∃ a, ((analyzeBy e).run.run s).1 = .ok a) ↔ ∃ b, ((analyzeBy f).run.run { s with units }).1 = .ok b) ∧
    (∀ a b, ((analyzeBy e).run.run s).1 = .ok a → ((analyzeBy f).run.run { s with units }).1 = .ok b →
      ∀ unit x, (unit, x) ∈ a.reachedNames ↔ (unit, x) ∈ b.reachedNames) ∧
    ((∃ out, ((runBy e).run.run s).1 = .ok out) ↔ ∃ out, ((runBy f).run.run { s with units }).1 = .ok out) ∧
    ∀ out out', ((runBy e).run.run s).1 = .ok out → ((runBy f).run.run { s with units }).1 = .ok out' →
      ∀ x, x ∈ out.linked.abiSurface ↔ x ∈ out'.linked.abiSurface := by
  have h : s.Reordered { s with units } := ⟨hp, rfl, rfl, hn, fun x hmem => List.mem_flatMap.mp (hx x hmem)⟩
  refine ⟨⟨h.exists_analyzeBy, h.symm.exists_analyzeBy⟩, ?_, ⟨h.exists_runBy, h.symm.exists_runBy⟩, ?_⟩
  · intro a b ha hb unit x
    obtain ⟨roots, hw⟩ := analyzeBy_eq_ok_iff.mp ha
    obtain ⟨roots', hw'⟩ := analyzeBy_eq_ok_iff.mp hb
    rw [h.mem_reachedNames_iff hw, h.symm.mem_reachedNames_iff hw']
    simp only [h.kept_iff]
  · intro out out' ho ho' x
    obtain ⟨roots, a, hl⟩ := runBy_eq_ok_iff.mp ho
    obtain ⟨roots', a', hl'⟩ := runBy_eq_ok_iff.mp ho'
    rw [hl.abiSurface_eq, hl'.abiSurface_eq]
    exact (hp.flatMap_right _).mem_iff

def forked : Session := { twins with options := { extraRoots := ["api"] } }

lemma forked_links (e : Strategy) : ∃ a out, forked.Links e [0, 3] a out := by
  have hr : ∀ id ∈ [0, 3], id < Linked.twins.graph.symbols.length := by decide
  obtain ⟨r, l, hw⟩ := @exists_walks forked e Linked.twins.graph [0, 3] (by decide) Linked.twins_build (by decide)
    fun id hid => (Linked.twins_outcome id
      (Graph.symbol_mem_nodes.mp ((Graph.build_bounded Linked.twins_build).reaches hr hid))).imp fun _ h => h.1
  exact ⟨_, hw.exists_links (by decide) (Linked.twins_not_dangles_of_mem (by decide) hw.covers)⟩

theorem order_is_irrelevant_forked :
    forked.units.Perm forked.units.reverse ∧ (forked.units.flatMap CompiledUnit.externals).Nodup ∧
      "api" ∈ forked.options.extraRoots ∧ "api" ∈ forked.units.flatMap CompiledUnit.externals ∧
      ∃ a b out out', (analyze.run.run forked).1 = .ok a ∧ (run.run.run forked).1 = .ok out ∧
        (analyze.run.run { forked with units := forked.units.reverse }).1 = .ok b ∧
        (run.run.run { forked with units := forked.units.reverse }).1 = .ok out' ∧
        ("lib", "step") ∈ a.reachedNames ∧ ("lib", "step") ∈ b.reachedNames ∧
        "main" ∈ out.linked.abiSurface ∧ "main" ∈ out'.linked.abiSurface := by
  obtain ⟨a, out, hl⟩ := forked_links .alone
  have hn : (forked.units.flatMap CompiledUnit.externals).Nodup := by decide
  obtain ⟨hanalyze, hkept, hrun, habi⟩ :=
    order_is_irrelevant (List.reverse_perm forked.units).symm hn (by decide) .alone .alone
  have ha : (analyze.run.run forked).1 = .ok a := analyzeBy_eq_ok_iff.mpr ⟨_, hl.walks⟩
  have ho : (run.run.run forked).1 = .ok out := runBy_eq_ok_iff.mpr ⟨_, a, hl⟩
  obtain ⟨b, hb⟩ := hanalyze.mp ⟨a, ha⟩
  obtain ⟨out', ho'⟩ := hrun.mp ⟨out, ho⟩
  have hmem : ("lib", "step") ∈ a.reachedNames := by
    have hg : Linked.twins.graph = a.graph := Except.ok.inj (Linked.twins_build.symm.trans hl.walks.built)
    have hreach : a.graph.Reaches [0, 3] (.symbol 4) := hg ▸ (Linked.twins_reaches 4 (by decide)).mono (by decide)
    refine List.mem_filterMap.mpr ⟨4, ?_, by rw [← hg]; rfl⟩
    exact Linked.Naming.mem_symbols_of_reaches hl.walks.built hl.walks.roots_lt hl.walks.covers hreach
  have hmain : "main" ∈ out.linked.abiSurface := by
    rw [hl.abiSurface_eq]
    decide
  exact ⟨(List.reverse_perm forked.units).symm, hn, by decide, by decide, a, b, out, out', ha, ho, hb, ho', hmem,
    (hkept a b ha hb "lib" "step").mp hmem, hmain, (habi out out' ho ho' "main").mp hmain⟩

end Session

end DeviceLink
