import DeviceLink.Workers
import DeviceLink.Proofs.Walk
import Mathlib.Algebra.Order.BigOperators.Group.List
import Mathlib.Algebra.Order.Ring.Nat

/-! Workers that share a walk find what one worker alone finds, in whatever order they take turns. -/

namespace DeviceLink.Workers

variable {p : Program} {roots : List SymbolId} {s t : Workers} {n : Node} {l : Option Node}

def claimed (s : Workers) : List Node := s.spawned ++ s.entered

def Inv (p : Program) (roots : List SymbolId) (s : Workers) : Prop :=
  Walk.Inv p roots s.shared s.running.flatten s.claimed

lemma start_inv (p : Program) (roots : List SymbolId) : Inv p roots (.start p roots) := by
  simpa [Inv, start, claimed] using Walk.Inv.start p roots

lemma spawned_perm {before after : List Node} (hs : s.spawned = before ++ n :: after) :
    s.claimed.Perm (n :: claimed { s with spawned := before ++ after }) := by
  simp only [claimed, hs, List.append_assoc, List.cons_append]
  exact List.perm_middle

lemma entered_perm {before after : List Node} (hs : s.entered = before ++ n :: after) :
    s.claimed.Perm (n :: claimed { s with entered := before ++ after }) := by
  simp only [claimed, hs, ← List.append_assoc]
  exact List.perm_middle

lemma running_perm {before after : List (List Node)} {rest : List Node}
    (hs : s.running = before ++ (n :: rest) :: after) :
    s.running.flatten.Perm (n :: (before ++ rest :: after).flatten) := by
  simp only [hs, List.flatten_append, List.flatten_cons, List.cons_append]
  exact List.perm_middle

lemma settle_inv (h : Walk.Inv p roots s.shared s.running.flatten (n :: s.claimed)) :
    (s.settle p n).Inv p roots := by
  simpa only [Inv, settle, claimed, List.flatten_cons] using h.process

lemma offer_inv (h : Walk.Inv p roots s.shared (n :: s.running.flatten) s.claimed) :
    (s.offer n).Inv p roots := by
  have hrest : ∀ m ∈ s.running.flatten, p.graph.Reaches roots m :=
    fun m hm => h.found (List.mem_cons_of_mem _ hm)
  unfold offer
  split
  · rename_i hn
    refine h.exchange hrest (fun hc m hm => ?_)
    rcases List.mem_cons.mp hm with rfl | hm
    · exact .inl (by simpa [hc] using hn)
    · exact .inr hm
  · rename_i hn
    have hfree : n ∉ s.shared.marks.nodes := fun hm => hn (by simp [hm])
    refine (h.claim (h.found List.mem_cons_self) hfree).exchange hrest (fun _ m hm => ?_)
    rcases List.mem_cons.mp hm with rfl | hm
    · exact .inl (by simp [Walk.claim_marks _ (Marks.contains_eq_false.mpr hfree)])
    · exact .inr hm

lemma step_inv (h : s.Inv p roots) (hs : Step p s l t) : t.Inv p roots := by
  cases hs with
  | drop hs hc => exact (h.perm (spawned_perm hs)).drop hc
  | start hs _ => exact settle_inv (h.perm (spawned_perm hs))
  | enter hs _ =>
    refine h.perm ((spawned_perm hs).trans ?_)
    simp only [claimed]
    exact List.perm_middle.symm
  | resume hs => exact settle_inv (h.perm (entered_perm hs))
  | advance hs =>
    have hp := running_perm hs
    apply offer_inv
    exact h.exchange (fun m hm => h.found (hp.mem_iff.mpr hm)) (fun _ m hm => .inr (hp.mem_iff.mp hm))
  | finish hs =>
    have hf := congrArg List.flatten hs
    rw [List.flatten_append, List.flatten_cons, List.nil_append, ← List.flatten_append] at hf
    unfold Inv at h ⊢
    rwa [hf] at h

lemma run_inv {visited : List Node} (h : s.Inv p roots) (hr : Run p s visited t) : t.Inv p roots := by
  induction hr with
  | refl => exact h
  | tail _ hs ih => exact step_inv ih hs

lemma step_claimed (hs : Step p s l t) :
    (t.shared.marks = s.shared.marks ∧ ∃ dropped, s.claimed.Perm (l.toList ++ (dropped ++ t.claimed))) ∨
    (l = none ∧ ∃ n ∉ s.shared.marks.nodes,
      t.shared.marks.nodes = n :: s.shared.marks.nodes ∧ t.claimed = n :: s.claimed) := by
  cases hs with
  | drop hs _ => exact .inl ⟨rfl, [_], spawned_perm hs⟩
  | start hs _ => exact .inl ⟨Walk.process_marks _ _ _, [], spawned_perm hs⟩
  | enter hs _ =>
    refine .inl ⟨rfl, [], (spawned_perm hs).trans ?_⟩
    simp only [claimed, Option.toList_none, List.nil_append]
    exact List.perm_middle.symm
  | resume hs => exact .inl ⟨Walk.process_marks _ _ _, [], entered_perm hs⟩
  | @advance before after n rest hs =>
    unfold offer
    split
    · exact .inl ⟨rfl, [], .refl _⟩
    · rename_i hn
      have hfree : n ∉ s.shared.marks.nodes := fun hm => hn (by simp [hm])
      refine .inr ⟨rfl, n, hfree, ?_, rfl⟩
      rw [Walk.claim_marks _ (Marks.contains_eq_false.mpr hfree)]
  | finish hs => exact .inl ⟨rfl, [], .refl _⟩

lemma run_visited {visited : List Node} (h : s.Inv p roots) (hr : Run p s visited t) :
    visited.Nodup ∧ ∀ n ∈ visited, n ∈ t.shared.marks.nodes ∧ n ∉ t.claimed := by
  induction hr with
  | refl => simp
  | @tail t u visited l hr hs ih =>
    obtain ⟨hn, hv⟩ := ih
    have ht := run_inv h hr
    rcases step_claimed hs with ⟨hm, dropped, hp⟩ | ⟨rfl, n, hfree, hm, hc⟩
    · have hsub : ∀ m, m ∈ l.toList ∨ m ∈ u.claimed → m ∈ t.claimed := fun m hmem =>
        hp.mem_iff.mpr (by simp only [List.mem_append]; tauto)
      have hd := List.nodup_append.mp (hp.nodup_iff.mp ht.nodup)
      refine ⟨List.nodup_append.mpr ⟨hd.1, hn, ?_⟩, ?_⟩
      · rintro a ha b hb rfl
        exact (hv a hb).2 (hsub a (.inl ha))
      · intro m hmem
        rw [hm]
        rcases List.mem_append.mp hmem with hmem | hmem
        · exact ⟨ht.marked (hsub m (.inl hmem)), fun hc =>
            hd.2.2 m hmem m (List.mem_append_right _ hc) rfl⟩
        · exact ⟨(hv m hmem).1, fun hc => (hv m hmem).2 (hsub m (.inr hc))⟩
    · refine ⟨hn, fun m hmem => ?_⟩
      obtain ⟨hmark, hnc⟩ := hv m hmem
      rw [hm, hc, List.mem_cons, List.mem_cons, not_or]
      exact ⟨.inr hmark, fun he => hfree (he ▸ hmark), hnc⟩

lemma Run.trans {u : Workers} {xs ys : List Node} (h : Run p s xs t) (h' : Run p t ys u) :
    Run p s (ys ++ xs) u := by
  induction h' with
  | refl => exact h
  | tail _ hs ih => exact List.append_assoc .. ▸ ih.tail hs

section Progress

def weight (p : Program) (n : Node) : Nat := (p.graph.successors n).length + 3

/-- A bound on the steps that are left. -/
def remaining (p : Program) (s : Workers) : Nat :=
  ((s.shared.free p).map fun n => weight p n + 1).sum + (s.spawned.map (weight p)).sum +
    (s.entered.map fun n => weight p n - 1).sum + (s.running.map fun rest => rest.length + 1).sum

lemma length_process_le (w : Walk) (p : Program) (n : Node) :
    (w.process p n).1.length + 3 ≤ weight p n := by
  unfold Walk.process Walk.visit
  cases n with
  | dispatch i => exact Nat.le_refl _
  | symbol id =>
    dsimp only
    split
    · rename_i hv
      split at hv
      · cases hv
      · split at hv <;> cases hv
        exact Nat.le_refl _
    · exact Nat.le_add_left _ _

lemma sum_filter_ne_le {nodes : List Node} (f : Node → Nat) (hn : n ∈ nodes) :
    ((nodes.filter (· ≠ n)).map f).sum + f n ≤ (nodes.map f).sum := by
  induction nodes with
  | nil => cases hn
  | cons m rest ih =>
    by_cases hm : m = n
    · have hle : ((rest.filter (· ≠ n)).map f).sum ≤ (rest.map f).sum :=
        (List.filter_sublist.map f).sum_le_sum (by simp)
      simp [hm] at hle ⊢
      omega
    · have hle := ih ((List.mem_cons.mp hn).resolve_left (Ne.symm hm))
      simp [hm] at hle ⊢
      omega

lemma sum_free_claim_le {w : Walk} (f : Node → Nat) (hn : n ∈ p.graph.nodes) (hfree : n ∉ w.marks.nodes) :
    (((w.claim n).free p).map f).sum + f n ≤ ((w.free p).map f).sum := by
  rw [Walk.free_claim w p (Marks.contains_eq_false.mpr hfree)]
  exact sum_filter_ne_le f (List.mem_filter.mpr ⟨hn, by simpa using hfree⟩)

lemma remaining_settle (s : Workers) (p : Program) (n : Node) :
    (s.settle p n).remaining p + 2 ≤ s.remaining p + weight p n := by
  have hfree : (s.settle p n).shared.free p = s.shared.free p := by
    simp only [Walk.free, settle, Walk.process_marks]
  have hlen := length_process_le s.shared p n
  simp only [remaining, hfree]
  simp only [settle, List.map_cons, List.sum_cons]
  omega

lemma remaining_offer (s : Workers) (hn : n ∈ p.graph.nodes) : (s.offer n).remaining p ≤ s.remaining p := by
  unfold offer
  split
  · exact Nat.le_refl _
  · rename_i hc
    have hfree : n ∉ s.shared.marks.nodes := fun hm => hc (by simp [hm])
    have hle := sum_free_claim_le (fun n => weight p n + 1) hn hfree
    simp only [remaining, List.map_cons, List.sum_cons] at hle ⊢
    omega

lemma step_remaining (hg : p.graph.Bounded) (hr : ∀ id ∈ roots, id < p.graph.symbols.length)
    (h : s.Inv p roots) (hs : Step p s l t) : t.remaining p < s.remaining p := by
  have hw (n : Node) : 3 ≤ weight p n := Nat.le_add_left _ _
  cases hs with
  | @drop before after n hs _ =>
    have := hw n
    simp only [remaining, hs, List.map_append, List.map_cons, List.sum_append, List.sum_cons]
    omega
  | @start before after n hs _ =>
    have hle := remaining_settle { s with spawned := before ++ after } p n
    have := hw n
    simp only [remaining, hs, List.map_append, List.map_cons, List.sum_append, List.sum_cons] at hle ⊢
    omega
  | @enter before after n hs _ =>
    have := hw n
    simp only [remaining, hs, List.map_append, List.map_cons, List.sum_append, List.sum_cons]
    omega
  | @resume before after n hs =>
    have hle := remaining_settle { s with entered := before ++ after } p n
    have := hw n
    simp only [remaining, hs, List.map_append, List.map_cons, List.sum_append, List.sum_cons] at hle ⊢
    omega
  | @advance before after n rest hs =>
    have hn : n ∈ p.graph.nodes := hg.reaches hr (h.found ((running_perm hs).mem_iff.mpr List.mem_cons_self))
    have hle := remaining_offer { s with running := before ++ rest :: after } hn
    simp only [remaining, hs, List.map_append, List.map_cons, List.sum_append, List.sum_cons,
      List.length_cons] at hle ⊢
    omega
  | finish hs =>
    simp only [remaining, hs, List.map_append, List.map_cons, List.sum_append, List.sum_cons, List.length_nil]
    omega

lemma exists_step (hi : ¬ s.Idle) : ∃ l t, Step p s l t := by
  cases hs : s.spawned with
  | cons n rest =>
    cases hc : s.shared.cancelled with
    | true => exact ⟨_, _, @Step.drop p s [] rest n hs hc⟩
    | false => exact ⟨_, _, @Step.start p s [] rest n hs hc⟩
  | nil =>
    cases he : s.entered with
    | cons n rest => exact ⟨_, _, @Step.resume p s [] rest n he⟩
    | nil =>
      cases hr : s.running with
      | nil => exact (hi ⟨hs, he, hr⟩).elim
      | cons rest others =>
        cases rest with
        | nil => exact ⟨_, _, @Step.finish p s [] others hr⟩
        | cons n rest => exact ⟨_, _, @Step.advance p s [] others n rest hr⟩

lemma exists_run_idle (hg : p.graph.Bounded) (hr : ∀ id ∈ roots, id < p.graph.symbols.length)
    (h : s.Inv p roots) : ∃ visited t, Run p s visited t ∧ t.Idle := by
  induction hk : s.remaining p using Nat.strong_induction_on generalizing s with
  | _ k ih =>
    by_cases hi : s.Idle
    · exact ⟨[], s, .refl s, hi⟩
    · obtain ⟨l, t, hs⟩ := exists_step (p := p) hi
      obtain ⟨visited, u, hu, hidle⟩ := ih _ (hk ▸ step_remaining hg hr h hs) (step_inv h hs) rfl
      exact ⟨_, u, (Run.tail (.refl s) hs).trans hu, hidle⟩

end Progress

lemma idle_inv (h : s.Inv p roots) (hi : s.Idle) : Walk.Inv p roots s.shared [] [] := by
  obtain ⟨hs, he, hr⟩ := hi
  simpa [Inv, claimed, hs, he, hr] using h

lemma processedTwice_notMem_faults (hg : p.graph.Bounded) (hr : ∀ id ∈ roots, id < p.graph.symbols.length)
    (h : s.Inv p roots) (name : String) : .internal (.processedTwice name) ∉ s.shared.faults := by
  intro he
  obtain ⟨id, hid, ho⟩ := h.fault he
  exact Program.outcome_ne_internal hg (Graph.symbol_mem_nodes.mp (hg.reaches hr hid)) _ ho

theorem run_agrees_explore {units : List CompiledUnit} (hg : Graph.build units = .ok p.graph)
    (hr : ∀ id ∈ roots, id < p.graph.symbols.length) {visited : List Node}
    (hrun : Run p (.start p roots) visited s) :
    visited.Nodup ∧ (∀ name, .internal (.processedTwice name) ∉ s.shared.faults) ∧
    (∃ visited t, Run p s visited t ∧ t.Idle) ∧
    (s.Idle →
      ((∀ id, p.graph.Reaches roots (.symbol id) → ∃ b, (p.materialize p.loader id).1 = .ok b) →
        s.shared.faults = [] ∧ ∃ r, (p.explore roots).1 = .ok r ∧
          (∀ n, s.shared.marks.contains n = r.marks.contains n) ∧
          (∀ id, s.shared.body? id = r.body? id)) ∧
      ((∃ id e, p.graph.Reaches roots (.symbol id) ∧ (p.materialize p.loader id).1 = .error e) →
        s.shared.faults ≠ [] ∧
          ∀ e ∈ s.shared.faults,
            ∃ id, p.graph.Reaches roots (.symbol id) ∧ (p.materialize p.loader id).1 = .error e)) := by
  have hb := Graph.build_bounded hg
  have hinv := run_inv (start_inv p roots) hrun
  refine ⟨(run_visited (start_inv p roots) hrun).1, processedTwice_notMem_faults hb hr hinv,
    exists_run_idle hb hr hinv, fun hi => ?_⟩
  have hs := idle_inv hinv hi
  refine ⟨fun hok => ?_, ?_⟩
  · have hc := hs.cancelled_eq_false_iff.mpr hok
    have hw := Program.walk_inv hb hr
    have hwc := hw.cancelled_eq_false_iff.mpr hok
    refine ⟨by simpa [hc] using hs.stopped, _, hw.finish_eq_ok_iff.mpr ⟨hwc, rfl⟩, fun n => ?_, fun id => ?_⟩
    · rw [Bool.eq_iff_iff, Marks.contains_eq_true, Marks.contains_eq_true]
      exact (hs.mem_marks_iff hc).trans (hw.mem_marks_iff hwc).symm
    · ext b
      exact (hs.body?_eq_some_iff hc).trans (hw.body?_eq_some_iff hwc).symm
  · rintro ⟨id, e, hid, he⟩
    refine ⟨hs.stopped.mp ?_, fun _ => hs.fault⟩
    by_contra hc
    obtain ⟨b, hb⟩ := hs.cancelled_eq_false_iff.mp (Bool.not_eq_true _ ▸ hc) id hid
    cases hb.symm.trans he

open Program in
theorem run_agrees_explore_ring :
    Graph.build [.describe ringCode .program] = .ok ring.graph ∧
      (∀ id ∈ [0], id < ring.graph.symbols.length) ∧
      ∃ visited s, Run ring (.start ring [0]) visited s ∧ s.Idle ∧ visited.Nodup ∧
        s.shared.faults = [] ∧ s.shared.marks.contains (.dispatch 0) = true := by
  have hr : ∀ id ∈ [0], id < ring.graph.symbols.length := by decide
  have hb := Graph.build_bounded ring_build
  obtain ⟨visited, s, hrun, hi⟩ := exists_run_idle hb hr (start_inv ring [0])
  obtain ⟨hn, _, _, hend⟩ := run_agrees_explore ring_build hr hrun
  obtain ⟨hf, r, hx, hm, _⟩ := (hend hi).1 fun id hid =>
    ring_outcome id (Graph.symbol_mem_nodes.mp (hb.reaches hr hid))
  have h0 : ring.graph.Reaches [0] (.symbol 0) := .root (by decide)
  refine ⟨ring_build, hr, visited, s, hrun, hi, hn, hf, ?_⟩
  rw [hm]
  exact ((walk_inv hb hr).covers hx).marks.mpr (.step h0 (by decide))

end DeviceLink.Workers

namespace DeviceLink

variable {p : Program} {P : Walk → Prop}

lemma Walk.mem_claim (w : Walk) (n : Node) : n ∈ (w.claim n).marks.nodes := by
  by_cases h : n ∈ w.marks.nodes <;> simp [claim, Marks.mark, Marks.contains, h]

section Induction

variable (hclaim : ∀ {w n}, P w → P (w.claim n)) (hprocess : ∀ {w n}, n ∈ w.marks.nodes → P w → P (w.process p n).2)

include hclaim hprocess

lemma Walk.run_keeps {w : Walk} {work : List Node} (h : P w) : P (Walk.run p w work) := by
  fun_induction Walk.run p w work with
  | case1 | case2 => exact h
  | case3 w n rest hc hn _ next ih => exact ih (hprocess (w.mem_claim n) (hclaim h))
  | case4 w n rest hc hn ih => exact ih h

lemma Workers.step_keeps {roots : List SymbolId} {s t : Workers} {l : Option Node} (hi : s.Inv p roots)
    (hs : Step p s l t) (h : P s.shared) : P t.shared := by
  cases hs with
  | drop | enter | finish => exact h
  | start hs _ => exact hprocess (hi.marked ((spawned_perm hs).mem_iff.mpr List.mem_cons_self)) h
  | resume hs => exact hprocess (hi.marked ((entered_perm hs).mem_iff.mpr List.mem_cons_self)) h
  | advance hs =>
    unfold offer
    split
    · exact h
    · exact hclaim h

lemma Workers.run_keeps {roots : List SymbolId} {s t : Workers} {visited : List Node} (hi : s.Inv p roots)
    (hr : Run p s visited t) (h : P s.shared) : P t.shared := by
  induction hr with
  | refl => exact h
  | tail hr hs ih => exact step_keeps hclaim hprocess (run_inv hi hr) hs ih

lemma Program.Explores.exists_walk {roots : List SymbolId} {x : Except Walk.Failure Reached × Loader}
    (hg : p.graph.Bounded) (hr : ∀ id ∈ roots, id < p.graph.symbols.length) (hx : p.Explores roots x)
    (h : P { loader := p.loader }) :
    ∃ w, x = (w.finish roots, w.loader) ∧ Walk.Inv p roots w [] [] ∧ P w := by
  cases hx with
  | alone => exact ⟨p.walk roots, rfl, walk_inv hg hr, Walk.run_keeps hclaim hprocess h⟩
  | @shared visited s hrun hidle =>
    have hi := Workers.start_inv p roots
    exact ⟨s.shared, rfl, Workers.idle_inv (Workers.run_inv hi hrun) hidle,
      Workers.run_keeps hclaim hprocess hi hrun h⟩

end Induction

namespace Program

variable {roots : List SymbolId} (hg : p.graph.Bounded) (hr : ∀ id ∈ roots, id < p.graph.symbols.length)

include hg hr

lemma Explores.exists_inv {x : Except Walk.Failure Reached × Loader} (hx : p.Explores roots x) :
    ∃ w, x = (w.finish roots, w.loader) ∧ Walk.Inv p roots w [] [] := by
  obtain ⟨w, hw, hi, _⟩ := hx.exists_walk (P := fun _ => True) (fun _ => trivial) (fun _ _ => trivial) hg hr trivial
  exact ⟨w, hw, hi⟩

lemma Finds.covers {r : Reached} (h : p.Finds roots r) : p.Covers roots r := by
  obtain ⟨l, hx⟩ := h
  obtain ⟨w, hw, hi⟩ := hx.exists_inv hg hr
  exact hi.covers (congrArg Prod.fst hw).symm

end Program

end DeviceLink
