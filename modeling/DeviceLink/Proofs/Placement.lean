import DeviceLink.Segment
import Mathlib.Data.List.Nodup
import Mathlib.Data.List.Pairwise
import Mathlib.Tactic.Lemma
import Mathlib.Tactic.SplitIfs

/-! Segments are well placed if each of them is a stretch of addresses behind null that ends inside the window, and no
address is in two of them. -/

namespace DeviceLink

namespace Segment

variable {s t : Segment} {addr : UInt64}

structure Sound (s : Segment) : Prop where
  filled : 0 < s.size
  raised : 0 < s.base
  bounded : s.base.toNat + s.size.toNat < UInt64.size

lemma contains_iff :
    s.contains addr = true ↔ s.base.toNat ≤ addr.toNat ∧ addr.toNat < s.base.toNat + s.size.toNat := by
  simp only [contains, Bool.and_eq_true, decide_eq_true_eq, UInt64.le_iff_toNat_le, UInt64.lt_iff_toNat_lt]
  refine and_congr_right fun hle => ?_
  rw [UInt64.toNat_sub_of_le _ _ (UInt64.le_iff_toNat_le.mpr hle)]
  omega

lemma Sound.toNat_stop (h : s.Sound) : s.stop.toNat = s.base.toNat + s.size.toNat := by
  rw [stop, stop?, if_pos h.bounded, Option.getD_some, UInt64.toNat_add]
  exact Nat.mod_eq_of_lt h.bounded

lemma Sound.contains_base (h : s.Sound) : s.contains s.base = true := by
  have hsize := UInt64.lt_iff_toNat_lt.mp h.filled
  rw [UInt64.toNat_zero] at hsize
  apply contains_iff.mpr
  omega

lemma Sound.overlaps_iff (hs : s.Sound) (ht : t.Sound) :
    s.overlaps t = true ↔ ∃ addr, s.contains addr = true ∧ t.contains addr = true := by
  have hst : s.overlaps t = true ↔
      s.base.toNat < t.base.toNat + t.size.toNat ∧ t.base.toNat < s.base.toNat + s.size.toNat := by
    simp only [overlaps, Bool.and_eq_true, decide_eq_true_eq, UInt64.lt_iff_toNat_lt, hs.toNat_stop, ht.toNat_stop]
  rw [hst]
  constructor
  · rintro ⟨hlt, hgt⟩
    rcases Nat.le_total s.base.toNat t.base.toNat with hle | hle
    · exact ⟨t.base, contains_iff.mpr ⟨hle, hgt⟩, ht.contains_base⟩
    · exact ⟨s.base, hs.contains_base, contains_iff.mpr ⟨hle, hlt⟩⟩
  · rintro ⟨addr, hs, ht⟩
    rw [contains_iff] at hs ht
    omega

end Segment

namespace SegmentMap

variable {m : SegmentMap} {space : Space} {addr : UInt64}

lemma mem_placed_iff {p : Space × Segment} : p ∈ m.placed ↔ m.segment? p.1 = some p.2 := by
  obtain ⟨s, segment⟩ := p
  cases s <;> simp [placed, segment?, eq_comm]

lemma placed_nodup (m : SegmentMap) : m.placed.Nodup := by
  apply List.Nodup.of_map Prod.fst
  change Space.specifics.Nodup
  decide

lemma segmentFault?_eq_none_iff {p : Space × Segment} : segmentFault? p = none ↔ p.2.Sound := by
  have hzero (n : UInt64) : n = 0 ↔ n.toNat = 0 := UInt64.toNat_inj.symm
  have hstop : p.2.stop?.isNone = true ↔ ¬ p.2.base.toNat + p.2.size.toNat < UInt64.size := by
    simp [Segment.stop?, UInt64.size]
  have hnull : p.2.contains 0 = true ↔ p.2.base.toNat = 0 ∧ 0 < p.2.size.toNat := by
    rw [Segment.contains_iff, UInt64.toNat_zero]
    omega
  rw [segmentFault?]
  constructor
  · intro h
    split_ifs at h with hs hw hn
    rw [hzero] at hs
    rw [hstop, Classical.not_not] at hw
    rw [hnull] at hn
    refine ⟨UInt64.lt_iff_toNat_lt.mpr ?_, UInt64.lt_iff_toNat_lt.mpr ?_, hw⟩
    · rw [UInt64.toNat_zero]
      omega
    · rw [UInt64.toNat_zero]
      omega
  · rintro ⟨hs, hb, hw⟩
    rw [UInt64.lt_iff_toNat_lt, UInt64.toNat_zero] at hs hb
    rw [if_neg (by rw [hzero]; omega), if_neg (by rw [hstop]; omega), if_neg (by rw [hnull]; omega)]

lemma overlap?_eq_none_iff {ps : List (Space × Segment)} :
    overlap? ps = none ↔ ps.Pairwise fun p q => ¬ p.2.overlaps q.2 = true := by
  induction ps with
  | nil => simp [overlap?]
  | cons p rest ih =>
    rw [overlap?, Option.orElse_eq_orElse, Option.orElse_eq_or, Option.or_eq_none_iff, ih, List.pairwise_cons,
      overlapWith?, Option.map_eq_none_iff, List.find?_eq_none]

def Sound (m : SegmentMap) : Prop := ∀ ⦃space s⦄, m.segment? space = some s → s.Sound

def Apart (m : SegmentMap) : Prop :=
  ∀ ⦃space space' s s'⦄, m.segment? space = some s → m.segment? space' = some s' → space ≠ space' →
    ∀ addr, ¬ (s.contains addr = true ∧ s'.contains addr = true)

lemma Sound.pairwise_iff (h : m.Sound) :
    (m.placed.Pairwise fun p q => ¬ p.2.overlaps q.2 = true) ↔ m.Apart := by
  have hmeet {p q : Space × Segment} (hp : p ∈ m.placed) (hq : q ∈ m.placed) :=
    (h (mem_placed_iff.mp hp)).overlaps_iff (h (mem_placed_iff.mp hq))
  constructor
  · intro hpair space space' s s' hs hs' hne addr hboth
    have hp : (space, s) ∈ m.placed := mem_placed_iff.mpr hs
    have hq : (space', s') ∈ m.placed := mem_placed_iff.mpr hs'
    have hsymm : Std.Symm fun p q : Space × Segment => ¬ p.2.overlaps q.2 = true := by
      constructor
      intro p q hpq hqp
      apply hpq
      rw [Segment.overlaps, Bool.and_comm]
      exact hqp
    have hne' : (space, s) ≠ (space', s') := fun he => hne (congrArg Prod.fst he)
    exact hpair.forall hp hq hne' ((hmeet hp hq).mpr ⟨addr, hboth⟩)
  · intro hapart
    refine (placed_nodup m).pairwise_of_forall_ne fun p hp q hq hne ho => ?_
    obtain ⟨addr, hboth⟩ := (hmeet hp hq).mp ho
    have hp' := mem_placed_iff.mp hp
    have hq' := mem_placed_iff.mp hq
    -- a space has one segment, so different pairs are of different spaces
    have hspace : p.1 ≠ q.1 := by
      intro he
      rw [he, hq'] at hp'
      exact hne (Prod.ext he (Option.some.inj hp').symm)
    exact hapart hp' hq' hspace addr hboth

lemma fault?_eq_none_iff_sound_apart : m.fault? = none ↔ m.Sound ∧ m.Apart := by
  have hsound : m.placed.findSome? segmentFault? = none ↔ m.Sound := by
    simp only [List.findSome?_eq_none_iff, segmentFault?_eq_none_iff, Prod.forall, mem_placed_iff]
    rfl
  rw [fault?, Option.orElse_eq_orElse, Option.orElse_eq_or, Option.or_eq_none_iff, hsound, overlap?_eq_none_iff]
  exact and_congr_right fun h => h.pairwise_iff

lemma isIn_iff (hs : space ≠ .generic) :
    m.isIn addr space = true ↔ ∃ s, m.segment? space = some s ∧ s.contains addr = true := by
  cases space with
  | generic => exact absurd rfl hs
  | _ => simp [isIn, segment?]

lemma isIn_zero (hm : m.fault? = none) (hs : space ≠ .generic) : m.isIn 0 space = false := by
  rw [Bool.eq_false_iff, Ne, isIn_iff hs]
  rintro ⟨s, hseg, hc⟩
  have hbase := UInt64.lt_iff_toNat_lt.mp ((fault?_eq_none_iff_sound_apart.mp hm).1 hseg).raised
  exact Nat.not_le.mpr hbase (Segment.contains_iff.mp hc).1

lemma space_unique (hm : m.fault? = none) {space' : Space} (hs : space ≠ .generic) (hs' : space' ≠ .generic)
    (h : m.isIn addr space = true) (h' : m.isIn addr space' = true) : space = space' := by
  obtain ⟨s, hseg, hc⟩ := (isIn_iff hs).mp h
  obtain ⟨s', hseg', hc'⟩ := (isIn_iff hs').mp h'
  by_contra hne
  exact (fault?_eq_none_iff_sound_apart.mp hm).2 hseg hseg' hne addr ⟨hc, hc'⟩

lemma mem_specifics : space ∈ Space.specifics ↔ space ≠ .generic := by
  cases space <;> decide

lemma spaceOf?_eq_some_iff (hm : m.fault? = none) :
    m.spaceOf? addr = some space ↔ space ≠ .generic ∧ m.isIn addr space = true := by
  constructor
  · intro h
    exact ⟨mem_specifics.mp (List.mem_of_find?_eq_some h), List.find?_some h⟩
  · rintro ⟨hs, h⟩
    obtain ⟨first, hfirst⟩ : ∃ first, m.spaceOf? addr = some first := by
      apply Option.isSome_iff_exists.mp
      exact List.find?_isSome.mpr ⟨space, mem_specifics.mpr hs, h⟩
    have hne := mem_specifics.mp (List.mem_of_find?_eq_some hfirst)
    rw [hfirst, space_unique hm hne hs (List.find?_some hfirst) h]

theorem placement_is_exact (m : SegmentMap) :
    (m.fault? = none ↔
      (∀ space s, m.segment? space = some s →
        0 < s.size ∧ 0 < s.base ∧ s.base.toNat + s.size.toNat < UInt64.size) ∧
      ∀ space space' s s', m.segment? space = some s → m.segment? space' = some s' → space ≠ space' →
        ∀ addr, ¬ (s.contains addr = true ∧ s'.contains addr = true)) ∧
    (m.fault? = none →
      (∀ addr space space', space ≠ .generic → space' ≠ .generic → m.isIn addr space = true →
        m.isIn addr space' = true → space = space') ∧
      (∀ space, space ≠ .generic → m.isIn 0 space = false) ∧
      ∀ addr space, m.spaceOf? addr = some space ↔ space ≠ .generic ∧ m.isIn addr space = true) := by
  constructor
  · rw [fault?_eq_none_iff_sound_apart]
    refine and_congr_left' ⟨fun h space s hs => ?_, fun h space s hs => ?_⟩
    · exact ⟨(h hs).filled, (h hs).raised, (h hs).bounded⟩
    · obtain ⟨hsize, hbase, hstop⟩ := h space s hs
      exact ⟨hsize, hbase, hstop⟩
  · intro hm
    refine ⟨fun addr space space' => space_unique hm, fun space => isIn_zero hm, fun addr space => ?_⟩
    exact spaceOf?_eq_some_iff hm

def brink : SegmentMap where
  global := ⟨1, 0xff⟩
  shared := ⟨0x100, 1⟩
  constant := ⟨0x101, 0xeff⟩
  threadLocal := ⟨0xfffffffffffff000, 0xfff⟩

theorem placement_is_exact_brink :
    brink.fault? = none ∧ brink.spaceOf? 0xff = some .global ∧ brink.spaceOf? 0x100 = some .shared ∧
      brink.spaceOf? 0xfffffffffffffffe = some .threadLocal ∧ brink.isIn 0 .global = false := by
  have hm : brink.fault? = none := by decide
  obtain ⟨_, hnull, hfound⟩ := (placement_is_exact brink).2 hm
  refine ⟨hm, (hfound _ _).mpr ⟨?_, ?_⟩, (hfound _ _).mpr ⟨?_, ?_⟩, (hfound _ _).mpr ⟨?_, ?_⟩, hnull _ ?_⟩ <;> decide

end SegmentMap

end DeviceLink
