import DeviceLink.Proofs.Fallible
import DeviceLink.Proofs.Placement
import Mathlib.Data.Set.Function

namespace DeviceLink

namespace Segment

variable {s : Segment} {addr offset : UInt64}

lemma Sound.toNat_base_add (h : s.Sound) (ho : offset < s.size) :
    (s.base + offset).toNat = s.base.toNat + offset.toNat := by
  have hlt := UInt64.lt_iff_toNat_lt.mp ho
  have hbound : s.base.toNat + offset.toNat < UInt64.size := Nat.lt_trans (by omega) h.bounded
  rw [UInt64.toNat_add]
  exact Nat.mod_eq_of_lt hbound

lemma Sound.contains_base_add (h : s.Sound) (ho : offset < s.size) : s.contains (s.base + offset) = true := by
  have hlt := UInt64.lt_iff_toNat_lt.mp ho
  rw [contains_iff, h.toNat_base_add ho]
  omega

lemma sub_base_lt_size (h : s.contains addr = true) : addr - s.base < s.size := by
  simp only [contains, Bool.and_eq_true, decide_eq_true_eq] at h
  exact h.2

lemma base_add_sub_base (s : Segment) (addr : UInt64) : s.base + (addr - s.base) = addr := by
  rw [UInt64.add_comm, UInt64.sub_add_cancel]

lemma base_add_sub_cancel (s : Segment) (offset : UInt64) : s.base + offset - s.base = offset := by
  rw [UInt64.add_comm, UInt64.add_sub_cancel]

end Segment

namespace SegmentMap

variable {m : SegmentMap} {space : Space} {s : Segment} {addr offset : UInt64} {p : Pointer}

lemma exists_segment? (m : SegmentMap) (hspace : space ≠ .generic) : ∃ s, m.segment? space = some s := by
  cases space with
  | generic => exact absurd rfl hspace
  | _ => exact ⟨_, rfl⟩

section Segments

variable (hs : m.segment? space = some s)
include hs

lemma isIn_eq_contains (addr : UInt64) : m.isIn addr space = s.contains addr := by
  simp only [isIn, hs]

lemma pointer_eq_ok_iff : m.pointer space offset = .ok p ↔ offset < s.size ∧ p = ⟨space, offset⟩ := by
  simp only [pointer, hs, Fallible.ite_eq_ok_iff]

lemma toPointer_eq_ok_iff : m.toPointer addr space = .ok p ↔ s.contains addr = true ∧ p = ⟨space, addr - s.base⟩ := by
  simp only [toPointer, hs, Fallible.ite_eq_ok_iff]

lemma toAddress_eq_add (offset : UInt64) : m.toAddress ⟨space, offset⟩ = s.base + offset := by
  simp only [toAddress, hs]

lemma bijOn_toAddress (hsound : s.Sound) :
    Set.BijOn (fun offset => m.toAddress ⟨space, offset⟩) {offset | offset < s.size}
      {addr | m.isIn addr space = true} := by
  simp only [toAddress_eq_add hs, isIn_eq_contains hs]
  have hinv : Set.InvOn (· - s.base) (s.base + ·) {offset | offset < s.size} {addr | s.contains addr = true} :=
    ⟨fun offset _ => s.base_add_sub_cancel offset, fun addr _ => s.base_add_sub_base addr⟩
  exact hinv.bijOn (fun _ => hsound.contains_base_add) fun _ => Segment.sub_base_lt_size

end Segments

theorem conversion_is_bijective {m : SegmentMap} (hm : m.fault? = none) {space : Space} (hspace : space ≠ .generic) :
    ∃ s, m.segment? space = some s ∧
      Set.BijOn (fun offset => m.toAddress ⟨space, offset⟩) {offset | offset < s.size}
        {addr | m.isIn addr space = true} ∧
      (∀ addr,
        ((∃ p, m.toPointer addr space = .ok p) ↔ m.isIn addr space = true) ∧
        ∀ p, m.toPointer addr space = .ok p →
          s.base.toNat + p.offset.toNat = addr.toNat ∧ m.toAddress p = addr) ∧
      ∀ offset,
        ((∃ p, m.pointer space offset = .ok p) ↔ offset < s.size) ∧
        ∀ p, m.pointer space offset = .ok p →
          s.base.toNat + offset.toNat < UInt64.size ∧
          (m.toAddress p).toNat = s.base.toNat + offset.toNat ∧
          (∀ space', space' ≠ .generic → (m.isIn (m.toAddress p) space' = true ↔ space' = space)) ∧
          m.toPointer (m.toAddress p) space = .ok p := by
  obtain ⟨s, hs⟩ := exists_segment? m hspace
  have hsound : s.Sound := (fault?_eq_none_iff_sound_apart.mp hm).1 hs
  have hin (addr : UInt64) := isIn_eq_contains hs addr
  refine ⟨s, hs, bijOn_toAddress hs hsound, fun addr => ⟨?_, fun p hp => ?_⟩, fun offset => ⟨?_, fun p hp => ?_⟩⟩
  · simp only [hin, toPointer_eq_ok_iff hs, exists_and_left, exists_eq, and_true]
  · obtain ⟨hc, rfl⟩ := (toPointer_eq_ok_iff hs).mp hp
    rw [toAddress_eq_add hs, ← hsound.toNat_base_add (Segment.sub_base_lt_size hc), s.base_add_sub_base]
    exact ⟨rfl, rfl⟩
  · simp only [pointer_eq_ok_iff hs, exists_and_left, exists_eq, and_true]
  · obtain ⟨ho, rfl⟩ := (pointer_eq_ok_iff hs).mp hp
    have hc := hsound.contains_base_add ho
    have hadd := hsound.toNat_base_add ho
    rw [toAddress_eq_add hs]
    refine ⟨?_, hadd, fun space' hspace' => ⟨fun h => ?_, ?_⟩, (toPointer_eq_ok_iff hs).mpr ⟨hc, ?_⟩⟩
    · rw [← hadd]
      exact (s.base + offset).toNat_lt_size
    · exact space_unique hm hspace' hspace h ((hin _).trans hc)
    · rintro rfl
      exact (hin _).trans hc
    · rw [s.base_add_sub_cancel]

theorem conversion_is_bijective_brink :
    brink.fault? = none ∧ brink.toPointer 0xfffffffffffffffe .threadLocal = .ok ⟨.threadLocal, 0xffe⟩ ∧
      brink.toAddress ⟨.threadLocal, 0xffe⟩ = 0xfffffffffffffffe ∧
      ¬ ∃ p, brink.pointer .threadLocal 0xfff = .ok p := by
  have hm : brink.fault? = none := by decide
  have hp : brink.toPointer 0xfffffffffffffffe .threadLocal = .ok ⟨.threadLocal, 0xffe⟩ := by decide
  obtain ⟨s, hs, _, hback, hoffset⟩ := @conversion_is_bijective brink hm .threadLocal (by decide)
  refine ⟨hm, hp, ((hback _).2 _ hp).2, fun h => ?_⟩
  cases hs
  exact absurd ((hoffset _).1.mp h) (by decide)

end SegmentMap

end DeviceLink
