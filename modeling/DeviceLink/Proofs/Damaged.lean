import DeviceLink.Proofs.Container
import DeviceLink.Proofs.Json.Ending
import Mathlib.Data.List.Infix

namespace DeviceLink.Container

variable {v : Version} {b : Bytes} {m : Ir.Module}

lemma take_header (v : Version) : (header v).take 4 = magic := rfl

lemma decode_of_prefix_header (h : b <+: header v) (hlt : b.length < 8) : decode b = .error (.truncated b.length) := by
  have hm : (b.take 4).isPrefixOf magic = true := by
    rw [List.isPrefixOf_iff_prefix, ← take_header v]
    exact List.IsPrefix.take h 4
  rw [decode, unwrap, if_pos hlt, if_pos hm]
  rfl

lemma decode_wrap_of_none {payload : Bytes} (hv : ¬ v < .oldest) (h : readModule payload = none) :
    decode (wrap v payload) = .error .payload := by
  rw [decode_wrap, if_neg hv, h]
  rfl

lemma closed_toJson (m : Ir.Module) : m.toJson.Closed := trivial

lemma readModule_of_append_eq {s t : Bytes} (h : s ++ t = m.toJson.compact) (ht : t ≠ []) : readModule s = none := by
  rw [readModule, Json.parse_of_append_eq (closed_toJson m) h ht]
  rfl

lemma readModule_compact_append (m : Ir.Module) (t : Bytes) :
    readModule (m.toJson.compact ++ t) = if Json.skipBlanks t = [] then readModule m.toJson.compact else none := by
  rw [readModule, readModule, Json.parse_compact_append (closed_toJson m), Json.parse_compact]
  split <;> rfl

lemma skipBlanks_eq_nil_iff {t : Bytes} : Json.skipBlanks t = [] ↔ t ⊆ [0x20, 0x09, 0x0a, 0x0d] := by
  refine List.dropWhile_eq_nil_iff.trans (forall₂_congr fun c _ => ?_)
  simp [Json.isBlank, or_assoc]

lemma decode_of_append_eq (hv : ¬ v < .oldest) {t : Bytes} (h : b ++ t = encode v m) (ht : t ≠ []) :
    decode b = if b.length < 8 then .error (.truncated b.length) else .error .payload := by
  have hb : b <+: header v ++ m.toJson.compact := ⟨t, h⟩
  have hh : header v <+: header v ++ m.toJson.compact := List.prefix_append _ _
  split
  · rename_i hlt
    have hbh : b <+: header v := List.prefix_of_prefix_length_le hb hh (Nat.le_of_lt hlt)
    exact decode_of_prefix_header hbh hlt
  · rename_i hge
    obtain ⟨payload, rfl⟩ := List.prefix_of_prefix_length_le hh hb (Nat.not_lt.mp hge)
    rw [encode, wrap, List.append_assoc, List.append_cancel_left_eq] at h
    exact decode_wrap_of_none hv (readModule_of_append_eq h ht)

theorem damaged_is_refused (m : Ir.Module) :
    (∀ b, b <+: encode .current m → b ≠ encode .current m →
      decode b = if b.length < 8 then .error (.truncated b.length) else .error .payload) ∧
    (∀ t, ¬ t ⊆ [0x20, 0x09, 0x0a, 0x0d] → decode (encode .current m ++ t) = .error .payload) ∧
    ∀ t, t ⊆ [0x20, 0x09, 0x0a, 0x0d] → m.toJson.depth ≤ 127 → decode (encode .current m ++ t) = .ok m := by
  have hv : ¬ Version.current < .oldest := by decide
  have happend (t : Bytes) : encode .current m ++ t = wrap .current (m.toJson.compact ++ t) := List.append_assoc _ _ _
  refine ⟨fun b hb hne => ?_, fun t ht => ?_, fun t ht hd => ?_⟩
  · obtain ⟨t, hbt⟩ := hb
    apply decode_of_append_eq hv hbt
    rintro rfl
    rw [List.append_nil] at hbt
    exact hne hbt
  · rw [happend]
    apply decode_wrap_of_none hv
    rw [readModule_compact_append, if_neg fun he => ht (skipBlanks_eq_nil_iff.mp he)]
  · have hroom : m.toJson.depth ≤ Json.maxDepth := hd
    rw [happend, decode_wrap, if_neg hv, readModule_compact_append, if_pos (skipBlanks_eq_nil_iff.mpr ht),
      readModule_compact, if_pos hroom]
    rfl

def accented : Ir.Module := { name := "\"é", functions := [{ name := "idle", result := .void }] }

theorem damaged_is_refused_accented :
    let b := encode .current accented
    decode (b ++ [0x20, 0x0a]) = .ok accented ∧ decode (b.take 5) = .error (.truncated 5) ∧
      (∀ n ∈ [18, 20, b.length - 1], decode (b.take n) = .error .payload) ∧
      decode (b ++ [0x20, 0x7d]) = .error .payload := by
  intro b
  obtain ⟨hcut, hmore, hblank⟩ := damaged_is_refused accented
  have hlen : b.length = 227 := by decide +kernel
  have hcut' {n : Nat} (hn : n < b.length) :
      decode (b.take n) = if n < 8 then .error (.truncated n) else .error .payload := by
    have htake : (b.take n).length = n := List.length_take_of_le (Nat.le_of_lt hn)
    have hne : b.take n ≠ b := fun he => Nat.ne_of_lt hn (htake.symm.trans (congrArg List.length he))
    have h := hcut (b.take n) (List.take_prefix n b) hne
    rwa [htake] at h
  refine ⟨hblank _ (by decide) (by decide +kernel), hcut' (by omega), fun n hn => ?_, hmore _ (by decide)⟩
  rw [hlen] at hn
  have hbounds : n < 227 ∧ ¬ n < 8 := by
    simp only [List.mem_cons, List.not_mem_nil, or_false] at hn
    omega
  rw [hcut' (hlen ▸ hbounds.1), if_neg hbounds.2]

end DeviceLink.Container
