import DeviceLink.Container
import DeviceLink.Proofs.Fallible
import DeviceLink.Proofs.Json.Text
import DeviceLink.Proofs.Shape

namespace DeviceLink.Container

lemma ofLittleEndian_bytes (n : UInt16) :
    ofLittleEndian (n.toNat % 256).toUInt8 (n.toNat / 256).toUInt8 = n := by
  have hn : n.toNat < 65536 := n.toNat_lt
  have hlow : (n.toNat % 256).toUInt8.toNat = n.toNat % 256 := by
    rw [Nat.toUInt8_eq, UInt8.toNat_ofNat']
    omega
  have hhigh : (n.toNat / 256).toUInt8.toNat = n.toNat / 256 := by
    rw [Nat.toUInt8_eq, UInt8.toNat_ofNat']
    omega
  rw [ofLittleEndian, hlow, hhigh, Nat.mod_add_div, UInt16.ofNat_toNat]

lemma unwrap_wrap (v : Version) (payload : Bytes) : unwrap (wrap v payload) = .ok (v, payload) := by
  have hm : magic = [0x4e, 0x56, 0x43, 0x42] := by decide
  simp [unwrap, wrap, header, littleEndian, hm, ofLittleEndian_bytes]

lemma peek_wrap (v : Version) (payload : Bytes) : peek (wrap v payload) = .ok v := by
  rw [peek, unwrap_wrap]
  rfl

lemma decode_wrap (v : Version) (payload : Bytes) :
    decode (wrap v payload) =
      if v < .oldest then .error (.tooOld v) else (readModule payload).elim (.error .payload) .ok := by
  rw [decode, unwrap_wrap]
  simp only [bind, Except.bind]
  split
  · rfl
  · cases readModule payload <;> rfl

lemma readModule_compact (m : Ir.Module) :
    readModule m.toJson.compact = if m.toJson.depth ≤ Json.maxDepth then some m else none := by
  rw [readModule, Json.parse_compact]
  exact Ir.Module.codec.read_write Json.maxDepth m

lemma depth_le_of_decode {b : Bytes} {m : Ir.Module} (h : decode b = .ok m) : m.toJson.depth ≤ Json.maxDepth := by
  obtain ⟨⟨v, payload⟩, _, h⟩ := Fallible.bind_eq_ok_iff.mp h
  simp only [bind, Except.bind] at h
  split at h
  · cases h
  · split at h
    · rename_i k hk
      obtain ⟨j, _, hj⟩ := Option.bind_eq_some_iff.mp hk
      cases h
      exact Ir.Module.codec.fits hj
    · cases h

theorem decode_encode (v : Version) (m : Ir.Module) :
    peek (encode v m) = .ok v ∧
      decode (encode v m) =
        if v < ⟨1, 6⟩ then .error (.tooOld v)
        else if m.toJson.depth ≤ 127 then .ok m
        else .error .payload := by
  refine ⟨peek_wrap v _, ?_⟩
  rw [encode, decode_wrap, readModule_compact]
  refine if_congr Iff.rfl rfl ?_
  change (if m.toJson.depth ≤ 127 then some m else none).elim _ _ = _
  split <;> rfl

theorem decode_encode_of_decode {b : Bytes} {m : Ir.Module} (h : decode b = .ok m) :
    decode (encode .current m) = .ok m := by
  have hv : ¬ Version.current < .oldest := by decide
  rw [encode, decode_wrap, if_neg hv, readModule_compact, if_pos (depth_le_of_decode h)]
  rfl

def loose : Json :=
  .ofFields [("globals", .array []), ("note", .array [.array []]),
    ("functions", .array [.array [.ofString "idle", .tagged "Void" .null, .array [], .array [], .ofString "internal"]]),
    ("name", .ofString "spare")]

theorem decode_encode_of_decode_loose :
    let b := wrap .oldest (0x20 :: loose.compact)
    let m : Ir.Module := { name := "spare", functions := [{ name := "idle", result := .void }] }
    decode b = .ok m ∧ b ≠ encode .current m ∧ decode (encode .current m) = .ok m := by
  intro b m
  have h : decode b = .ok m := by decide +kernel
  exact ⟨h, by decide +kernel, decode_encode_of_decode h⟩

end DeviceLink.Container
