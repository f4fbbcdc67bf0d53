import DeviceLink.Ir.Shape
import DeviceLink.Proofs.Json.Codec

namespace DeviceLink

open Json

lemma Location.codec : Codec Location.read Location.toJson := by
  refine Codec.record (fun room l => ?_) fun room => ?_
  · simp [Codec.string.read_write, Codec.uint32.read_write, ite_and]
  · refine Codec.string.fits.required fun file hfile => Codec.uint32.fits.required fun line hline =>
      Codec.uint32.fits.required fun column hcolumn => Fields.ensures_pure ?_
    simp [*]

lemma Location.toJson_ne_null (l : Location) : l.toJson ≠ .null := nofun

lemma Space.codec : Codec Space.read Space.toJson := Codec.word (by rintro (_ | _ | _ | _ | _) <;> rfl)

lemma Visibility.codec : Codec Visibility.read Visibility.toJson := Codec.word (by rintro (_ | _) <;> rfl)

namespace Ir

namespace Ty

lemma array_toJsonAll (ts : List Ty) : Json.array (toJsonAll ts) = ofList toJson ts := by
  have h : toJsonAll ts = ts.map toJson := by
    induction ts with
    | nil => rfl
    | cons t ts ih => rw [toJsonAll, ih, List.map_cons]
  rw [h, ofList]

lemma depth_of_lookup {tag : String} {t : Ty} (h : words.lookup tag = some t) : t.toJson.depth = 0 := by
  have hw : ∀ w ∈ words, w.2.toJson.depth = 0 := by
    intro w hw
    simp only [words, List.mem_cons, List.not_mem_nil, or_false] at hw
    rcases hw with rfl | rfl | rfl | rfl | rfl | rfl | rfl | rfl | rfl <;> rfl
  obtain ⟨l, r, h, _⟩ := List.lookup_eq_some_iff.mp h
  exact hw (tag, t) (by simp [h])

lemma readLevels_ofString (levels room : Nat) (s : String) : readLevels levels room (ofString s) = words.lookup s := by
  cases levels with
  | zero => exact word_ofString words room s
  | succ levels => simp [readLevels, readLevel]

lemma readLevels_tagged_zero (levels : Nat) (tag : String) (body : Json) :
    readLevels levels 0 (tagged tag body) = none := by
  cases levels <;> simp [readLevels, readLevel, Reader.word, tagged, ofFields, choice]

lemma list_readLevels {levels room : Nat} {ts : List Ty}
    (h : ∀ t ∈ ts, ∀ room ≤ levels, readLevels levels room t.toJson = if t.toJson.depth ≤ room then some t else none)
    (hr : room ≤ levels) : Reader.list (readLevels levels) room (ofList toJson ts) =
      if (ofList toJson ts).depth ≤ room then some ts else none := by
  cases room with
  | zero => simp [Reader.list, ofList]
  | succ room =>
    have hts := mapM_eq_ite fun t ht => h t ht room (by omega)
    simp [Reader.list, itemsOf, ofList, hts]

-- A level costs two brackets, so the levels last as long as the room does.
mutual

theorem readLevels_toJson : ∀ (t : Ty) {levels room : Nat}, room ≤ levels →
    readLevels levels room t.toJson = if t.toJson.depth ≤ room then some t else none
  | .void, levels, room, _ | .i1, levels, room, _ | .i8, levels, room, _ | .i16, levels, room, _ | .i32, levels, room, _
  | .i64, levels, room, _ | .f32, levels, room, _ | .f64, levels, room, _ | .label, levels, room, _ => by
    rw [toJson, readLevels_ofString, depth_ofString, if_pos (Nat.zero_le room)]
    rfl
  | .ptr t s, levels + 1, room + 2, h => by
    have ht := @readLevels_toJson t levels room (by omega)
    simp [readLevels, readLevel, toJson, ht, Space.codec.read_write, ite_and]
  | .array n t, levels + 1, room + 2, h => by
    have ht := @readLevels_toJson t levels room (by omega)
    simp [readLevels, readLevel, toJson, ht, Codec.uint64.read_write, ite_and]
  | .function t ts v, levels + 1, room + 2, h => by
    have ht := @readLevels_toJson t levels room (by omega)
    have hts := list_readLevels (readLevels_toJsonAll ts levels) (by omega : room ≤ levels)
    simp [readLevels, readLevel, toJson, array_toJsonAll, ht, hts, Codec.bool.read_write, ite_and]
  | .struct n ts p, levels + 1, room + 2, h => by
    have hn := (Codec.string.nullable nofun).read_write room n
    have hts := list_readLevels (readLevels_toJsonAll ts levels) (by omega : room ≤ levels)
    simp [readLevels, readLevel, toJson, array_toJsonAll, hn, hts, Codec.bool.read_write, ite_and]
  | .ptr .., levels, 0, _ | .array .., levels, 0, _ | .function .., levels, 0, _ | .struct .., levels, 0, _ => by
    simp [toJson, readLevels_tagged_zero]
  | .ptr .., levels + 1, 1, _ | .array .., levels + 1, 1, _ | .function .., levels + 1, 1, _
  | .struct .., levels + 1, 1, _ => by
    simp [readLevels, readLevel, toJson]

theorem readLevels_toJsonAll : ∀ (ts : List Ty) (levels : Nat), ∀ t ∈ ts, ∀ room ≤ levels,
    readLevels levels room t.toJson = if t.toJson.depth ≤ room then some t else none
  | [], _ => nofun
  | t :: ts, levels => by
    rw [List.forall_mem_cons]
    exact ⟨fun room h => readLevels_toJson t h, readLevels_toJsonAll ts levels⟩

end

lemma fits_readLevel {part : Reader Ty} (h : Fits part toJson) : Fits (readLevel part) toJson := by
  intro room j t hr
  obtain ⟨⟨c, left⟩, hc, hb⟩ := Option.bind_eq_some_iff.mp hr
  cases c with
  | bare tag => simp [depth_of_lookup hb]
  | tagged tag body =>
    obtain rfl := room_of_choice hc
    simp only at hb
    split at hb
    · refine fits_tagged (fun room => ?_) hb
      refine h.required fun t ht => Space.codec.fits.required fun s hs => Fields.ensures_pure ?_
      simp [toJson, *]
    · refine fits_tagged (fun room => ?_) hb
      refine Codec.uint64.fits.required fun n hn => h.required fun t ht => Fields.ensures_pure ?_
      simp [toJson, *]
    · refine fits_tagged (fun room => ?_) hb
      refine h.required fun t ht => h.list.required fun ts hts => Codec.bool.fits.required fun v hv =>
        Fields.ensures_pure ?_
      simp [toJson, array_toJsonAll, *]
    · refine fits_tagged (fun room => ?_) hb
      refine Codec.string.fits.optional fun n hn => h.list.required fun ts hts => Codec.bool.fits.required fun p hp =>
        Fields.ensures_pure ?_
      simp [toJson, array_toJsonAll, *]
    · split at hb
      · simp [depth_of_lookup hb]
      · cases hb

lemma fits_readLevels (levels : Nat) : Fits (readLevels levels) toJson := by
  induction levels with
  | zero =>
    intro room j t hr
    unfold readLevels Reader.word at hr
    split at hr
    · obtain ⟨tag, _, hr⟩ := Option.bind_eq_some_iff.mp hr
      simp [depth_of_lookup hr]
    · obtain ⟨tag, _, hr⟩ := Option.bind_eq_some_iff.mp hr
      simp [depth_of_lookup hr]
    · cases hr
  | succ levels ih => exact fits_readLevel ih

lemma codec : Codec read toJson where
  read_write room t := readLevels_toJson t (Nat.le_refl room)
  fits room _ _ h := fits_readLevels room h

end Ty

lemma codec_temp : Codec Reader.uint32 ofTemp := Codec.uint32

lemma codec_int64 : Codec Reader.int64 ofInt64 := Codec.int64

namespace Operand

lemma toJson_ne_null (o : Operand) : o.toJson ≠ .null := by
  cases o <;> nofun

lemma codec : Codec read toJson where
  read_write room o := by
    cases room with
    | zero => cases o <;> simp [read, toJson]
    | succ room =>
      cases o <;> simp [read, toJson, codec_temp.read_write, codec_int64.read_write, Codec.string.read_write,
        codec_int64.list.read_write, Space.codec.read_write]
  fits room j o hr := by
    obtain ⟨⟨c, left⟩, hc, hb⟩ := Option.bind_eq_some_iff.mp hr
    cases c with
    | bare tag =>
      obtain ⟨_, hb⟩ := Option.ite_none_right_eq_some.mp hb
      cases hb
      simp [toJson]
    | tagged tag body =>
      obtain rfl := room_of_choice hc
      simp only at hb
      split at hb
      · exact fits_tagged_map codec_temp.fits hb fun _ => rfl
      · exact fits_tagged_map codec_int64.fits hb fun _ => rfl
      · exact fits_tagged_map Codec.string.fits hb fun _ => rfl
      · exact fits_tagged_map Codec.string.fits hb fun _ => rfl
      · exact fits_tagged_map codec_int64.list.fits hb fun _ => rfl
      · exact fits_tagged_map Space.codec.fits hb fun _ => rfl
      · split at hb
        · cases hb
          simp [toJson]
        · cases hb
      · cases hb

end Operand

lemma BinaryOp.codec : Codec BinaryOp.read BinaryOp.toJson := Codec.word (by intro op; cases op <;> rfl)

namespace Instr

lemma readBody_toJson (i : Instr) (room : Nat) : ∃ tag body, i.toJson = tagged tag body ∧
    readBody tag room body = if body.depth ≤ room then some i else none := by
  have hv (n) := (Operand.codec.nullable Operand.toJson_ne_null).read_write room n
  cases room with
  | zero => cases i <;> refine ⟨_, _, rfl, ?_⟩ <;> simp [readBody, hv, codec_temp.read_write, Codec.string.read_write]
  | succ room =>
    have hr (n) := (codec_temp.nullable nofun).read_write room n
    have hv' (n) := (Operand.codec.nullable Operand.toJson_ne_null).read_write room n
    cases i <;> refine ⟨_, _, rfl, ?_⟩ <;>
    simp [readBody, codec_temp.read_write, Operand.codec.read_write, Operand.codec.list.read_write,
      Ty.codec.read_write, Space.codec.read_write, Codec.string.read_write, BinaryOp.codec.read_write,
      Location.codec.read_write, (Operand.codec.pair codec_temp).list.read_write, hv, hv', hr, ite_and]

lemma fits_readBody {tag : String} {left : Nat} {body : Json} {i : Instr} (h : readBody tag left body = some i) :
    i.toJson.depth ≤ left + 1 := by
  have ho := Operand.codec.fits
  have ht := Ty.codec.fits
  unfold readBody at h
  split at h
  · refine fits_tagged (fun room => ?_) h
    refine codec_temp.fits.required fun r hr => BinaryOp.codec.fits.required fun op hop => ho.required fun a ha =>
      ho.required fun b hb => ht.required fun t ht => Fields.ensures_pure ?_
    simp [toJson, *]
  · refine fits_tagged (fun room => ?_) h
    refine codec_temp.fits.required fun r hr => ho.required fun p hp => ht.required fun t ht => Fields.ensures_pure ?_
    simp [toJson, *]
  · refine fits_tagged (fun room => ?_) h
    refine ho.required fun v hv => ho.required fun p hp => Fields.ensures_pure ?_
    simp [toJson, *]
  · refine fits_tagged (fun room => ?_) h
    refine codec_temp.fits.required fun r hr => ho.required fun p hp => ho.list.required fun is his =>
      ht.required fun t ht => Fields.ensures_pure ?_
    simp [toJson, *]
  · refine fits_tagged (fun room => ?_) h
    refine codec_temp.fits.required fun r hr => ht.required fun a ha => ho.optional fun n hn =>
      ht.required fun t ht => Fields.ensures_pure ?_
    simp [toJson, *]
  · refine fits_tagged (fun room => ?_) h
    refine codec_temp.fits.optional fun r hr => ho.required fun f hf => ho.list.required fun as has =>
      ht.required fun t ht => Fields.ensures_pure ?_
    simp [toJson, *]
  · refine fits_tagged (fun room => ?_) h
    refine codec_temp.fits.optional fun r hr => Codec.string.fits.required fun c hc => ho.required fun v hv =>
      ho.list.required fun as has => ht.required fun t ht => Fields.ensures_pure ?_
    simp [toJson, *]
  · refine fits_tagged (fun room => ?_) h
    refine codec_temp.fits.required fun r hr => ho.required fun p hp => Space.codec.fits.required fun s hs =>
      ht.required fun t ht => Fields.ensures_pure ?_
    simp [toJson, *]
  · refine fits_tagged (fun room => ?_) h
    refine codec_temp.fits.required fun r hr => ho.required fun p hp => Space.codec.fits.required fun s hs =>
      ht.required fun t ht => Fields.ensures_pure ?_
    simp [toJson, *]
  · refine fits_tagged (fun room => ?_) h
    refine codec_temp.fits.required fun r hr => ho.required fun p hp => Space.codec.fits.required fun s hs =>
      Fields.ensures_pure ?_
    simp [toJson, *]
  · refine fits_tagged (fun room => ?_) h
    refine codec_temp.fits.required fun r hr => ho.required fun v hv => ht.required fun t ht => Fields.ensures_pure ?_
    simp [toJson, *]
  · refine fits_tagged (fun room => ?_) h
    refine codec_temp.fits.required fun r hr => ho.required fun c hc => ho.required fun a ha => ho.required fun b hb =>
      ht.required fun t ht => Fields.ensures_pure ?_
    simp [toJson, *]
  · refine fits_tagged (fun room => ?_) h
    refine codec_temp.fits.required fun r hr => (ho.pair codec_temp.fits).list.required fun ps hps =>
      ht.required fun t ht => Fields.ensures_pure ?_
    simp [toJson, *]
  · exact fits_tagged_map ho.nullable h fun _ => rfl
  · exact fits_tagged_map codec_temp.fits h fun _ => rfl
  · refine fits_tagged (fun room => ?_) h
    refine ho.required fun c hc => codec_temp.fits.required fun l hl => codec_temp.fits.required fun k hk =>
      Fields.ensures_pure ?_
    simp [toJson, *]
  · refine fits_tagged (fun room => ?_) h
    refine Location.codec.fits.required fun place hplace => Fields.ensures_pure ?_
    simp [toJson, *]
  · exact fits_tagged_map Codec.string.fits h fun _ => rfl
  · cases h

lemma codec : Codec read toJson where
  read_write room i := by
    obtain ⟨tag, body, hi, h⟩ := readBody_toJson i (room - 1)
    cases room with
    | zero => simp [read, hi]
    | succ room => simp_all [read]
  fits room j i hr := by
    obtain ⟨⟨c, left⟩, hc, hb⟩ := Option.bind_eq_some_iff.mp hr
    cases c with
    | bare tag => cases hb
    | tagged tag body =>
      obtain rfl := room_of_choice hc
      exact fits_readBody hb

end Instr

lemma Block.codec : Codec Block.read Block.toJson := by
  refine Codec.record (fun room b => ?_) fun room => ?_
  · simp [codec_temp.read_write, Instr.codec.list.read_write, ite_and]
  · refine codec_temp.fits.required fun id hid => Instr.codec.fits.list.required fun code hcode =>
      Fields.ensures_pure ?_
    simp [*]

lemma Function.codec : Codec Function.read Function.toJson := by
  have hplace := Location.codec.nullable Location.toJson_ne_null
  refine Codec.record (fun room f => ?_) fun room => ?_
  · simp [Codec.string.read_write, Codec.bool.read_write, Codec.strings.read_write, Ty.codec.read_write,
      (codec_temp.pair Ty.codec).list.read_write, Block.codec.list.read_write, Visibility.codec.read_write,
      hplace.read_write, ite_and]
  · refine Codec.string.fits.required fun name hname => Ty.codec.fits.required fun result hresult =>
      (codec_temp.fits.pair Ty.codec.fits).list.required fun params hparams =>
      Block.codec.fits.list.required fun blocks hblocks => Visibility.codec.fits.required fun v hv =>
      Codec.bool.fits.defaulted (Nat.zero_le _) fun kernel hkernel =>
      Codec.strings.fits.defaulted ?_ fun names hnames =>
      hplace.fits.defaulted (Nat.zero_le _) fun place hplace => Fields.ensures_pure ?_
    · exact Nat.lt_of_lt_of_le (depth_ofList_pos _ params) hparams
    · simp [*]

lemma Global.codec : Codec Global.read Global.toJson := by
  have hinit := Operand.codec.nullable Operand.toJson_ne_null
  refine Codec.record (fun room g => ?_) fun room => ?_
  · simp [Codec.string.read_write, Codec.bool.read_write, Ty.codec.read_write, Space.codec.read_write,
      Visibility.codec.read_write, hinit.read_write, ite_and]
  · refine Codec.string.fits.required fun name hname => Ty.codec.fits.required fun type htype =>
      Space.codec.fits.defaulted (Nat.zero_le _) fun space hspace =>
      Codec.bool.fits.required fun const hconst => Operand.codec.fits.optional fun init hinit =>
      Visibility.codec.fits.required fun v hv => Fields.ensures_pure ?_
    simp [*]

lemma Module.codec : Codec Module.read Module.toJson := by
  refine Codec.record (fun room m => ?_) fun room => ?_
  · simp [Codec.string.read_write, Function.codec.list.read_write, Global.codec.list.read_write,
      Codec.strings.read_write, Codec.strings.table.read_write, ite_and]
  · refine Codec.string.fits.required fun name hname => Function.codec.fits.list.required fun fs hfs =>
      Global.codec.fits.list.required fun gs hgs => Codec.strings.fits.defaulted ?_ fun used hused =>
      Codec.strings.fits.table.defaulted ?_ fun tables htables => Fields.ensures_pure ?_
    -- what is written for an absent field needs a bracket, and the functions had one
    · exact Nat.lt_of_lt_of_le (depth_ofList_pos _ fs) hfs
    · exact Nat.lt_of_lt_of_le (depth_ofList_pos _ fs) hfs
    · simp [*]

end Ir

end DeviceLink
