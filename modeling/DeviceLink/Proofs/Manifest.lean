import DeviceLink.Manifest
import DeviceLink.Proofs.Json.Lines
import DeviceLink.Proofs.Shape

namespace DeviceLink

open Json

lemma SymbolKind.codec : Codec SymbolKind.read SymbolKind.toJson := by
  refine Codec.flat (fun k => ?_) fun room k => ?_
  · cases k <;> rfl
  · cases k <;> exact word_ofString _ room _

lemma UnitKind.codec : Codec UnitKind.read UnitKind.toJson := Codec.word (by rintro (_ | _) <;> rfl)

lemma Target.codec : Codec Target.read Target.toJson where
  read_write room t := by
    cases room <;> cases t <;> simp [Target.read, Target.toJson, Codec.string.read_write]
  fits {room j t} h := by
    obtain ⟨⟨c, left⟩, hc, hb⟩ := Option.bind_eq_some_iff.mp h
    cases c with
    | bare tag => cases hb
    | tagged tag body =>
      obtain rfl := room_of_choice hc
      simp only at hb
      split at hb
      · exact fits_tagged_map Codec.string.fits hb fun _ => rfl
      · exact fits_tagged_map Codec.string.fits hb fun _ => rfl
      · cases hb

lemma Reference.codec : Codec Reference.read Reference.toJson := by
  refine Codec.record (fun room r => ?_) fun room => ?_
  · simp [Codec.string.read_write, Target.codec.read_write]
  · refine Codec.string.fits.required fun referrer hreferrer => Target.codec.fits.required fun target htarget =>
      Fields.ensures_pure ?_
    simp [*]

lemma SymbolEntry.codec : Codec SymbolEntry.read SymbolEntry.toJson := by
  refine Codec.record (fun room e => ?_) fun room => ?_
  · obtain ⟨name, kind, space, visibility, isKernel, implements⟩ := e
    cases implements <;> simp [Codec.string.read_write, SymbolKind.codec.read_write, Space.codec.read_write,
      Visibility.codec.read_write, Codec.bool.read_write, Codec.strings.read_write, ite_and]
  · refine Codec.string.fits.required fun name hname => SymbolKind.codec.fits.required fun kind hkind =>
      Space.codec.fits.defaulted (Nat.zero_le _) fun space hspace =>
      Visibility.codec.fits.defaulted (Nat.zero_le _) fun visibility hvisibility =>
      Codec.bool.fits.defaulted (Nat.zero_le _) fun isKernel hisKernel => ?_
    -- the list takes no room where it is left out
    refine Fields.ensures_bind (P := fun names => names = [] ∨ (ofStrings names).depth ≤ room)
      (Fields.ensures_next _ (fun j => Fields.ensures_lift fun names hnames => .inr (Codec.strings.fits hnames))
        (Fields.ensures_pure (.inl rfl)) (Fields.ensures_pure (.inl rfl)))
      fun names hnames => Fields.ensures_pure ?_
    rw [List.forall_mem_append]
    refine ⟨by simp [*], ?_⟩
    split
    · exact List.forall_mem_nil _
    · rename_i hne
      exact List.forall_mem_singleton.mpr (hnames.resolve_left (by simpa using hne))

namespace Json

lemma isSoundItems_iff {items : List Json} : isSoundItems items = true ↔ ∀ x ∈ items, x.isSound = true := by
  induction items with
  | nil => simp [isSoundItems]
  | cons x xs ih => simp [isSoundItems, ih]

lemma isSoundMembers_iff {members : List (Bytes × Json)} :
    isSoundMembers members = true ↔ ∀ m ∈ members, m.1.toString?.isSome = true ∧ m.2.isSound = true := by
  induction members with
  | nil => simp [isSoundMembers]
  | cons m ms ih => simp only [isSoundMembers, Bool.and_eq_true, ih, List.forall_mem_cons]

lemma emptyToNullItems_eq (items : List Json) : emptyToNullItems items = items.map emptyToNull := by
  induction items with
  | nil => rfl
  | cons x xs ih => rw [emptyToNullItems, ih, List.map_cons]

lemma emptyToNullMembers_eq (members : List (Bytes × Json)) :
    emptyToNullMembers members = members.map fun m => (m.1, m.2.emptyToNull) := by
  induction members with
  | nil => rfl
  | cons m ms ih => rw [emptyToNullMembers, ih, List.map_cons]

structure Retained (room : Nat) (j : Json) : Prop where
  depth_le : j.depth ≤ room
  sound : j.isSound = true
  same : j.emptyToNull = j

namespace Retained

variable {room : Nat}

lemma string (s : String) : Retained room (ofString s) where
  depth_le := Nat.zero_le room
  sound := by
    rw [ofString, isSound, Bytes.toString?_ofString]
    rfl
  same := rfl

lemma bool (b : Bool) : Retained room (.bool b) := ⟨Nat.zero_le room, rfl, rfl⟩

lemma list {α : Type} {write : α → Json} (h : ∀ a, Retained room (write a)) (xs : List α) :
    Retained (room + 1) (ofList write xs) where
  depth_le := depth_array_le.mpr (List.forall_mem_map.mpr fun a _ => (h a).depth_le)
  sound := isSoundItems_iff.mpr (List.forall_mem_map.mpr fun a _ => (h a).sound)
  same := by
    rw [ofList, emptyToNull, emptyToNullItems_eq, List.map_map]
    exact congrArg Json.array (List.map_congr_left fun a _ => (h a).same)

lemma fields {fs : List (String × Json)} (hne : fs ≠ []) (h : ∀ f ∈ fs, Retained room f.2) :
    Retained (room + 1) (ofFields fs) where
  depth_le := depth_ofFields_le.mpr fun f hf => (h f hf).depth_le
  sound := by
    refine isSoundMembers_iff.mpr (List.forall_mem_map.mpr fun f hf => ⟨?_, (h f hf).sound⟩)
    rw [Bytes.toString?_ofString]
    rfl
  same := by
    rw [ofFields, emptyToNull, emptyToNullMembers_eq, List.map_map]
    · exact congrArg Json.object (List.map_congr_left fun f hf => Prod.ext rfl (h f hf).same)
    · simpa using hne

lemma tagged {body : Json} (h : Retained room body) (tag : String) : Retained (room + 1) (tagged tag body) :=
  fields (List.cons_ne_nil _ _) (List.forall_mem_singleton.mpr h)

end Retained

end Json

lemma SymbolEntry.retained_toJson (e : SymbolEntry) (room : Nat) : Retained (room + 2) e.toJson := by
  have hkind : Retained (room + 1) e.kind.toJson := by cases e.kind <;> exact Retained.string _
  refine Retained.fields (by simp) (List.forall_mem_append.mpr ⟨?_, ?_⟩)
  · simp [Retained.string, Retained.bool, hkind, Space.toJson, Visibility.toJson]
  · split
    · exact List.forall_mem_nil _
    · exact List.forall_mem_singleton.mpr (Retained.list Retained.string e.implements)

lemma Reference.retained_toJson (r : Reference) (room : Nat) : Retained (room + 2) r.toJson := by
  have htarget : Retained (room + 1) r.target.toJson := by cases r.target <;> exact (Retained.string _).tagged _
  exact Retained.fields (by simp) (by simp [Retained.string, htarget])

namespace CompiledUnit

variable (u : CompiledUnit)

lemma retained_fields (room : Nat) : ∀ f ∈ u.fields, Retained (room + 3) f.2 := by
  have hsymbols := Retained.list (fun e => SymbolEntry.retained_toJson e room) u.symbols
  have hreferences := Retained.list (fun r => Reference.retained_toJson r room) u.references
  simp [fields, Retained.string, UnitKind.toJson, hsymbols, hreferences]

lemma readFields_fields (room : Nat) : readFields (room + 3) (.named u.fields) = some (u, .named u.fields) := by
  have h := u.retained_fields room
  simp only [fields, List.forall_mem_cons] at h
  obtain ⟨-, hkind, hsymbols, hreferences, -⟩ := h
  simp [readFields, fields, Codec.string.read_write, UnitKind.codec.read_write, SymbolEntry.codec.list.read_write,
    Reference.codec.list.read_write, hkind.depth_le, hsymbols.depth_le, hreferences.depth_le]

lemma read_toJson (room : Nat) : read (room + 4) u.toJson = some u := by
  rw [toJson, read, reader_record_ofFields]
  simp [readFields_fields]

end CompiledUnit

namespace UnitEntry

inductive Describes (u : CompiledUnit) : Option String → Json → Prop
  | plain : Describes u none u.toJson
  | filed (before after : List (String × Json)) (h : u.fields = before ++ after) (file : Option String) :
      Describes u file (.ofFields (before ++ ("bitcode", .ofOption .ofString file) :: after))

variable {u : CompiledUnit} {file : Option String}

lemma read_ofFields {room : Nat} {fs : List (String × Json)}
    (hf : Fields.defaulted "bitcode" none (Reader.nullable .string (room + 3)) (.named fs) = some (file, .named fs))
    (hu : fs.filter (·.1 ≠ "bitcode") = u.fields) : read (room + 4) (.ofFields fs) = some ⟨u, file⟩ := by
  have hretained := u.retained_fields room
  have hall : u.fields.all (fun f => f.2.depth ≤ room + 3 && f.2.isSound) = true := by
    simp only [List.all_eq_true, Bool.and_eq_true, decide_eq_true_eq]
    exact fun f hf => ⟨(hretained f hf).depth_le, (hretained f hf).sound⟩
  have hsame : u.fields.map (fun f => (f.1, f.2.emptyToNull)) = u.fields.map id :=
    List.map_congr_left fun f hf => Prod.ext rfl (hretained f hf).same
  rw [ofFields, read, ← names?, names?_ofString]
  simp only [Option.bind_eq_bind, Option.bind_some, hf, hu, hall, hsame, List.map_id,
    CompiledUnit.readFields_fields]
  rfl

lemma read_of_describes {j : Json} (h : Describes u file j) (room : Nat) : read (room + 4) j = some ⟨u, file⟩ := by
  have hnone : u.fields.filter (·.1 = "bitcode") = [] := by simp [CompiledUnit.fields]
  have hall : u.fields.filter (·.1 ≠ "bitcode") = u.fields := by simp [CompiledUnit.fields]
  cases h with
  | plain =>
    refine read_ofFields ?_ hall
    rw [Fields.defaulted_named, hnone]
  | filed before after h =>
    rw [h, List.filter_append] at hnone hall
    obtain ⟨hbefore, hafter⟩ := List.append_eq_nil_iff.mp hnone
    apply read_ofFields
    · have hread := (Codec.string.nullable (by simp [ofString])).read_write (room + 3) file
      have hdepth : (ofOption ofString file).depth = 0 := by cases file <;> rfl
      simp [hbefore, hafter, hread, hdepth]
    · rw [h, List.filter_append, List.filter_cons_of_neg (by simp), hall]

end UnitEntry

namespace Manifest

inductive Frame where
  | named (before after : List (Bytes × Json))
  | listed (rest : List Json)

def Frame.around (units : List Json) : Frame → Json
  | .named before after => .object (before ++ (.ofString "units", .array units) :: after)
  | .listed rest => .array (.array units :: rest)

def readOthers (room : Nat) : Fields (List String × Option Options) := do
  let kernels ← .defaulted "kernels" [] (Reader.list .string room)
  let options ← .defaulted "options" none (Reader.nullable Options.read room)
  return (kernels, options)

lemma read_eq : read = .record fun room => do
    let units ← .required "units" (Reader.list UnitEntry.read room)
    let others ← readOthers room
    return ⟨units, others.1, others.2⟩ := by
  simp only [read, readOthers, bind_assoc, pure_bind]

lemma readOthers_named (room : Nat) (fs : List (String × Json)) :
    (readOthers room (.named fs)).map (·.1) =
      (Fields.given (some []) (Reader.list .string room) (fs.filter (·.1 = "kernels"))).bind fun kernels =>
        (Fields.given (some none) (Reader.nullable Options.read room) (fs.filter (·.1 = "options"))).map fun options =>
          (kernels, options) := by
  simp [readOthers, -Fields.defaulted_named, Fields.defaulted_eq_given, Option.bind_map, Function.comp_def]

lemma exists_read_around (F : Frame) (room : Nat) : ∃ others : Option (List String × Option Options), ∀ units,
    read (room + 1) (F.around units) =
      (Reader.list UnitEntry.read room (.array units)).bind fun us => others.map fun o => ⟨us, o.1, o.2⟩ := by
  rw [read_eq]
  cases F with
  | named before after =>
    simp only [Frame.around, Reader.record, record_object, names?_append_cons]
    cases names? before with
    | none => exact ⟨none, fun units => by simp⟩
    | some p =>
      cases names? after with
      | none => exact ⟨none, fun units => by simp⟩
      | some q =>
        -- the other fields do not see the units
        have hothers (v : Json) : (readOthers room (.named (p ++ q))).map (·.1) =
            (readOthers room (.named (p ++ ("units", v) :: q))).map (·.1) := by
          simp [readOthers_named]
        by_cases hpq : (p ++ q).filter (·.1 = "units") = []
        · refine ⟨(readOthers room (.named (p ++ q))).map (·.1), fun units => ?_⟩
          rw [hothers (.array units)]
          rw [List.filter_append, List.append_eq_nil_iff] at hpq
          simp [hpq, Option.bind_map, Function.comp_def]
        · refine ⟨none, fun units => ?_⟩
          rw [List.filter_append] at hpq
          simp [Fields.required_eq_given, -Fields.required_named, Fields.given_append_cons, hpq]
  | listed rest =>
    refine ⟨(readOthers room (.listed rest)).bind complete?, fun units => ?_⟩
    simp only [Frame.around, Reader.record, record_array, Fields.bind_apply, Fields.required_listed_cons]
    cases Reader.list UnitEntry.read room (.array units) with
    | none => rfl
    | some us =>
      simp only [Option.map_some, Option.bind_some]
      cases readOthers room (.listed rest) with
      | none => rfl
      | some p => exact complete?_map (fun o => (⟨us, o.1, o.2⟩ : Manifest)) p

lemma read_around_insert {room : Nat} {j : Json} {e : UnitEntry} (h : UnitEntry.read room j = some e) (F : Frame)
    (before after : List Json) : read (room + 2) (F.around (before ++ j :: after)) =
      (read (room + 2) (F.around (before ++ after))).map fun m =>
        { m with units := m.units.take before.length ++ e :: m.units.drop before.length } := by
  obtain ⟨others, hothers⟩ := exists_read_around F (room + 1)
  simp only [hothers, Reader.list, itemsOf, mapM_insert h]
  cases (before ++ after).mapM (UnitEntry.read room) with
  | none => rfl
  | some us => cases others <;> rfl

lemma parse_eq_map {j : Json} {text : Bytes} (h : Json.parse text = some j) :
    parse text = ((read maxDepth j).map Except.ok).getD (.error (.internal .manifest)) := by
  rw [parse, h, Option.bind_some]
  cases read maxDepth j <;> rfl

end Manifest

lemma SymbolEntry.exists_implements_iff (e : SymbolEntry) : ∃ members, e.toJson = .object members ∧
    ((∃ m ∈ members, m.1 = .ofString "implements") ↔ e.implements ≠ []) := by
  have hinj (s t : String) : Bytes.ofString s = .ofString t ↔ s = t := ⟨Bytes.ofString_injective, congrArg _⟩
  refine ⟨_, rfl, ?_⟩
  cases e.implements <;> simp [hinj]

theorem Manifest.descriptions_survive (u : CompiledUnit) :
    (∀ text ∈ [u.toJson.compact, u.toJson.pretty], (Json.parse text).bind (CompiledUnit.read maxDepth) = some u) ∧
    (∀ e ∈ u.symbols, ∃ members, e.toJson = .object members ∧
      ((∃ m ∈ members, m.1 = .ofString "implements") ↔ e.implements ≠ [])) ∧
    ∀ file j, UnitEntry.Describes u file j → ∀ (F : Frame) (before after : List Json) (short long : Bytes),
      Json.parse short = some (F.around (before ++ after)) → Json.parse long = some (F.around (before ++ j :: after)) →
        parse long = (parse short).map fun m =>
          { m with units := m.units.take before.length ++ ⟨u, file⟩ :: m.units.drop before.length } := by
  refine ⟨?_, fun e _ => e.exists_implements_iff, ?_⟩
  · have hread : CompiledUnit.read maxDepth u.toJson = some u := u.read_toJson 123
    simp [parse_compact, parse_pretty, hread]
  · intro file j hj F before after short long hshort hlong
    have hentry := UnitEntry.read_of_describes hj 121
    have hread := read_around_insert hentry F before after
    rw [parse_eq_map hlong, parse_eq_map hshort, maxDepth, hread]
    cases read 127 (F.around (before ++ after)) <;> rfl

def Manifest.library : CompiledUnit where
  name := "lib \"é\"\n"
  kind := .library
  symbols := [(SymbolEntry.function "norme" .external).implementing "métrique", .global "table" .constant .internal]
  references := [⟨"norme", .symbol "table"⟩, ⟨"norme", .dispatch "métrique"⟩]

def Manifest.mainFrame : Frame := .named [(.ofString "kernels", .ofStrings ["main"])] []

theorem Manifest.descriptions_survive_library :
    parse (mainFrame.around [library.toJson, .ofFields (("bitcode", .ofString "é.bc") :: library.fields)]).pretty =
      .ok ⟨[⟨library, none⟩, ⟨library, some "é.bc"⟩], ["main"], none⟩ := by
  have hempty : parse (mainFrame.around []).compact = .ok ⟨[], ["main"], none⟩ := by
    rw [parse, parse_compact]
    rfl
  have hplain := (descriptions_survive library).2.2 none _ .plain mainFrame [] [] _ _ (parse_compact _)
    (parse_compact _)
  have hfiled := (descriptions_survive library).2.2 (some "é.bc") _ (.filed [] library.fields rfl _) mainFrame
    [library.toJson] [] _ _ (parse_compact _) (parse_pretty _)
  rw [List.append_nil, hempty] at hplain
  rw [List.append_nil] at hfiled
  exact hfiled.trans (congrArg _ hplain)

end DeviceLink
