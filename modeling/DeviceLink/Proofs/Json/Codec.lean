import DeviceLink.Json.Reader
import DeviceLink.Proofs.Fallible
import DeviceLink.Proofs.Ordered
import Mathlib.Logic.Basic

namespace DeviceLink.Json

section Depth

variable {room : Nat}

lemma depthItems_le {items : List Json} : depthItems items ≤ room ↔ ∀ x ∈ items, x.depth ≤ room := by
  induction items with
  | nil => simp [depthItems]
  | cons x rest ih => rw [depthItems, Nat.max_le, ih, List.forall_mem_cons]

lemma depthMembers_le {members : List (Bytes × Json)} :
    depthMembers members ≤ room ↔ ∀ m ∈ members, m.2.depth ≤ room := by
  induction members with
  | nil => simp [depthMembers]
  | cons m rest ih => rw [depthMembers, Nat.max_le, ih, List.forall_mem_cons]

@[simp] lemma depth_ofString (s : String) : (ofString s).depth = 0 := rfl

@[simp] lemma depth_array_le {items : List Json} :
    (Json.array items).depth ≤ room + 1 ↔ ∀ x ∈ items, x.depth ≤ room := by
  simp [depth, depthItems_le]

@[simp] lemma depth_object_le {members : List (Bytes × Json)} :
    (Json.object members).depth ≤ room + 1 ↔ ∀ m ∈ members, m.2.depth ≤ room := by
  simp [depth, depthMembers_le]

@[simp] lemma depth_ofFields_le {fields : List (String × Json)} :
    (ofFields fields).depth ≤ room + 1 ↔ ∀ f ∈ fields, f.2.depth ≤ room := by
  rw [ofFields, depth_object_le, List.forall_mem_map]

@[simp] lemma depth_tagged_le {tag : String} {body : Json} :
    (tagged tag body).depth ≤ room + 1 ↔ body.depth ≤ room := by
  simp [tagged]

lemma depth_ofList_pos {α : Type} (write : α → Json) (xs : List α) : 0 < (ofList write xs).depth := by
  simp [ofList, depth]

@[simp] lemma depth_array_ne_zero (items : List Json) : (Json.array items).depth ≠ 0 := by
  simp [depth]

@[simp] lemma depth_ofFields_ne_zero (fields : List (String × Json)) : (ofFields fields).depth ≠ 0 := by
  simp [ofFields, depth]

@[simp] lemma depth_tagged_ne_zero (tag : String) (body : Json) : (tagged tag body).depth ≠ 0 :=
  depth_ofFields_ne_zero _

end Depth

def Fits {α : Type} (read : Reader α) (write : α → Json) : Prop :=
  ∀ ⦃room j a⦄, read room j = some a → (write a).depth ≤ room

structure Codec {α : Type} (read : Reader α) (write : α → Json) : Prop where
  read_write (room : Nat) (a : α) : read room (write a) = if (write a).depth ≤ room then some a else none
  fits : Fits read write

lemma mapM_eq_ite {α β : Type} {f : β → Option α} {w : α → β} {p : α → Prop} [DecidablePred p]
    {xs : List α} (h : ∀ x ∈ xs, f (w x) = if p x then some x else none) :
    (xs.map w).mapM f = if ∀ x ∈ xs, p x then some xs else none := by
  induction xs with
  | nil => simp
  | cons x xs ih =>
    rw [List.forall_mem_cons] at h
    rw [List.map_cons, List.mapM_cons, h.1, ih h.2]
    simp only [List.forall_mem_cons, ite_and]
    split
    · split <;> rfl
    · rfl

lemma mapM_insert {α β : Type} {f : α → Option β} {x : α} {y : β} (h : f x = some y) (before after : List α) :
    (before ++ x :: after).mapM f =
      ((before ++ after).mapM f).map fun ys => ys.take before.length ++ y :: ys.drop before.length := by
  induction before with
  | nil =>
    simp only [List.nil_append, List.mapM_cons, h]
    cases after.mapM f <;> rfl
  | cons z before ih =>
    rw [List.cons_append, List.mapM_cons, ih, List.cons_append, List.mapM_cons]
    cases f z with
    | none => rfl
    | some w => cases (before ++ after).mapM f <;> rfl

namespace Fits

variable {α β : Type} {read : Reader α} {write : α → Json}

lemma nullable (h : Fits read write) : Fits (Reader.nullable read) (ofOption write) := by
  intro room j a hr
  cases a with
  | none => exact Nat.zero_le _
  | some a =>
    unfold Reader.nullable at hr
    split at hr
    · cases hr
    · obtain ⟨b, hb, hs⟩ := Option.map_eq_some_iff.mp hr
      cases hs
      exact h hb

lemma list (h : Fits read write) : Fits (Reader.list read) (ofList write) := by
  intro room j xs hr
  cases room with
  | zero => cases hr
  | succ room =>
    cases j with
    | array items =>
      rw [ofList, depth_array_le, List.forall_mem_map]
      intro x hx
      obtain ⟨j, _, hj⟩ := Fallible.exists_of_mem_forall₂ (Fallible.mapM_eq_some_iff.mp hr).flip hx
      exact h hj
    | _ => cases hr

lemma pair {read' : Reader β} {write' : β → Json} (h : Fits read write) (h' : Fits read' write') :
    Fits (Reader.pair read read') fun p => .array [write p.1, write' p.2] := by
  intro room j p hr
  unfold Reader.pair at hr
  split at hr
  · obtain ⟨a, ha, hr⟩ := Option.bind_eq_some_iff.mp hr
    obtain ⟨b, hb, hr⟩ := Option.bind_eq_some_iff.mp hr
    cases hr
    simp [h ha, h' hb]
  · cases hr

lemma table (h : Fits read write) :
    Fits (Reader.table read) fun t => ofFields (t.entries.map fun e => (e.1, write e.2)) := by
  intro room j t hr
  unfold Reader.table at hr
  split at hr
  · obtain ⟨bindings, hb, hr⟩ := Option.bind_eq_some_iff.mp hr
    cases hr
    rw [depth_ofFields_le, List.forall_mem_map]
    intro e he
    have he := Table.mem_of_mem_ofList he
    obtain ⟨m, _, hm⟩ := Fallible.exists_of_mem_forall₂ (Fallible.mapM_eq_some_iff.mp hb).flip he
    obtain ⟨k, _, hm⟩ := Option.bind_eq_some_iff.mp hm
    obtain ⟨a, ha, hm⟩ := Option.bind_eq_some_iff.mp hm
    cases hm
    exact h ha
  · cases hr

end Fits

lemma word_ofString {α : Type} (words : List (String × α)) (room : Nat) (s : String) :
    Reader.word words room (ofString s) = words.lookup s := by
  rw [ofString, Reader.word, Bytes.toString?_ofString]
  rfl

namespace Codec

variable {α β : Type} {read : Reader α} {write : α → Json}

lemma flat (hd : ∀ a, (write a).depth = 0) (h : ∀ room a, read room (write a) = some a) : Codec read write where
  read_write room a := by rw [h, if_pos (by simp [hd])]
  fits _ := by simp [hd]

lemma string : Codec Reader.string ofString :=
  flat (fun _ => rfl) fun _ s => Bytes.toString?_ofString s

lemma bool : Codec Reader.bool .bool := flat (fun _ => rfl) fun _ _ => rfl

lemma nat_ofNat {bound n : Nat} (h : n < bound) (room : Nat) : Reader.nat bound room (ofNat n) = some n :=
  if_pos h

lemma uint32 : Codec Reader.uint32 fun n => ofNat n.toNat := by
  refine flat (fun _ => rfl) fun room n => ?_
  rw [Reader.uint32, nat_ofNat n.toNat_lt_size, Option.map_some, UInt32.ofNat_toNat]

lemma uint64 : Codec Reader.uint64 fun n => ofNat n.toNat := by
  refine flat (fun _ => rfl) fun room n => ?_
  rw [Reader.uint64, nat_ofNat n.toNat_lt_size, Option.map_some, UInt64.ofNat_toNat]

lemma int64 : Codec Reader.int64 fun n => ofInt n.toInt := by
  refine flat (fun _ => rfl) fun room n => ?_
  have hle : -2 ^ 63 ≤ n.toInt := n.le_toInt
  have hlt : n.toInt < 2 ^ 63 := n.toInt_lt
  by_cases hn : n.toInt < 0
  · have habs : -(n.toInt.natAbs : Int) = n.toInt := by omega
    have hb : 0 < n.toInt.natAbs ∧ n.toInt.natAbs ≤ 1 <<< 63 := by
      simp only [Nat.shiftLeft_eq]
      omega
    simp only [ofInt, decide_eq_true hn, Reader.int64, if_pos hb, habs, Int64.ofInt_toInt]
  · have habs : (n.toInt.natAbs : Int) = n.toInt := by omega
    have hb : n.toInt.natAbs < 1 <<< 63 := by
      simp only [Nat.shiftLeft_eq]
      omega
    simp only [ofInt, decide_eq_false hn, Reader.int64, if_pos hb, habs, Int64.ofInt_toInt]

lemma word {words : List (String × α)} {name : α → String} (h : ∀ a, words.lookup (name a) = some a) :
    Codec (Reader.word words) fun a => ofString (name a) :=
  flat (fun _ => rfl) fun room a => (word_ofString words room (name a)).trans (h a)

lemma nullable (h : Codec read write) (hn : ∀ a, write a ≠ .null) :
    Codec (Reader.nullable read) (ofOption write) where
  read_write room a := by
    cases a with
    | none => simp [ofOption, Reader.nullable, depth]
    | some a =>
      rw [ofOption, Reader.nullable.eq_2 _ _ _ (hn a), h.read_write]
      split <;> rfl
  fits := h.fits.nullable

lemma list (h : Codec read write) : Codec (Reader.list read) (ofList write) where
  read_write room xs := by
    cases room with
    | zero => simp [Reader.list, ofList]
    | succ room => simp [Reader.list, itemsOf, ofList, mapM_eq_ite fun x _ => h.read_write room x]
  fits := h.fits.list

lemma strings : Codec (Reader.list .string) ofStrings := string.list

lemma pair {read' : Reader β} {write' : β → Json} (h : Codec read write) (h' : Codec read' write') :
    Codec (Reader.pair read read') fun p => .array [write p.1, write' p.2] where
  read_write room p := by
    cases room with
    | zero => simp [Reader.pair]
    | succ room =>
      simp only [Reader.pair, h.read_write, h'.read_write, depth_array_le, List.forall_mem_cons,
        ite_and]
      split
      · split <;> rfl
      · rfl
  fits := h.fits.pair h'.fits

lemma table (h : Codec read write) :
    Codec (Reader.table read) fun t => ofFields (t.entries.map fun e => (e.1, write e.2)) where
  read_write room t := by
    cases room with
    | zero => simp [Reader.table]
    | succ room =>
      have hm (e : String × α) : (do return (← (Bytes.ofString e.1).toString?, ← read room (write e.2))) =
          if (write e.2).depth ≤ room then some e else none := by
        rw [Bytes.toString?_ofString, h.read_write]
        split <;> rfl
      simp only [Reader.table, ofFields, List.map_map, depth_object_le, List.forall_mem_map, Function.comp_apply]
      rw [mapM_eq_ite fun e _ => hm e]
      split
      · exact congrArg some t.ofList_entries
      · rfl
  fits := h.fits.table

end Codec

section Guards

variable {α β : Type} {p : Prop} [Decidable p]

@[simp] lemma bind_ite (x : Option α) (f : α → Option β) :
    (if p then x else none).bind f = if p then x.bind f else none := by
  split <;> rfl

@[simp] lemma map_ite (x : Option α) (f : α → β) :
    (if p then x else none).map f = if p then x.map f else none := by
  split <;> rfl

end Guards

namespace Fields

variable {α β : Type} {name : String} {fs : List (String × Json)}

@[simp] lemma bind_apply (x : Fields α) (f : α → Fields β) (st : Record) :
    (x >>= f) st = (x st).bind fun p => f p.1 p.2 := rfl

@[simp] lemma map_apply (f : α → β) (x : Fields α) (st : Record) :
    (f <$> x) st = (x st).map fun p => (f p.1, p.2) := by
  change (x st).bind _ = _
  cases x st <;> rfl

@[simp] lemma lift_apply (x : Option α) (st : Record) : (liftM x : Fields α) st = x.map (·, st) := by
  cases x <;> rfl

@[simp] lemma required_named (name : String) (read : Json → Option α) (fs : List (String × Json)) :
    required name read (.named fs) =
      match fs.filter (·.1 = name) with
      | [(_, j)] => (read j).map (·, .named fs)
      | _ => none := by
  rw [required, bind_apply, next]
  generalize fs.filter (·.1 = name) = found
  match found with
  | [] => rfl
  | [(_, j)] => exact lift_apply (read j) _
  | _ :: _ :: _ => rfl

@[simp] lemma defaulted_named (name : String) (absent : α) (read : Json → Option α) (fs : List (String × Json)) :
    defaulted name absent read (.named fs) =
      match fs.filter (·.1 = name) with
      | [] => some (absent, .named fs)
      | [(_, j)] => (read j).map (·, .named fs)
      | _ => none := by
  rw [defaulted, bind_apply, next]
  generalize fs.filter (·.1 = name) = found
  match found with
  | [] => rfl
  | [(_, j)] => exact lift_apply (read j) _
  | _ :: _ :: _ => rfl

@[simp] lemma optional_named (name : String) (read : Reader α) (room : Nat) (fs : List (String × Json)) :
    optional name (read room) (.named fs) =
      match fs.filter (·.1 = name) with
      | [] => some (none, .named fs)
      | [(_, j)] => (Reader.nullable read room j).map (·, .named fs)
      | _ => none := by
  rw [optional, bind_apply, next]
  generalize fs.filter (·.1 = name) = found
  match found with
  | [] => rfl
  | [(_, .null)] => rfl
  | [(_, .bool _)] | [(_, .number _)] | [(_, .string _)] | [(_, .array _)] | [(_, .object _)] =>
    simp [Reader.nullable, Function.comp_def]
  | _ :: _ :: _ => rfl

lemma required_listed_cons (name : String) (read : Json → Option α) (j : Json) (rest : List Json) :
    required name read (.listed (j :: rest)) = (read j).map (·, .listed rest) :=
  lift_apply (read j) _

def given (absent : Option α) (read : Json → Option α) : List (String × Json) → Option α
  | [] => absent
  | [(_, j)] => read j
  | _ => none

lemma given_append_cons (absent : Option α) (read : Json → Option α) (before after : List (String × Json))
    (f : String × Json) :
    given absent read (before ++ f :: after) = if before ++ after = [] then read f.2 else none := by
  match before, after with
  | [], [] | [], _ :: _ | [_], _ | _ :: _ :: _, _ => rfl

lemma required_eq_given (name : String) (read : Json → Option α) (fs : List (String × Json)) :
    required name read (.named fs) = (given none read (fs.filter (·.1 = name))).map (·, .named fs) := by
  rw [required_named]
  generalize fs.filter (·.1 = name) = found
  match found with
  | [] | [_] | _ :: _ :: _ => rfl

lemma defaulted_eq_given (name : String) (absent : α) (read : Json → Option α) (fs : List (String × Json)) :
    defaulted name absent read (.named fs) =
      (given (some absent) read (fs.filter (·.1 = name))).map (·, .named fs) := by
  rw [defaulted_named]
  generalize fs.filter (·.1 = name) = found
  match found with
  | [] | [_] | _ :: _ :: _ => rfl

def Ensures (fields : Fields α) (P : α → Prop) : Prop := ∀ ⦃st a st'⦄, fields st = some (a, st') → P a

lemma ensures_pure {P : α → Prop} {a : α} (h : P a) : Ensures (pure a) P := by
  intro st b st' hb
  cases hb
  exact h

lemma ensures_bind {P : α → Prop} {Q : β → Prop} {x : Fields α} {f : α → Fields β} (hx : Ensures x P)
    (hf : ∀ a, P a → Ensures (f a) Q) : Ensures (x >>= f) Q := by
  intro st b st' h
  obtain ⟨⟨a, st₁⟩, ha, hb⟩ := Option.bind_eq_some_iff.mp h
  exact hf a (hx ha) hb

lemma ensures_lift {P : α → Prop} {x : Option α} (h : ∀ a, x = some a → P a) : Ensures (liftM x) P := by
  intro st a st' ha
  rw [lift_apply] at ha
  obtain ⟨b, hb, hp⟩ := Option.map_eq_some_iff.mp ha
  cases hp
  exact h a hb

lemma ensures_next (P : α → Prop) {f : Field → Fields α} (hg : ∀ j, Ensures (f (.given j)) P)
    (hn : Ensures (f .unnamed) P) (hl : Ensures (f .unlisted) P) : Ensures (next name >>= f) P := by
  refine ensures_bind (P := fun _ => True) (fun _ _ _ _ => trivial) fun field _ => ?_
  cases field with
  | given j => exact hg j
  | unnamed => exact hn
  | unlisted => exact hl

end Fields

namespace Fits

open Fields

variable {α β : Type} {read : Reader α} {write : α → Json} {room : Nat} {name : String} {f : α → Fields β}
  {P : β → Prop}

lemma required (h : Fits read write) (hf : ∀ a, (write a).depth ≤ room → (f a).Ensures P) :
    (Fields.required name (read room) >>= f).Ensures P := by
  refine ensures_bind (ensures_next _ (fun j => ?_) nofun nofun) hf
  exact ensures_lift fun a ha => h ha

lemma defaulted (h : Fits read write) {absent : α} (ha : (write absent).depth ≤ room)
    (hf : ∀ a, (write a).depth ≤ room → (f a).Ensures P) :
    (Fields.defaulted name absent (read room) >>= f).Ensures P := by
  refine ensures_bind (ensures_next _ (fun j => ?_) (ensures_pure ha) (ensures_pure ha)) hf
  exact ensures_lift fun a ha => h ha

lemma optional (h : Fits read write) {f : Option α → Fields β}
    (hf : ∀ a, (ofOption write a).depth ≤ room → (f a).Ensures P) :
    (Fields.optional name (read room) >>= f).Ensures P := by
  have hnone : (pure none : Fields (Option α)).Ensures fun a => (ofOption write a).depth ≤ room :=
    ensures_pure (Nat.zero_le _)
  have hsome (j : Json) : (some <$> liftM (read room j) : Fields (Option α)).Ensures fun a =>
      (ofOption write a).depth ≤ room := by
    rw [map_eq_pure_bind]
    exact ensures_bind (ensures_lift fun a ha => h ha) fun a ha => ensures_pure ha
  refine ensures_bind (ensures_next _ (fun j => ?_) hnone nofun) hf
  cases j with
  | null => exact hnone
  | bool | number | string | array | object => exact hsome _

end Fits

section Shapes

variable {α : Type}

def names? (members : List (Bytes × Json)) : Option (List (String × Json)) :=
  members.mapM fun m => do return (← m.1.toString?, m.2)

@[simp] lemma names?_ofString (fs : List (String × Json)) :
    names? (fs.map fun f => (.ofString f.1, f.2)) = some fs := by
  have hname (f : String × Json) : (do return (← (Bytes.ofString f.1).toString?, f.2)) =
      if True then some f else none := by
    rw [Bytes.toString?_ofString]
    rfl
  rw [names?, mapM_eq_ite fun f _ => hname f, if_pos fun _ _ => trivial]

lemma names?_append_cons (before after : List (Bytes × Json)) (name : String) (j : Json) :
    names? (before ++ (.ofString name, j) :: after) =
      (names? before).bind fun p => (names? after).map fun q => p ++ (name, j) :: q := by
  rw [names?, List.mapM_append, List.mapM_cons, Bytes.toString?_ofString]
  change ((names? before).bind fun p => ((names? after).bind fun q => some ((name, j) :: q)).bind fun r =>
    some (p ++ r)) = _
  cases names? before with
  | none => rfl
  | some p => cases names? after <;> rfl

lemma record_object (fields : Fields α) (members : List (Bytes × Json)) :
    record fields (.object members) = (names? members).bind fun fs => (fields (.named fs)).map (·.1) := by
  rw [record, ← names?]
  refine congrArg (Option.bind _) (funext fun fs => ?_)
  change ((fields (.named fs)).bind fun p => some p.1) = _
  cases fields (.named fs) <;> rfl

def complete? : α × Record → Option α
  | (a, .listed []) => some a
  | _ => none

lemma complete?_map {β : Type} (f : α → β) (p : α × Record) : complete? (f p.1, p.2) = (complete? p).map f := by
  match p with
  | (_, .named _) | (_, .listed []) | (_, .listed (_ :: _)) => rfl

lemma record_array (fields : Fields α) (items : List Json) :
    record fields (.array items) = (fields (.listed items)).bind complete? := by
  rw [record]
  refine congrArg (Option.bind _) (funext fun p => ?_)
  match p with
  | (_, .named _) | (_, .listed []) | (_, .listed (_ :: _)) => rfl

lemma record_ofFields (fields : Fields α) (fs : List (String × Json)) :
    record fields (ofFields fs) = (fields (.named fs)).map (·.1) := by
  rw [ofFields, record_object, names?_ofString, Option.bind_some]

@[simp] lemma reader_record_ofFields (fields : Nat → Fields α) (room : Nat) (fs : List (String × Json)) :
    Reader.record fields room (ofFields fs) =
      if 0 < room then (fields (room - 1) (.named fs)).map (·.1) else none := by
  cases room with
  | zero => rfl
  | succ room => exact record_ofFields (fields room) fs

lemma of_record {fields : Nat → Fields α} {P : Nat → α → Prop} (h : ∀ room, (fields room).Ensures (P room))
    {room : Nat} {j : Json} {a : α} (hr : Reader.record fields room j = some a) : 0 < room ∧ P (room - 1) a := by
  cases room with
  | zero => cases hr
  | succ room =>
    refine ⟨Nat.succ_pos room, ?_⟩
    rw [Reader.record] at hr
    unfold record at hr
    split at hr
    · obtain ⟨named, _, hr⟩ := Option.bind_eq_some_iff.mp hr
      obtain ⟨⟨b, st⟩, hb, hr⟩ := Option.bind_eq_some_iff.mp hr
      cases hr
      exact h room hb
    · -- the fields may also be given in order, without their names
      obtain ⟨⟨b, st⟩, hb, hr⟩ := Option.bind_eq_some_iff.mp hr
      split at hr
      · cases hr
        rename_i heq
        cases heq
        exact h room hb
      · cases hr
    · cases hr

lemma Codec.record {fields : Nat → Fields α} {members : α → List (String × Json)}
    (hw : ∀ room a, (fields room (.named (members a))).map (·.1) =
      if ∀ f ∈ members a, f.2.depth ≤ room then some a else none)
    (hf : ∀ room, (fields room).Ensures fun a => ∀ f ∈ members a, f.2.depth ≤ room) :
    Codec (Reader.record fields) fun a => ofFields (members a) where
  read_write room a := by
    cases room with
    | zero => simp
    | succ room =>
      simp only [depth_ofFields_le, ← hw]
      exact record_ofFields (fields room) (members a)
  fits {room j a} h := by
    obtain ⟨hroom, ha⟩ := of_record hf h
    obtain ⟨room, rfl⟩ := Nat.exists_eq_add_one.mpr hroom
    exact depth_ofFields_le.mpr ha

@[simp] lemma choice_ofString (room : Nat) (tag : String) : choice room (ofString tag) = some (.bare tag, room) := by
  rw [ofString, choice, Bytes.toString?_ofString]
  rfl

@[simp] lemma choice_tagged (room : Nat) (tag : String) (body : Json) :
    choice room (tagged tag body) = if 0 < room then some (.tagged tag body, room - 1) else none := by
  cases room with
  | zero => rfl
  | succ room =>
    rw [tagged, ofFields, List.map_singleton, choice, Bytes.toString?_ofString]
    rfl

lemma room_of_choice {room left : Nat} {j body : Json} {tag : String}
    (h : choice room j = some (.tagged tag body, left)) : room = left + 1 := by
  unfold choice at h
  split at h
  · obtain ⟨tag, _, h⟩ := Option.map_eq_some_iff.mp h
    cases h
  · obtain ⟨tag, _, h⟩ := Option.map_eq_some_iff.mp h
    cases h
    rfl
  · cases h

lemma fits_tagged {fields : Nat → Fields α} {write : α → Json}
    (h : ∀ room, (fields room).Ensures fun a => (write a).depth ≤ room + 2) {left : Nat} {j : Json} {a : α}
    (hr : Reader.record fields left j = some a) : (write a).depth ≤ left + 1 := by
  obtain ⟨hleft, ha⟩ := of_record h hr
  omega

lemma fits_tagged_map {β : Type} {read : Reader β} {write' : β → Json} (h : Fits read write') {f : β → α}
    {left : Nat} {j : Json} {a : α} (hr : (read left j).map f = some a) {write : α → Json} {tag : String}
    (hw : ∀ b, write (f b) = tagged tag (write' b)) : (write a).depth ≤ left + 1 := by
  obtain ⟨b, hb, rfl⟩ := Option.map_eq_some_iff.mp hr
  rw [hw, depth_tagged_le]
  exact h hb

end Shapes

end DeviceLink.Json
