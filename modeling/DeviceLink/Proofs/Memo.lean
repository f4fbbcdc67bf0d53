import DeviceLink.Proofs.Loading

namespace DeviceLink

lemma Source.name_of_fetch {source : Source} {name : String} {m : Ir.Module} (h : source.fetch name = .ok m) :
    m.name = name := by
  unfold fetch at h
  split at h
  · cases h
  · split at h
    · cases h
    · split at h
      · cases h
        assumption
      · cases h

namespace Loader

structure Request where
  id : ModuleId
  source : Source

def serve (l : Loader) : List Request → List (Except Fault Ir.Module) × Loader
  | [] => ([], l)
  | r :: rest =>
    let next := l.load r.source r.id
    let (answers, l) := next.2.serve rest
    (next.1 :: answers, l)

def first? (requests : List Request) (id : ModuleId) : Option Request := requests.find? (·.id = id)

def slotBehind (requests : List Request) (id : ModuleId) (name : String) : Slot :=
  match first? requests id with
  | none => { name }
  | some r => { name, outcome := some (r.source.fetch name), reads := 1 }

def reply (names : List String) (requests : List Request) (id : ModuleId) : Except Fault Ir.Module :=
  match names[id]?, first? requests id with
  | some name, some r => answer name (r.source.fetch name)
  | _, _ => .error (.internal (.noSlot id))

def Remembers (l : Loader) (names : List String) (past : List Request) : Prop :=
  ∀ id, l.slots[id]? = names[id]?.map (slotBehind past id)

variable {l : Loader} {names : List String} {past requests : List Request} {r : Request} {id : ModuleId}

lemma first?_append (past rest : List Request) (id : ModuleId) :
    first? (past ++ rest) id = (first? past id).or (first? rest id) :=
  List.find?_append

lemma first?_append_self (past : List Request) (r : Request) :
    first? (past ++ [r]) r.id = (first? past r.id).or (some r) := by
  simp [first?]

lemma first?_append_of_ne (past : List Request) (h : id ≠ r.id) : first? (past ++ [r]) id = first? past id := by
  simp [first?, Ne.symm h]

lemma reply_append (names : List String) (past rest : List Request) (r : Request) :
    reply names (past ++ r :: rest) r.id = reply names (past ++ [r]) r.id := by
  have hfirst : first? (past ++ r :: rest) r.id = first? (past ++ [r]) r.id := by
    rw [List.append_cons, first?_append, first?_append_self]
    cases first? past r.id <;> rfl
  rw [reply, reply, hfirst]

lemma reply_of_first? {name : String} (hname : names[id]? = some name) (hr : first? requests id = some r) :
    reply names requests id = answer name (r.source.fetch name) := by
  rw [reply, hname, hr]

lemma reply_eq_ok_iff {m : Ir.Module} :
    reply names requests id = .ok m ↔
      ∃ name r, names[id]? = some name ∧ first? requests id = some r ∧ r.source.fetch name = .ok m := by
  constructor
  · intro h
    unfold reply at h
    split at h
    · exact ⟨_, _, ‹_›, ‹_›, answer_eq_ok_iff.mp h⟩
    · cases h
  · rintro ⟨name, r, hname, hr, hm⟩
    rw [reply_of_first? hname hr, answer_eq_ok_iff]
    exact hm

lemma remembers_ofNames (names : List String) : (ofNames names).Remembers names [] := by
  intro id
  exact List.getElem?_map

namespace Remembers

lemma concat (h : l.Remembers names past) {l' : Loader}
    (hself : l'.slots[r.id]? = names[r.id]?.map (slotBehind (past ++ [r]) r.id))
    (hother : ∀ id, id ≠ r.id → l'.slots[id]? = l.slots[id]?) : l'.Remembers names (past ++ [r]) := by
  intro id
  by_cases hid : id = r.id
  · rw [hid]
    exact hself
  · have hslot : slotBehind (past ++ [r]) id = slotBehind past id := by
      funext name
      rw [slotBehind, slotBehind, first?_append_of_ne past hid]
    rw [hother id hid, hslot]
    exact h id

lemma load (h : l.Remembers names past) (r : Request) :
    (l.load r.source r.id).1 = reply names (past ++ [r]) r.id ∧
      (l.load r.source r.id).2.Remembers names (past ++ [r]) := by
  have hfirst := first?_append_self past r
  have hslot := h r.id
  cases hname : names[r.id]? with
  | none =>
    rw [hname, Option.map_none] at hslot
    have hload : l.load r.source r.id = (.error (.internal (.noSlot r.id)), l) := by
      rw [Loader.load, hslot]
    rw [hload]
    refine ⟨by rw [reply, hname], h.concat ?_ fun _ _ => rfl⟩
    rw [hslot, hname, Option.map_none]
  | some name =>
    rw [hname, Option.map_some, slotBehind] at hslot
    cases hpast : first? past r.id with
    | some q =>
      rw [hpast, Option.some_or] at hfirst
      rw [hpast] at hslot
      have hload : l.load r.source r.id = (answer name (q.source.fetch name), l) := by
        rw [Loader.load, hslot]
      rw [hload]
      refine ⟨(reply_of_first? hname hfirst).symm, h.concat ?_ fun _ _ => rfl⟩
      rw [hslot, hname, Option.map_some, slotBehind, hfirst]
    | none =>
      rw [hpast, Option.none_or] at hfirst
      rw [hpast] at hslot
      have hload : l.load r.source r.id = (answer name (r.source.fetch name),
          ⟨l.slots.set r.id { name, outcome := some (r.source.fetch name), reads := 1 }⟩) := by
        rw [Loader.load, hslot]
      rw [hload]
      refine ⟨(reply_of_first? hname hfirst).symm, h.concat ?_ fun id hid => List.getElem?_set_ne (Ne.symm hid)⟩
      rw [List.getElem?_set_self (List.getElem?_eq_some_iff.mp hslot).1, hname, Option.map_some, slotBehind, hfirst]

lemma serve (h : l.Remembers names past) (requests : List Request) :
    (l.serve requests).1 = requests.map (fun r => reply names (past ++ requests) r.id) ∧
      (l.serve requests).2.Remembers names (past ++ requests) := by
  induction requests generalizing l past with
  | nil => exact ⟨rfl, by rwa [List.append_nil]⟩
  | cons r rest ih =>
    obtain ⟨hanswer, hload⟩ := h.load r
    obtain ⟨hrest, hserve⟩ := ih hload
    rw [← List.append_cons] at hrest hserve
    refine ⟨?_, hserve⟩
    rw [Loader.serve, List.map_cons, reply_append, ← hanswer, ← hrest]

lemma reads_eq (h : l.Remembers names past) (id : ModuleId) :
    l.reads id = if id < names.length ∧ ∃ r ∈ past, r.id = id then 1 else 0 := by
  rw [reads, h id]
  by_cases hid : id < names.length
  · rw [List.getElem?_eq_getElem hid, Option.map_some, Option.map_some, Option.getD_some, slotBehind]
    cases hfirst : first? past id with
    | none =>
      have hnone : ∀ r ∈ past, r.id ≠ id := by simpa [first?] using hfirst
      rw [if_neg fun hc => hc.2.elim fun r hr => hnone r hr.1 hr.2]
    | some r =>
      rw [if_pos ⟨hid, r, List.mem_of_find?_eq_some hfirst, by simpa using List.find?_some hfirst⟩]
  · rw [List.getElem?_eq_none (Nat.le_of_not_lt hid), if_neg fun hc => hid hc.1]
    rfl

lemma get?_eq_some_iff (h : l.Remembers names past) {m : Ir.Module} :
    l.get? id = some m ↔ reply names past id = .ok m := by
  rw [get?, h id, reply_eq_ok_iff]
  cases names[id]? with
  | none => simp
  | some name =>
    rw [Option.map_some, Option.bind_some, slotBehind]
    cases first? past id with
    | none => simp [Slot.module?]
    | some r => cases hfetch : r.source.fetch name <;> simp [Slot.module?, hfetch]

lemma load_of_length_le (h : l.Remembers names past) (hid : names.length ≤ id) (source : Source) :
    l.load source id = (.error (.internal (.noSlot id)), l) := by
  rw [Loader.load, h id, List.getElem?_eq_none hid]
  rfl

end Remembers

def IsFirst (requests : List Request) (i : Nat) (r : Request) : Prop :=
  requests[i]? = some r ∧ ∀ j < i, ∀ q ∈ requests[j]?, q.id ≠ r.id

lemma first?_eq_some_iff : first? requests id = some r ↔ ∃ i, IsFirst requests i r ∧ r.id = id := by
  simp only [first?, List.find?_eq_some_iff_getElem, IsFirst, decide_eq_true_eq, Bool.not_eq_true',
    decide_eq_false_iff_not]
  constructor
  · rintro ⟨rfl, i, hi, rfl, hbefore⟩
    refine ⟨i, ⟨List.getElem?_eq_getElem hi, fun j hj q hq => ?_⟩, rfl⟩
    obtain ⟨hlt, rfl⟩ := List.getElem?_eq_some_iff.mp hq
    exact hbefore j hj
  · rintro ⟨i, ⟨hr, hbefore⟩, rfl⟩
    obtain ⟨hi, rfl⟩ := List.getElem?_eq_some_iff.mp hr
    exact ⟨rfl, i, hi, rfl, fun j hj => hbefore j hj _ (List.getElem?_eq_getElem (hj.trans hi))⟩

lemma exists_first? (h : r ∈ requests) : ∃ q, first? requests r.id = some q := by
  apply Option.isSome_iff_exists.mp
  exact List.find?_isSome.mpr ⟨r, h, by simp⟩

lemma reply_cases {name : String} (hname : names[r.id]? = some name) (hr : r ∈ requests) :
    (∃ m, reply names requests r.id = .ok m ∧ m.name = name) ∨
      ∃ error, reply names requests r.id = .error (.load name error) := by
  obtain ⟨q, hq⟩ := exists_first? hr
  rw [reply_of_first? hname hq]
  cases hfetch : q.source.fetch name with
  | ok m => exact .inl ⟨m, rfl, Source.name_of_fetch hfetch⟩
  | error error => exact .inr ⟨error, rfl⟩

/-- Over any run of requests, whatever the source answers by then, a module is read for its first request only. What the
first request was answered, a module of the right name or a failure to load it, every later one is answered too. -/
theorem loading_is_memoized {names : List String} {requests : List Request} {answers : List (Except Fault Ir.Module)}
    {l : Loader} (h : (ofNames names).serve requests = (answers, l)) :
    (∀ id, l.reads id = if id < names.length ∧ ∃ r ∈ requests, r.id = id then 1 else 0) ∧
    (∀ i r name, IsFirst requests i r → names[r.id]? = some name →
      answers[i]? = some (answer name (r.source.fetch name))) ∧
    (∀ i r (j : Nat) (q : Request), IsFirst requests i r → requests[j]? = some q → q.id = r.id →
      answers[j]? = answers[i]?) ∧
    (∀ (i : Nat) (r : Request) name, requests[i]? = some r → names[r.id]? = some name →
      (∃ m : Ir.Module, answers[i]? = some (.ok m) ∧ m.name = name) ∨
        ∃ error, answers[i]? = some (.error (.load name error))) ∧
    (∀ id m, l.get? id = some m ↔ ∃ i r, IsFirst requests i r ∧ r.id = id ∧ answers[i]? = some (.ok m)) ∧
    l.loadedCount = {id | ∃ i r m, IsFirst requests i r ∧ r.id = id ∧ answers[i]? = some (.ok m)}.ncard ∧
    ∀ source id, names.length ≤ id → l.load source id = (.error (.internal (.noSlot id)), l) := by
  obtain ⟨hanswers, hl⟩ := (remembers_ofNames names).serve requests
  simp only [h, List.nil_append] at hanswers hl
  have hanswer {i : Nat} {r : Request} (hr : requests[i]? = some r) :
      answers[i]? = some (reply names requests r.id) := by
    rw [hanswers, List.getElem?_map, hr, Option.map_some]
  have hget (id : ModuleId) (m : Ir.Module) :
      l.get? id = some m ↔ ∃ i r, IsFirst requests i r ∧ r.id = id ∧ answers[i]? = some (.ok m) := by
    rw [hl.get?_eq_some_iff]
    constructor
    · intro hm
      obtain ⟨name, r, _, hr, _⟩ := reply_eq_ok_iff.mp hm
      obtain ⟨i, hi, rfl⟩ := first?_eq_some_iff.mp hr
      exact ⟨i, r, hi, rfl, (hanswer hi.1).trans (congrArg some hm)⟩
    · rintro ⟨i, r, hi, rfl, ha⟩
      exact Option.some.inj ((hanswer hi.1).symm.trans ha)
  refine ⟨hl.reads_eq, fun i r name hi hname => ?_, fun i r j q hi hq hid => ?_, fun i r name hr hname => ?_, hget, ?_,
    fun source id hid => hl.load_of_length_le hid source⟩
  · rw [hanswer hi.1, reply_of_first? hname (first?_eq_some_iff.mpr ⟨i, hi, rfl⟩)]
  · rw [hanswer hi.1, hanswer hq, hid]
  · rw [hanswer hr]
    refine (reply_cases hname (List.mem_of_getElem? hr)).imp ?_ ?_
    · rintro ⟨m, hm, he⟩
      exact ⟨m, congrArg some hm, he⟩
    · rintro ⟨error, he⟩
      exact ⟨error, congrArg some he⟩
  · rw [loadedCount_eq_ncard]
    congr 1
    ext id
    simp only [Set.mem_ofPred_eq, isLoaded, Option.isSome_iff_exists, hget]
    constructor
    · rintro ⟨m, i, r, hi⟩
      exact ⟨i, r, m, hi⟩
    · rintro ⟨i, r, m, hi⟩
      exact ⟨m, i, r, hi⟩

def flaky : List Request :=
  let lost : Source := fun _ => .error "gone"
  let found := Linked.twins.source
  [⟨0, lost⟩, ⟨1, found⟩, ⟨0, found⟩, ⟨1, lost⟩, ⟨2, found⟩]

theorem loading_is_memoized_flaky :
    ∃ answers l m, (ofNames ["app", "lib"]).serve flaky = (answers, l) ∧
      answers[2]? = some (.error (.load "app" (.unavailable "gone"))) ∧ answers[3]? = some (.ok m) ∧ m.name = "lib" ∧
      l.reads 0 = 1 ∧ l.reads 1 = 1 ∧ l.reads 2 = 0 ∧ l.get? 1 = some m := by
  obtain ⟨m, hm⟩ : ∃ m, Linked.twins.source.fetch "lib" = .ok m := Fallible.exists_of_isOk (by decide +kernel)
  obtain ⟨hreads, hfirst, hlater, _, hget, _⟩ := @loading_is_memoized ["app", "lib"] flaky _ _ rfl
  have happ : IsFirst flaky 0 ⟨0, fun _ => .error "gone"⟩ := ⟨rfl, nofun⟩
  have hlib : IsFirst flaky 1 ⟨1, Linked.twins.source⟩ := by
    refine ⟨rfl, fun j hj q hq => ?_⟩
    obtain rfl : j = 0 := by omega
    cases hq
    decide
  have hlost := hfirst 0 _ "app" happ rfl
  have hfound := hfirst 1 _ "lib" hlib rfl
  rw [hm] at hfound
  refine ⟨_, _, m, rfl, (hlater 0 _ 2 _ happ rfl rfl).trans hlost, (hlater 1 _ 3 _ hlib rfl rfl).trans hfound,
    Source.name_of_fetch hm, ?_, ?_, ?_, (hget 1 m).mpr ⟨1, _, hlib, rfl, hfound⟩⟩
  · rw [hreads, if_pos ⟨by decide, _, List.mem_of_getElem? happ.1, rfl⟩]
  · rw [hreads, if_pos ⟨by decide, _, List.mem_of_getElem? hlib.1, rfl⟩]
  · rw [hreads, if_neg fun h => absurd h.1 (by decide)]

end Loader

end DeviceLink
