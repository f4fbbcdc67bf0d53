import DeviceLink.Ir.Builder
import DeviceLink.Proofs.Flows

/-! A builder numbers temporaries and blocks in the order in which they are asked for, also for calls that fail. So
whatever is called in whatever order, the function under construction defines no temporary twice and has no two blocks
of one number, and the block that instructions are added to is one of its blocks. -/

namespace DeviceLink.Ir

namespace Function

def labels (f : Function) : List Label := f.blocks.map Block.id

def temps (f : Function) : List Temp := f.params.map Prod.fst ++ f.code.filterMap Instr.result?

variable {f : Function} {label : Label}

lemma isNone_block?_iff : (f.block? label).isNone = true ↔ label ∉ f.labels := by
  simp [block?, labels]

lemma temps_addParameter (f : Function) (t : Temp) (type : Ty) :
    { f with params := f.params ++ [(t, type)] }.temps.Perm (f.temps ++ [t]) := by
  simp only [temps, List.map_append, List.append_assoc]
  exact .append_left _ List.perm_append_comm

lemma labels_addBlock (f : Function) (label : Label) :
    { f with blocks := f.blocks ++ [({ id := label } : Block)] }.labels = f.labels ++ [label] :=
  List.map_append

lemma temps_addBlock (f : Function) (label : Label) :
    { f with blocks := f.blocks ++ [({ id := label } : Block)] }.temps = f.temps := by
  simp [temps, code]

lemma exists_modifyBlock (h : label ∈ f.labels) (i : Instr) :
    ∃ before k after, f.blocks = before ++ k :: after ∧
      (f.modifyBlock label (·.add i)).blocks = before ++ k.add i :: after := by
  obtain ⟨k, hk, hid⟩ := List.mem_map.mp h
  have hlt : f.blocks.findIdx (·.id = label) < f.blocks.length :=
    List.findIdx_lt_length_of_exists ⟨k, hk, decide_eq_true hid⟩
  obtain ⟨before, k, after, hblocks, _, hmodify⟩ := List.exists_of_modify (·.add i) hlt
  exact ⟨before, k, after, hblocks, hmodify⟩

lemma labels_modifyBlock_add (h : label ∈ f.labels) (i : Instr) :
    (f.modifyBlock label (·.add i)).labels = f.labels := by
  obtain ⟨before, k, after, hblocks, hmodify⟩ := exists_modifyBlock h i
  rw [labels, labels, hblocks, hmodify, List.map_append, List.map_append]
  rfl

lemma temps_modifyBlock_add (h : label ∈ f.labels) (i : Instr) :
    (f.modifyBlock label (·.add i)).temps.Perm (f.temps ++ i.result?.toList) := by
  obtain ⟨before, k, after, hblocks, hmodify⟩ := exists_modifyBlock h i
  have hcode : (f.modifyBlock label (·.add i)).code.Perm (f.code ++ [i]) := by
    rw [code, code, hblocks, hmodify]
    simp only [Block.add, List.flatMap_append, List.flatMap_cons, List.append_assoc]
    -- The instruction stands in front of the code of later blocks.
    refine .append_left _ (.append_left _ ?_)
    exact List.perm_append_comm
  have hresult : [i].filterMap Instr.result? = i.result?.toList := by
    cases h : i.result? <;> simp [h]
  rw [temps, temps, List.append_assoc, ← hresult, ← List.filterMap_append]
  exact .append_left _ (hcode.filterMap _)

end Function

namespace Builder

inductive Call where
  | newTemp
  | newLabel
  | createFunction (f : Function)
  | addParameter (type : Ty)
  | createBlock
  | switchTo (label : Label)
  | binary (op : BinaryOp) (lhs rhs : Operand) (type : Ty)
  | load (address : Operand) (type : Ty)
  | store (value address : Operand)
  | alloca (type : Ty)
  | element (base : Operand) (indices : List Operand) (type : Ty)
  | call (callee : String) (args : List Operand) (type : Ty)
  | dispatch (capability : String) (receiver : Operand) (args : List Operand) (type : Ty)
  | spaceCast (address : Operand) (type : Ty) (target : Space)
  | spaceTest (address : Operand) (space : Space)
  | cast (value : Operand) (type : Ty)
  | select (condition ifTrue ifFalse : Operand) (type : Ty)
  | phi (incoming : List (Operand × Label)) (type : Ty)
  | ret (value : Option Operand)
  | branch (target : Label)
  | branchIf (condition : Operand) (ifTrue ifFalse : Label)
  | setLocation (place : Location)
  | isTerminated
  | finish

namespace Call

def action : Call → Build Unit
  | .newTemp => discard Builder.newTemp
  | .newLabel => discard Builder.newLabel
  | .createFunction f => Builder.createFunction f
  | .addParameter type => discard (Builder.addParameter type)
  | .createBlock => discard Builder.createBlock
  | .switchTo label => Builder.switchTo label
  | .binary op lhs rhs type => discard (Builder.binary op lhs rhs type)
  | .load address type => discard (Builder.load address type)
  | .store value address => Builder.store value address
  | .alloca type => discard (Builder.alloca type)
  | .element base indices type => discard (Builder.element base indices type)
  | .call callee args type => discard (Builder.call callee args type)
  | .dispatch capability receiver args type => discard (Builder.dispatch capability receiver args type)
  | .spaceCast address type target => discard (Builder.spaceCast address type target)
  | .spaceTest address space => discard (Builder.spaceTest address space)
  | .cast value type => discard (Builder.cast value type)
  | .select condition ifTrue ifFalse type => discard (Builder.select condition ifTrue ifFalse type)
  | .phi incoming type => discard (Builder.phi incoming type)
  | .ret value => Builder.ret value
  | .branch target => Builder.branch target
  | .branchIf condition ifTrue ifFalse => Builder.branchIf condition ifTrue ifFalse
  | .setLocation place => Builder.setLocation place
  | .isTerminated => discard (Builder.isTerminated <$> get)
  | .finish => discard Builder.finish

def instr? (t : Temp) : Call → Option Instr
  | .binary op lhs rhs type => some (.binary t op lhs rhs type)
  | .load address type => some (.load t address type)
  | .store value address => some (.store value address)
  | .alloca type => some (.alloca t type none (.ptr type .threadLocal))
  | .element base indices type => some (.element t base indices type)
  | .call callee args type => some (.call (if type = .void then none else some t) (.function callee) args type)
  | .dispatch capability receiver args type =>
    some (.dispatch (if type = .void then none else some t) capability receiver args type)
  | .spaceCast address type target => some (.spaceCast t address target (type.inSpace target))
  | .spaceTest address space => some (.spaceTest t address space)
  | .cast value type => some (.cast t value type)
  | .select condition ifTrue ifFalse type => some (.select t condition ifTrue ifFalse type)
  | .phi incoming type => some (.phi t incoming type)
  | .ret value => some (.ret value)
  | .branch target => some (.branch target)
  | .branchIf condition ifTrue ifFalse => some (.branchIf condition ifTrue ifFalse)
  | .setLocation place => some (.location place)
  | .newTemp | .newLabel | .createFunction _ | .addParameter _ | .createBlock | .switchTo _ | .isTerminated | .finish =>
    none

def takesTemp : Call → Bool
  | .newTemp | .addParameter _ => true
  | c => (c.instr? 0).any (·.result?.isSome)

def takesLabel : Call → Bool
  | .newLabel | .createBlock => true
  | _ => false

lemma result?_of_instr? {c : Call} {t : Temp} {i : Instr} (h : c.instr? t = some i) :
    i.result? = if c.takesTemp then some t else none := by
  cases c with
  | newTemp | newLabel | createFunction | addParameter | createBlock | switchTo | isTerminated | finish => cases h
  | call _ _ type | dispatch _ _ _ type =>
    cases h
    by_cases hv : type = .void <;> simp [hv, takesTemp, instr?, Instr.result?]
  | _ =>
    cases h
    rfl

end Call

def advance (n : UInt32) (taken : Bool) : UInt32 := if taken then n + 1 else n

def Room (n : UInt32) (taken : Bool) : Prop := taken = true → n.toNat + 1 < UInt32.size

instance (n : UInt32) (taken : Bool) : Decidable (Room n taken) := inferInstanceAs (Decidable (_ → _))

def Numbered (next : UInt32) (xs : List UInt32) : Prop := xs.Nodup ∧ ∀ x ∈ xs, x < next

namespace Numbered

variable {n : UInt32} {taken : Bool} {xs ys : List UInt32}

lemma perm (h : Numbered n xs) (hp : xs.Perm ys) : Numbered n ys :=
  ⟨hp.nodup_iff.mp h.1, fun x hx => h.2 x (hp.mem_iff.mpr hx)⟩

lemma concat (h : Numbered n xs) (hn : n < n + 1) : Numbered (n + 1) (xs ++ [n]) := by
  constructor
  · rw [List.nodup_append_comm]
    exact List.nodup_cons.mpr ⟨fun hx => UInt32.lt_irrefl n (h.2 n hx), h.1⟩
  · intro x hx
    rcases List.mem_append.mp hx with hx | hx
    · exact UInt32.lt_trans (h.2 x hx) hn
    · rwa [List.mem_singleton.mp hx]

lemma append (h : Numbered n xs) (hr : Room n taken) :
    Numbered (advance n taken) (xs ++ if taken then [n] else []) := by
  cases taken with
  | false => rwa [if_neg Bool.false_ne_true, List.append_nil]
  | true =>
    refine h.concat (UInt32.lt_add_one ?_)
    rintro rfl
    exact absurd (hr rfl) (by decide)

lemma advance (h : Numbered n xs) (hr : Room n taken) : Numbered (advance n taken) xs := by
  obtain ⟨_, hlt⟩ := h.append hr
  exact ⟨h.1, fun x hx => hlt x (List.mem_append_left _ hx)⟩

end Numbered

def perform (b : Builder) (c : Call) : Except Error Unit × Builder := (c.action.run.run b).run

def performAll (b : Builder) (calls : List Call) : Builder := calls.foldl (fun b c => (b.perform c).2) b

def Fits (b : Builder) (c : Call) : Prop := Room b.nextTemp c.takesTemp ∧ Room b.nextLabel c.takesLabel

instance (b : Builder) (c : Call) : Decidable (b.Fits c) := inferInstanceAs (Decidable (_ ∧ _))

def FitsAll : Builder → List Call → Prop
  | _, [] => True
  | b, c :: rest => b.Fits c ∧ FitsAll (b.perform c).2 rest

instance decidableFitsAll : (b : Builder) → (calls : List Call) → Decidable (b.FitsAll calls)
  | _, [] => inferInstanceAs (Decidable True)
  | b, c :: rest =>
    have := decidableFitsAll (b.perform c).2 rest
    inferInstanceAs (Decidable (b.Fits c ∧ FitsAll (b.perform c).2 rest))

def numbered (b : Builder) (c : Call) : Builder :=
  { b with nextTemp := advance b.nextTemp c.takesTemp, nextLabel := advance b.nextLabel c.takesLabel }

variable {b b' : Builder} {c : Call} {i : Instr} {r : Except Error Unit}

lemma run_guarded (b : Builder) (f : Function) (label : Label) (e : Error) (update : Builder → Builder) :
    ((do
      if (f.block? label).isNone then throw e
      modify update : Build Unit).run.run b).run =
      if label ∈ f.labels then (.ok (), update b) else (.error e, b) := by
  by_cases h : label ∈ f.labels
  · rw [if_pos h, if_neg fun hnone => Function.isNone_block?_iff.mp hnone h]
    rfl
  · rw [if_neg h, if_pos (Function.isNone_block?_iff.mpr h)]
    rfl

lemma run_emit (b : Builder) (i : Instr) :
    ((emit i).run.run b).run =
      match b.function, b.block with
      | none, _ => (.error .noFunction, b)
      | some _, none => (.error .noBlock, b)
      | some f, some label =>
        if label ∈ f.labels then (.ok (), { b with function := some (f.modifyBlock label (·.add i)) })
        else (.error .lostBlock, b) := by
  obtain ⟨function, block, nextTemp, nextLabel⟩ := b
  cases function with
  | none => rfl
  | some f =>
    cases block with
    | none => rfl
    | some label =>
      exact run_guarded _ f label .lostBlock fun b => { b with function := some (f.modifyBlock label (·.add i)) }

lemma perform_switchTo (b : Builder) (label : Label) :
    b.perform (.switchTo label) =
      match b.function with
      | none => (.error .noFunction, b)
      | some f =>
        if label ∈ f.labels then (.ok (), { b with block := some label }) else (.error (.unknownBlock label), b) := by
  obtain ⟨function, block, nextTemp, nextLabel⟩ := b
  cases function with
  | none => rfl
  | some f => exact run_guarded _ f label (.unknownBlock label) fun b => { b with block := some label }

lemma run_define (b : Builder) (g : Temp → Instr) :
    ((discard (define g)).run.run b).run =
      ((emit (g b.nextTemp)).run.run { b with nextTemp := b.nextTemp + 1 }).run := by
  have h : discard (define g) = newTemp >>= fun t => emit (g t) := by
    simp [define, discard, Functor.discard, map_const]
  rw [h]
  rfl

lemma run_defineCall (b : Builder) (type : Ty) (g : Option Temp → Instr) :
    ((discard (defineCall type g)).run.run b).run =
      if type = .void then ((emit (g none)).run.run b).run
      else ((emit (g (some b.nextTemp))).run.run { b with nextTemp := b.nextTemp + 1 }).run := by
  by_cases hv : type = .void
  · have h : discard (defineCall type g) = emit (g none) := by
      simp [defineCall, hv, discard, Functor.discard, map_const]
    rw [h, if_pos hv]
  · have h : discard (defineCall type g) = discard (define fun t => g (some t)) := by
      simp [defineCall, define, hv, discard, Functor.discard, map_const]
    rw [h, if_neg hv, run_define]

lemma perform_of_instr? (h : c.instr? b.nextTemp = some i) :
    b.perform c = ((emit i).run.run (b.numbered c)).run := by
  cases c with
  | newTemp | newLabel | createFunction | addParameter | createBlock | switchTo | isTerminated | finish => cases h
  | store | ret | branch | branchIf | setLocation =>
    cases h
    rfl
  | call _ _ type | dispatch _ _ _ type =>
    cases h
    refine (run_defineCall b type _).trans ?_
    by_cases hv : type = .void <;>
      simp [hv, numbered, advance, Call.takesTemp, Call.takesLabel, Call.instr?, Instr.result?]
  | _ =>
    cases h
    exact run_define b _

def Dangling (b : Builder) : Prop := ∃ f label, b.function = some f ∧ b.block = some label ∧ label ∉ f.labels

inductive Step (b : Builder) (c : Call) : Except Error Unit → Builder → Prop
  | number : Step b c (.ok ()) (b.numbered c)
  | start (f : Function) : Step b c (.ok ()) { function := some { f with params := [], blocks := [] } }
  | parameter {f : Function} (type : Ty) (hf : b.function = some f) (hc : c.takesTemp = true) :
    Step b c (.ok ()) { b.numbered c with function := some { f with params := f.params ++ [(b.nextTemp, type)] } }
  | block {f : Function} (hf : b.function = some f) (hc : c.takesLabel = true) :
    Step b c (.ok ())
      { b.numbered c with
        function := some { f with blocks := f.blocks ++ [{ id := b.nextLabel }] }
        block := some b.nextLabel }
  | switch {f : Function} {label : Label} (hf : b.function = some f) (hl : label ∈ f.labels) :
    Step b c (.ok ()) { b.numbered c with block := some label }
  | add {f : Function} {label : Label} {i : Instr} (hf : b.function = some f) (hl : label ∈ f.labels)
    (hi : c.instr? b.nextTemp = some i) :
    Step b c (.ok ()) { b.numbered c with function := some (f.modifyBlock label (·.add i)) }
  | finish : Step b c (.ok ()) { b with function := none, block := none }
  | fail {e : Error} (he : e = .lostBlock → b.Dangling) : Step b c (.error e) (b.numbered c)

lemma step_perform (b : Builder) (c : Call) : Step b c (b.perform c).1 (b.perform c).2 := by
  -- Calls for instructions differ in what they add only; the others are taken one by one.
  cases hi : c.instr? b.nextTemp with
  | some i =>
    rw [perform_of_instr? hi, run_emit]
    split
    · exact .fail nofun
    · exact .fail nofun
    · rename_i f label hf hb
      split
      · exact .add hf ‹_› hi
      · exact .fail fun _ => ⟨f, label, hf, hb, ‹_›⟩
  | none =>
    cases c with
    | newTemp | newLabel | isTerminated => exact .number
    | createFunction f => exact .start f
    | addParameter type =>
      obtain ⟨function, block, nextTemp, nextLabel⟩ := b
      cases function with
      | none => exact .fail nofun
      | some f => exact .parameter type rfl rfl
    | createBlock =>
      obtain ⟨function, block, nextTemp, nextLabel⟩ := b
      cases function with
      | none => exact .fail nofun
      | some f => exact .block rfl rfl
    | switchTo label =>
      rw [perform_switchTo]
      split
      · exact .fail nofun
      · split
        · exact .switch ‹_› ‹_›
        · exact .fail nofun
    | finish => exact .finish
    | _ => cases hi

lemma Step.of_error {e : Error} (h : Step b c (.error e) b') : b' = b.numbered c ∧ (e = .lostBlock → b.Dangling) := by
  cases h with
  | fail he => exact ⟨rfl, he⟩

lemma Error.eq_lostBlock_of_message {e : Error} (h : e.message = "Current block not found") : e = .lostBlock := by
  cases e with
  | lostBlock => rfl
  | unknownBlock label =>
    -- The text starts with another letter, whatever number stands in it.
    have hfirst := congrArg (·.toList.head?) h
    simp [message, toString] at hfirst
  | _ => simp [message] at h

structure Sound (b : Builder) : Prop where
  temps {f : Function} (hf : b.function = some f) : Numbered b.nextTemp f.temps
  labels {f : Function} (hf : b.function = some f) : Numbered b.nextLabel f.labels
  block {label : Label} (hl : b.block = some label) : ∃ f, b.function = some f ∧ label ∈ f.labels

namespace Sound

lemma new : Sound {} where
  temps := nofun
  labels := nofun
  block := nofun

lemma of_function {f : Function} (hf : b.function = some f) (ht : Numbered b.nextTemp f.temps)
    (hl : Numbered b.nextLabel f.labels) (hb : ∀ label, b.block = some label → label ∈ f.labels) : b.Sound := by
  refine ⟨fun hf' => ?_, fun hf' => ?_, fun hb' => ⟨f, hf, hb _ hb'⟩⟩
  · cases hf.symm.trans hf'
    exact ht
  · cases hf.symm.trans hf'
    exact hl

lemma mem_labels (h : b.Sound) {f : Function} (hf : b.function = some f) {label : Label}
    (hb : b.block = some label) : label ∈ f.labels := by
  obtain ⟨f', hf', hl⟩ := h.block hb
  cases hf.symm.trans hf'
  exact hl

lemma not_dangling (h : b.Sound) : ¬ b.Dangling := by
  rintro ⟨f, label, hf, hb, hl⟩
  exact hl (h.mem_labels hf hb)

lemma numbered (h : b.Sound) (hfits : b.Fits c) : (b.numbered c).Sound where
  temps hf := (h.temps hf).advance hfits.1
  labels hf := (h.labels hf).advance hfits.2
  block := h.block

lemma step (h : b.Sound) (hfits : b.Fits c) (hs : Step b c r b') : b'.Sound := by
  have hn := h.numbered hfits
  -- A number that gets into the function is the next one; everything else is kept under counters that only grow.
  cases hs with
  | number | fail => exact hn
  | start f => exact of_function rfl ⟨.nil, nofun⟩ ⟨.nil, nofun⟩ nofun
  | parameter type hf hc =>
    have ht := (h.temps hf).append hfits.1
    rw [if_pos hc] at ht
    have hl := hn.labels hf
    exact of_function rfl (ht.perm (Function.temps_addParameter _ _ type).symm) hl fun _ => h.mem_labels hf
  | block hf hc =>
    have hl := (h.labels hf).append hfits.2
    rw [if_pos hc, ← Function.labels_addBlock] at hl
    have ht := hn.temps hf
    rw [← Function.temps_addBlock _ b.nextLabel] at ht
    refine of_function rfl ht hl fun label hb => ?_
    cases hb
    rw [Function.labels_addBlock]
    exact List.mem_append_right _ (List.mem_singleton_self _)
  | switch hf hl => exact ⟨hn.temps, hn.labels, fun hb => ⟨_, hf, Option.some.inj hb ▸ hl⟩⟩
  | @add f label i hf hl hi =>
    have ht := (h.temps hf).append hfits.1
    have hresult : i.result?.toList = if c.takesTemp then [b.nextTemp] else [] := by
      rw [Call.result?_of_instr? hi]
      split <;> rfl
    rw [← hresult] at ht
    have hlabels := Function.labels_modifyBlock_add hl i
    refine of_function rfl (ht.perm (Function.temps_modifyBlock_add hl i).symm) ?_ fun _ hb => ?_
    · rw [hlabels]
      exact hn.labels hf
    · rw [hlabels]
      exact h.mem_labels hf hb
  | finish => exact ⟨nofun, nofun, nofun⟩

lemma performAll (h : b.Sound) {calls : List Call} (hfits : b.FitsAll calls) : (b.performAll calls).Sound := by
  induction calls generalizing b with
  | nil => exact h
  | cons c rest ih => exact ih (h.step hfits.1 (step_perform b c)) hfits.2

lemma perform_of_block (h : b.Sound) (hi : c.instr? b.nextTemp = some i) {f : Function} (hf : b.function = some f)
    {label : Label} (hb : b.block = some label) :
    b.perform c = (.ok (), { b.numbered c with function := some (f.modifyBlock label (·.add i)) }) := by
  have hl := h.mem_labels hf hb
  rw [perform_of_instr? hi, run_emit]
  simp only [Builder.numbered, hf, hb, if_pos hl]

end Sound

theorem calls_keep_single_assignment {calls : List Call} (hfits : FitsAll {} calls) {b : Builder}
    (hb : performAll {} calls = b) :
    (∀ f, b.function = some f → f.labels.Nodup ∧ f.DefinesOnce ∧ ∀ t ∈ f.temps, t < b.nextTemp) ∧
    (∀ label, b.block = some label → ∃ f, b.function = some f ∧ label ∈ f.labels) ∧
    (∀ c e, (b.perform c).1 = .error e → e.message ≠ "Current block not found" ∧
      (b.perform c).2.function = b.function ∧ (b.perform c).2.block = b.block) ∧
    ∀ c i f label, c.instr? b.nextTemp = some i → b.function = some f → b.block = some label →
      (b.perform c).1 = .ok () ∧ (b.perform c).2.function = some (f.modifyBlock label (·.add i)) := by
  subst hb
  have h := Sound.new.performAll hfits
  refine ⟨fun f hf => ⟨(h.labels hf).1, h.temps hf⟩, fun label => h.block, fun c e he => ?_,
    fun c i f label hi hf hb => ?_⟩
  · have hs := step_perform (performAll {} calls) c
    rw [he] at hs
    obtain ⟨hkept, hlost⟩ := hs.of_error
    rw [hkept]
    exact ⟨fun hm => h.not_dangling (hlost (Error.eq_lostBlock_of_message hm)), rfl, rfl⟩
  · rw [h.perform_of_block hi hf hb]
    exact ⟨rfl, rfl⟩

def revisited : List Call :=
  [.ret none, .createFunction { name := "scale", result := .void, isKernel := true }, .addParameter .f32,
    .load (.temp 0) .f32, .createBlock, .alloca .f32, .createBlock, .call "helper" [.temp 2] .void, .ret none,
    .switchTo 7, .switchTo 0, .load (.temp 2) .f32]

theorem calls_keep_single_assignment_revisited :
    FitsAll {} revisited ∧ ∃ b f, performAll {} revisited = b ∧ b.function = some f ∧ f.temps = [0, 2, 3] ∧
      f.labels = [0, 1] ∧ f.DefinesOnce ∧ b.block = some 0 ∧ 3 < b.nextTemp ∧
      (b.perform (.branch 1)).2.function = some (f.modifyBlock 0 (·.add (.branch 1))) ∧
      (b.perform (.switchTo 7)).2.function = b.function := by
  have hfits : FitsAll {} revisited := by decide +kernel
  obtain ⟨hfunction, hblock, hfails, hadds⟩ := calls_keep_single_assignment hfits rfl
  obtain ⟨f, hf, hl⟩ := hblock 0 rfl
  obtain ⟨hlabels, honce, hlt⟩ := hfunction f hf
  have hexact : f.temps = [0, 2, 3] ∧ f.labels = [0, 1] := by
    cases hf
    decide +kernel
  have hfail : ((performAll {} revisited).perform (.switchTo 7)).1 = .error (.unknownBlock 7) := by
    rw [perform_switchTo, hf]
    exact congrArg Prod.fst (if_neg (by simp [hexact]))
  exact ⟨hfits, _, f, rfl, hf, hexact.1, hexact.2, honce, rfl, hlt 3 (by simp [hexact]),
    (hadds (.branch 1) _ f 0 rfl hf rfl).2, (hfails (.switchTo 7) _ hfail).2.1⟩

end Builder

end DeviceLink.Ir
