import DeviceLink.Ordered

namespace DeviceLink

structure Table (β : Type) where
  entries : List (String × β)
  ascending : entries.Pairwise fun a b => a.1 < b.1
  deriving DecidableEq

namespace Ordered

variable {β : Type}

theorem mem_put {key : String} {value : β} {t : List (String × β)} {b : String × β}
    (h : b ∈ put key value t) : b = (key, value) ∨ b ∈ t := by
  induction t with
  | nil => simp_all [put]
  | cons c rest ih =>
    simp only [put] at h
    split at h
    · simp only [List.mem_cons] at h ⊢
      rcases h with rfl | h
      · exact .inl rfl
      · exact .inr h
    · split at h
      · simp only [List.mem_cons] at h ⊢
        rcases h with rfl | h
        · exact .inr (.inl rfl)
        · exact (ih h).imp_right .inr
      · simp only [List.mem_cons] at h ⊢
        rcases h with rfl | h
        · exact .inl rfl
        · exact .inr (.inr h)

theorem pairwise_put (key : String) (value : β) {t : List (String × β)}
    (h : t.Pairwise fun a b => a.1 < b.1) : (put key value t).Pairwise fun a b => a.1 < b.1 := by
  induction t with
  | nil => simp [put]
  | cons c rest ih =>
    rw [List.pairwise_cons] at h
    simp only [put]
    split
    · rename_i hlt
      refine List.pairwise_cons.2 ⟨fun b hb => ?_, List.pairwise_cons.2 h⟩
      rcases List.mem_cons.1 hb with rfl | hb
      · exact hlt
      · exact String.lt_trans hlt (h.1 b hb)
    · split
      · rename_i hlt
        refine List.pairwise_cons.2 ⟨fun b hb => ?_, ih h.2⟩
        rcases mem_put hb with rfl | hb
        · exact hlt
        · exact h.1 b hb
      · rename_i hnlt hngt
        obtain rfl : key = c.1 := String.le_antisymm (String.not_lt.1 hngt) (String.not_lt.1 hnlt)
        exact List.pairwise_cons.2 ⟨h.1, h.2⟩

end Ordered

namespace Table

variable {β : Type}

def empty : Table β := ⟨[], .nil⟩

instance : Inhabited (Table β) := ⟨empty⟩

def insert (t : Table β) (key : String) (value : β) : Table β :=
  ⟨Ordered.put key value t.entries, Ordered.pairwise_put key value t.ascending⟩

def ofList (bindings : List (String × β)) : Table β :=
  bindings.foldl (fun t b => t.insert b.1 b.2) empty

def find? (t : Table β) (key : String) : Option β := t.entries.lookup key

def extend (t : Table (List β)) (keys : List String) (more : List β) : Table (List β) :=
  keys.foldl (fun t key => t.insert key ((t.find? key).getD [] ++ more)) t

end Table

end DeviceLink
