import Callsite.Inference.Walk

/-!
# What data refer to

Types, methods, nodes, calls, scopes and instances are numbered in the order in which they are
made, and all data of a session refer to them by their numbers.  Sizes say how many there are, and
data are in range if everything that they refer to is there.
-/

namespace Callsite

/-- How many types, methods, nodes, calls, scopes and instances there are. -/
structure Sizes where
  types : Nat
  methods : Nat
  nodes : Nat
  calls : Nat
  scopes : Nat
  instances : Nat
  deriving Inhabited

namespace Sizes

/-- There is at least as much of everything later. -/
structure Le (z z' : Sizes) : Prop where
  types : z.types ≤ z'.types
  methods : z.methods ≤ z'.methods
  nodes : z.nodes ≤ z'.nodes
  calls : z.calls ≤ z'.calls
  scopes : z.scopes ≤ z'.scopes
  instances : z.instances ≤ z'.instances

instance : LE Sizes := ⟨Le⟩

theorem le_refl (z : Sizes) : z ≤ z :=
  ⟨Nat.le_refl _, Nat.le_refl _, Nat.le_refl _, Nat.le_refl _, Nat.le_refl _, Nat.le_refl _⟩

theorem le_trans {a b c : Sizes} (h : a ≤ b) (h' : b ≤ c) : a ≤ c where
  types := Nat.le_trans h.types h'.types
  methods := Nat.le_trans h.methods h'.methods
  nodes := Nat.le_trans h.nodes h'.nodes
  calls := Nat.le_trans h.calls h'.calls
  scopes := Nat.le_trans h.scopes h'.scopes
  instances := Nat.le_trans h.instances h'.instances

end Sizes

/-- Data that refer to what has a number. -/
class Ranged (α : Type) where
  /-- Everything that the data refer to is there. -/
  Within : Sizes → α → Prop
  mono : ∀ {z z' : Sizes} {a : α}, z ≤ z' → Within z a → Within z' a

/-! ## Arrays -/

section

variable {α : Type} {p : α → Prop} {l : Array α} (h : ∀ a ∈ l, p a)
include h

theorem forall_push {a : α} (ha : p a) : ∀ b ∈ l.push a, p b := by
  intro b hb
  rcases Array.mem_push.1 hb with hold | rfl
  · exact h b hold
  · exact ha

theorem forall_modify (i : Nat) {f : α → α} (hf : ∀ a, p a → p (f a)) :
    ∀ b ∈ l.modify i f, p b := by
  intro b hb
  obtain ⟨j, hj, rfl⟩ := Array.mem_iff_getElem.1 hb
  rw [Array.size_modify] at hj
  rw [Array.getElem_modify]
  split
  · exact hf _ (h _ (Array.getElem_mem hj))
  · exact h _ (Array.getElem_mem hj)

theorem forall_getD (i : Nat) {a : α} (ha : p a) : p (l[i]?.getD a) := by
  cases hi : l[i]? with
  | none => exact ha
  | some b => exact h b (Array.mem_of_getElem? hi)

end

namespace Sizes

variable {α β : Type} [Ranged α] [Ranged β] {z z' : Sizes}

/-- Everything that some data refer to is there. -/
def Holds (z : Sizes) (a : α) : Prop :=
  Ranged.Within z a

theorem Holds.mono {a : α} (h : z.Holds a) (hz : z ≤ z') : z'.Holds a :=
  Ranged.mono hz h

/-! ## Numbers -/

instance : Ranged TypeId where
  Within z type := type.index < z.types
  mono hz h := Nat.lt_of_lt_of_le h hz.types

instance : Ranged MethodId where
  Within z method := method.index < z.methods
  mono hz h := Nat.lt_of_lt_of_le h hz.methods

instance : Ranged NodeId where
  Within z node := node.index < z.nodes
  mono hz h := Nat.lt_of_lt_of_le h hz.nodes

instance : Ranged CallId where
  Within z call := call.index < z.calls
  mono hz h := Nat.lt_of_lt_of_le h hz.calls

instance : Ranged ScopeId where
  Within z scope := scope.index < z.scopes
  mono hz h := Nat.lt_of_lt_of_le h hz.scopes

instance : Ranged InstanceId where
  Within z id := id.index < z.instances
  mono hz h := Nat.lt_of_lt_of_le h hz.instances

/-! ## Data that refer to nothing, and collections -/

instance : Ranged PUnit where
  Within _ _ := True
  mono _ h := h

instance : Ranged Bool where
  Within _ _ := True
  mono _ h := h

instance : Ranged Nat where
  Within _ _ := True
  mono _ h := h

instance : Ranged String where
  Within _ _ := True
  mono _ h := h

instance : Ranged ConversionKind where
  Within _ _ := True
  mono _ h := h

instance : Ranged (List α) where
  Within z l := ∀ a ∈ l, z.Holds a
  mono hz h a ha := (h a ha).mono hz

instance : Ranged (Array α) where
  Within z l := ∀ a ∈ l, z.Holds a
  mono hz h a ha := (h a ha).mono hz

instance : Ranged (Option α) where
  Within z o := ∀ a ∈ o, z.Holds a
  mono hz h a ha := (h a ha).mono hz

instance : Ranged (α × β) where
  Within z p := z.Holds p.1 ∧ z.Holds p.2
  mono hz h := ⟨h.1.mono hz, h.2.mono hz⟩

instance : Ranged (NameMap α) where
  Within z m := z.Holds m.entries
  mono hz h := Holds.mono h hz

instance (type : TypeId) : Decidable (z.Holds type) :=
  inferInstanceAs (Decidable (type.index < z.types))

instance (method : MethodId) : Decidable (z.Holds method) :=
  inferInstanceAs (Decidable (method.index < z.methods))

instance (name : String) : Decidable (z.Holds name) :=
  .isTrue trivial

instance [∀ a : α, Decidable (z.Holds a)] (l : List α) : Decidable (z.Holds l) :=
  inferInstanceAs (Decidable (∀ a ∈ l, z.Holds a))

instance [∀ a : α, Decidable (z.Holds a)] (l : Array α) : Decidable (z.Holds l) :=
  inferInstanceAs (Decidable (∀ a ∈ l, z.Holds a))

instance [∀ a : α, Decidable (z.Holds a)] (o : Option α) : Decidable (z.Holds o) :=
  inferInstanceAs (Decidable (∀ a ∈ o, z.Holds a))

instance [∀ a : α, Decidable (z.Holds a)] [∀ b : β, Decidable (z.Holds b)] (p : α × β) :
    Decidable (z.Holds p) :=
  inferInstanceAs (Decidable (z.Holds p.1 ∧ z.Holds p.2))

@[simp] theorem holds_bool (b : Bool) : z.Holds b := trivial

@[simp] theorem holds_string (name : String) : z.Holds name := trivial

@[simp] theorem holds_unit (u : PUnit) : z.Holds u := trivial

theorem holds_list {l : List α} : z.Holds l ↔ ∀ a ∈ l, z.Holds a := Iff.rfl

@[simp] theorem holds_nil : z.Holds ([] : List α) := by
  simp [holds_list]

@[simp] theorem holds_cons {a : α} {l : List α} : z.Holds (a :: l) ↔ z.Holds a ∧ z.Holds l := by
  simp [holds_list]

@[simp] theorem holds_append {l l' : List α} : z.Holds (l ++ l') ↔ z.Holds l ∧ z.Holds l' := by
  simp only [holds_list, List.mem_append]
  exact ⟨fun h => ⟨fun a ha => h a (.inl ha), fun a ha => h a (.inr ha)⟩,
    fun h a ha => ha.elim (h.1 a) (h.2 a)⟩

theorem Holds.of_subset {l l' : List α} (h : z.Holds l) (hsubset : ∀ a ∈ l', a ∈ l) : z.Holds l' :=
  fun a ha => h a (hsubset a ha)

theorem Holds.filter {l : List α} (h : z.Holds l) (p : α → Bool) : z.Holds (l.filter p) :=
  h.of_subset fun _ ha => (List.mem_filter.1 ha).1

theorem holds_option {o : Option α} : z.Holds o ↔ ∀ a ∈ o, z.Holds a := Iff.rfl

@[simp] theorem holds_none : z.Holds (none : Option α) := by
  simp [holds_option]

@[simp] theorem holds_some {a : α} : z.Holds (some a) ↔ z.Holds a := by
  simp [holds_option]

@[simp] theorem holds_pair {a : α} {b : β} : z.Holds (a, b) ↔ z.Holds a ∧ z.Holds b := Iff.rfl

theorem holds_prod {p : α × β} : z.Holds p ↔ z.Holds p.1 ∧ z.Holds p.2 := Iff.rfl

theorem holds_toList {o : Option α} : z.Holds o.toList ↔ z.Holds o := by
  cases o <;> simp

theorem Holds.orElse {o o' : Option α} (h : z.Holds o) (h' : z.Holds o') : z.Holds (o <|> o') := by
  cases o with
  | none => exact h'
  | some a => exact h

theorem Holds.lookup {γ : Type} [BEq γ] [Ranged γ] {l : List (γ × α)} (h : z.Holds l) (key : γ) :
    z.Holds (l.lookup key) := by
  induction l with
  | nil => simp
  | cons entry l ih =>
    obtain ⟨name, a⟩ := entry
    rw [holds_cons, holds_pair] at h
    rw [List.lookup_cons]
    cases key == name with
    | true => simpa using h.1.2
    | false => exact ih h.2

/-! ## Maps keyed by names -/

@[simp] theorem holds_emptyMap : z.Holds (NameMap.empty : NameMap α) :=
  fun _ ha => absurd ha List.not_mem_nil

theorem Holds.get? {m : NameMap α} (h : z.Holds m) (name : String) : z.Holds (m.get? name) :=
  Holds.lookup (l := m.entries) h name

theorem Holds.insert {m : NameMap α} (h : z.Holds m) (name : String) {a : α} (ha : z.Holds a) :
    z.Holds (m.insert name a) := by
  have hentries : ∀ l : List (String × α), z.Holds l → z.Holds (NameMap.insertEntry name a l) := by
    intro l hl
    induction l with
    | nil => simpa [NameMap.insertEntry] using ha
    | cons entry l ih =>
      obtain ⟨key, old⟩ := entry
      rw [holds_cons, holds_pair] at hl
      rw [NameMap.insertEntry]
      split
      · simp [ha, hl.2]
      · split
        · simp [ha, hl]
        · simp [hl.1, ih hl.2]
  exact hentries m.entries h

end Sizes

end Callsite
