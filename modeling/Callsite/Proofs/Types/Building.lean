import Callsite.Proofs.Types.Growth

/-!
# Building types

Every computation on the table that declares no class leads to a table that
extends the one before.  The rules below follow the computations line by line.
-/

namespace Callsite

variable {shape : Shape}

namespace TypeTable

variable {α β : Type}

@[simp] theorem run_pure (a : α) (t : TypeTable) : (pure a : Build α) t = (a, t) := rfl

@[simp] theorem run_get_bind (f : TypeTable → Build β) (t : TypeTable) :
    (get >>= f) t = f t t := rfl

theorem run_bind (x : Build α) (f : α → Build β) (t : TypeTable) :
    (x >>= f) t = f (x t).1 (x t).2 := rfl

@[simp] theorem run_map (f : α → β) (x : Build α) (t : TypeTable) :
    (f <$> x) t = (f (x t).1, (x t).2) := rfl

end TypeTable

/-- A computation that succeeds has two parts that succeed. -/
theorem ok_of_bind_ok {ε σ α β : Type} {x : EStateM ε σ α} {f : α → EStateM ε σ β} {s s' : σ}
    {b : β}
    (h : (x >>= f) s = .ok b s') : ∃ a s1, x s = .ok a s1 ∧ f a s1 = .ok b s' := by
  cases hrun : x s with
  | ok a s1 => exact ⟨a, s1, rfl, by simpa [Bind.bind, EStateM.bind, hrun] using h⟩
  | error e s1 => simp [Bind.bind, EStateM.bind, hrun] at h

/-- A computation on types extends the table and ends with `Q`. -/
def Builds {α : Type} (x : Build α) (t : TypeTable) (Q : α → TypeTable → Prop) : Prop :=
  t.Extends (x t).2 ∧ Q (x t).1 (x t).2

namespace Builds

variable {α β : Type} {x : Build α} {f : α → Build β} {t : TypeTable}
variable {Q Q' : α → TypeTable → Prop} {R : β → TypeTable → Prop}

theorem pure {a : α} (h : Q a t) : Builds (Pure.pure a) t Q :=
  ⟨.refl t, h⟩

theorem bind (hx : Builds x t Q) (hf : ∀ a t', t.Extends t' → Q a t' → Builds (f a) t' R) :
    Builds (x >>= f) t R := by
  obtain ⟨hextends, hq⟩ := hx
  obtain ⟨hextends', hr⟩ := hf _ _ hextends hq
  exact ⟨hextends.trans hextends', hr⟩

theorem get_bind {f : TypeTable → Build β} (h : Builds (f t) t R) :
    Builds (MonadState.get >>= f) t R := h

theorem mono (hx : Builds x t Q) (h : ∀ a t', t.Extends t' → Q a t' → Q' a t') : Builds x t Q' :=
  ⟨hx.1, h _ _ hx.1 hx.2⟩

theorem map {g : α → β} (hx : Builds x t Q) (h : ∀ a t', t.Extends t' → Q a t' → R (g a) t') :
    Builds (g <$> x) t R :=
  ⟨hx.1, h _ _ hx.1 hx.2⟩

theorem trivial (hx : Builds x t Q) : Builds x t fun _ _ => True :=
  hx.mono fun _ _ _ _ => True.intro

/-- A list of computations, each of which gives something that stays true. -/
theorem mapM {P : β → TypeTable → Prop} (hstable : ∀ b t t', t.Extends t' → P b t → P b t')
    (l : List α) (hf : ∀ a ∈ l, ∀ t', t.Extends t' → Builds (f a) t' P) :
    Builds (l.mapM f) t fun bs t' => ∀ b ∈ bs, P b t' := by
  induction l generalizing t with
  | nil => exact pure (by simp)
  | cons a l ih =>
    rw [List.mapM_cons]
    refine (hf a (by simp) t (.refl t)).bind fun b t1 h1 hb => ?_
    have hrest : ∀ a' ∈ l, ∀ t', t1.Extends t' → Builds (f a') t' P := by
      intro a' ha' t' h'
      exact hf a' (List.mem_cons_of_mem a ha') t' (h1.trans h')
    exact (ih hrest).bind fun bs t2 h2 hbs =>
      pure (List.forall_mem_cons.2 ⟨hstable _ _ _ h2 hb, hbs⟩)

theorem forM {f : α → Build PUnit} (l : List α)
    (hf : ∀ a ∈ l, ∀ t', t.Extends t' → Builds (f a) t' fun _ _ => True) :
    Builds (l.forM f) t fun _ _ => True := by
  induction l generalizing t with
  | nil => exact pure True.intro
  | cons a l ih =>
    refine (hf a (by simp) t (.refl t)).bind fun _ t1 h1 _ => ih ?_
    intro a' ha' t' h'
    exact hf a' (List.mem_cons_of_mem a ha') t' (h1.trans h')

end Builds

namespace TypeTable

variable {t t' : TypeTable} {type : TypeId}

/-! ## Single changes -/

theorem Offers.grows {external : External} (h : t.Offers external)
    (hsize : t.methods.size ≤ t'.methods.size)
    (hmethods : ∀ id : MethodId, id.index < t.methods.size → t'.method id = t.method id) :
    t'.Offers external where
  known := Nat.lt_of_lt_of_le h.known hsize
  params := by rw [hmethods _ h.known, h.params]
  blockParam := by rw [hmethods _ h.known, h.blockParam]

/-- A later table is founded if the new types refer to earlier ones, the classes list those below
them, and every function of a library was there or stands for a method. -/
theorem Grows.founded (hg : t.Grows t') (hf : t.Founded)
    (hbelow : ∀ type, t'.Known type → ¬ t.Known type → (t'.shape type).Below type.index)
    (hchildren : ∀ parent child info, t'.shape parent = .cls info →
      (child ∈ info.subclasses ↔
        ∃ childInfo, t'.shape child = .cls childInfo ∧ childInfo.parent = some parent))
    (hslots : ∀ id ∈ t'.methods.slots, id.index < t'.methods.size)
    (hexternals : ∀ type, t'.Known type → ∀ external ∈ (t'.shape type).externals,
      external ∈ (t.shape type).externals ∨ t.Offers external) : t'.Founded where
  standard := Nat.lt_of_lt_of_le hf.standard hg.size_le
  noReturn := by
    have hgrows := hg.shape .noReturn (Nat.lt_trans (by decide) hf.standard)
    rw [hf.noReturn] at hgrows
    exact hgrows.fixed_of_eq (by simp) (by simp)
  below := by
    intro type hk
    by_cases hold : t.Known type
    · exact (hg.shape type hold).below (hf.below type hold)
    · exact hbelow type hk hold
  children := hchildren
  slots := hslots
  externals := by
    intro type external hexternal
    have hk : t'.Known type := by
      refine known_of_shape_ne fun hshape => ?_
      simp [hshape, Shape.externals] at hexternal
    have hoffers : t.Offers external :=
      (hexternals type hk external hexternal).elim (hf.externals type external) id
    exact hoffers.grows hg.methods_le hg.method

/-- A later table where the classes are the same. -/
theorem Grows.extends_ (hg : t.Grows t')
    (hclasses : ∀ type info, t'.shape type = .cls info ↔ t.shape type = .cls info)
    (hbelow : ∀ type, t'.Known type → ¬ t.Known type → (t'.shape type).Below type.index)
    (hslots : t.Founded → ∀ id ∈ t'.methods.slots, id.index < t'.methods.size)
    (hexternals : ∀ type, t'.Known type → ∀ external ∈ (t'.shape type).externals,
      external ∈ (t.shape type).externals ∨ t.Offers external) : t.Extends t' := by
  refine ⟨hg, fun type info => (hclasses type info).1, fun hf => ?_⟩
  refine hg.founded hf hbelow (fun parent child info hparent => ?_) (hslots hf) hexternals
  simp only [hclasses] at hparent ⊢
  exact hf.children parent child info hparent

/-- A new shape that is no class and refers to types in the table. -/
theorem push_extends (hcls : ∀ info, shape ≠ .cls info) (hexternals : shape.externals = [])
    (hbelow : shape.Below t.size) : t.Extends (push shape t).2 := by
  refine Grows.extends_ ⟨by simp, ?_, Nat.le_refl _, fun _ _ => rfl⟩ ?_ ?_ (fun hf => hf.slots) ?_
  · intro type hk
    rw [push_shape_of_known shape hk]
    exact .same _
  · intro type info
    by_cases hnew : type = ⟨t.size⟩
    · have hk : ¬ t.Known ⟨t.size⟩ := Nat.lt_irrefl _
      rw [hnew, push_shape_new, shape_of_not_known hk]
      simp [hcls]
    · rw [push_shape_of_ne shape hnew]
  · intro type hk hnew
    obtain rfl := ((known_push_iff shape).1 hk).resolve_left hnew
    rwa [push_shape_new]
  · intro type hk external hexternal
    rcases (known_push_iff shape).1 hk with hold | rfl
    · rw [push_shape_of_known shape hold] at hexternal
      exact Or.inl hexternal
    · simp [hexternals] at hexternal

/-- Changes that leave the shapes alone and only add methods. -/
theorem extends_of_shapes_eq (hshapes : t'.shapes = t.shapes)
    (hsize : t.methods.size ≤ t'.methods.size)
    (hmethods : ∀ id : MethodId, id.index < t.methods.size → t'.method id = t.method id)
    (hslots : t.Founded → ∀ id ∈ t'.methods.slots, id.index < t'.methods.size) : t.Extends t' := by
  have hshape : ∀ type, t'.shape type = t.shape type := by
    simp [shape, hshapes]
  have hlength : t'.size = t.size := by simp [size, hshapes]
  refine Grows.extends_ ⟨by simp [hlength], fun type _ => ?_, hsize, hmethods⟩ (by simp [hshape])
    (fun type hk hnew => ?_) hslots (by simp +contextual [hshape])
  · rw [hshape]
    exact .same _
  · exact absurd (by simpa [Known, hlength] using hk) hnew

/-- Changes in place that leave classes alone. -/
theorem updateShape_builds {f : Shape → Shape} (hgrows : ∀ shape : Shape, shape.Grows (f shape))
    (hcls : ∀ shape info, f shape = .cls info ↔ shape = .cls info)
    (hexternals : ∀ shape : Shape, ∀ external ∈ (f shape).externals,
      external ∈ shape.externals ∨ t.Offers external)
    (type : TypeId) : Builds (updateShape type f) t fun _ _ => True := by
  refine ⟨Grows.extends_ ⟨by simp, ?_, Nat.le_refl _, fun _ _ => rfl⟩ ?_ ?_ (fun hf => hf.slots) ?_,
    trivial⟩
  · intro other _
    rcases updateShape_shape_or type other f t with hshape | hshape
    · exact hshape ▸ hgrows _
    · exact hshape ▸ .same _
  · intro other info
    rcases updateShape_shape_or type other f t with hshape | hshape
    · rw [hshape, hcls]
    · rw [hshape]
  · intro other hk hnew
    exact absurd (by simpa [Known] using hk) hnew
  · intro other _ external hexternal
    rcases updateShape_shape_or type other f t with hshape | hshape
    · exact hexternals _ external (hshape ▸ hexternal)
    · exact Or.inl (hshape ▸ hexternal)

theorem bindConstant_builds (name : String) (type : TypeId) :
    Builds (bindConstant name type) t fun _ _ => True :=
  ⟨extends_of_shapes_eq rfl (Nat.le_refl _) (fun _ _ => rfl) fun hf => hf.slots, trivial⟩

end TypeTable

namespace MethodTable

variable {p : MethodId → Bool} {id slot : MethodId} {slots : List MethodId}

theorem mem_fillSlot (h : slot ∈ fillSlot p id slots) : slot = id ∨ slot ∈ slots := by
  induction slots with
  | nil => simpa [fillSlot] using h
  | cons first rest ih =>
    rw [fillSlot] at h
    split at h
    · simp only [List.mem_cons] at h ⊢
      tauto
    · simp only [List.mem_cons] at h ⊢
      tauto

theorem self_mem_fillSlot (p : MethodId → Bool) (id : MethodId) (slots : List MethodId) :
    id ∈ fillSlot p id slots := by
  induction slots with
  | nil => simp [fillSlot]
  | cons first rest ih =>
    rw [fillSlot]
    split
    · exact List.mem_cons_self
    · exact List.mem_cons_of_mem first ih

theorem mem_fillSlot_of_mem (h : slot ∈ slots) (hp : p slot = false) :
    slot ∈ fillSlot p id slots := by
  induction slots with
  | nil => simp at h
  | cons first rest ih =>
    rw [fillSlot]
    rcases List.mem_cons.1 h with rfl | hrest
    · simp [hp]
    · split
      · exact List.mem_cons_of_mem _ hrest
      · exact List.mem_cons_of_mem _ (ih hrest)

end MethodTable

namespace TypeTable

variable {t t' : TypeTable} {type owner : TypeId} {id : MethodId} {name : String}
  {decl : MethodDecl} {origin : Origin}

theorem mem_own :
    id ∈ t.methods.own owner name ↔
      id ∈ t.methods.slots ∧ (t.method id).owner = owner ∧ (t.method id).name = name := by
  simp [MethodTable.own, method]

theorem register_builds (owner : TypeId) (decl : MethodDecl) (origin : Origin) :
    Builds (register owner decl origin) t fun id t' =>
      id.index < t'.methods.size ∧ (t'.method id).decl = decl := by
  refine ⟨extends_of_shapes_eq rfl ?_ ?_ ?_, ?_, ?_⟩
  · simp [register, MethodTable.register, MethodTable.size]
  · intro id hid
    have hlt : id.index < t.methods.methods.size := hid
    have hne : id.index ≠ t.methods.methods.size := Nat.ne_of_lt hlt
    simp [register, MethodTable.register, method, MethodTable.get, MethodTable.get?,
      Array.getElem?_push, hne]
  · intro hf id hid
    simp only [register, MethodTable.register, MethodTable.size, Array.size_push] at hid ⊢
    rcases MethodTable.mem_fillSlot hid with rfl | hmem
    · exact Nat.lt_succ_self _
    · exact Nat.lt_succ_of_lt (hf.slots id hmem)
  · simp [register, MethodTable.register, MethodTable.size]
  · simp [register, MethodTable.register, method, MethodTable.get, MethodTable.get?]

theorem method_register_self (owner : TypeId) (decl : MethodDecl) (origin : Origin)
    (t : TypeTable) :
    (register owner decl origin t).2.method ⟨t.methods.size⟩
      = ⟨⟨t.methods.size⟩, decl, owner, origin, decl.yields⟩ := by
  simp [register, MethodTable.register, method, MethodTable.get, MethodTable.get?, MethodTable.size]

theorem method_register_of_lt (h : id.index < t.methods.size) :
    (register owner decl origin t).2.method id = t.method id :=
  (register_builds owner decl origin).1.grows.method id h

theorem primitive_builds (owner : TypeId) (name : String) (params : List Param)
    (result : TypeExpr) : Builds (primitive owner name params result) t fun _ _ => True :=
  (register_builds owner _ _).trivial

/-- Interning a shape that is no declaration and refers to types in the table. -/
theorem intern_builds (hcls : ∀ info, shape ≠ .cls info) (hexternals : shape.externals = [])
    (hbelow : shape.Below t.size) :
    Builds (intern shape) t fun type t' => t'.find? shape = some type := by
  cases hfind : t.find? shape with
  | some type =>
    simp only [Builds, intern_of_find? hfind]
    exact ⟨.refl t, hfind⟩
  | none =>
    simp only [Builds, intern_of_find?_eq_none hfind]
    refine ⟨push_extends hcls hexternals hbelow, find?_eq_some_iff.2 ⟨by simp [Known], by simp, ?_⟩⟩
    intro j hj
    have hk : t.Known ⟨j⟩ := hj
    rw [push_shape_of_known shape hk]
    exact find?_eq_none_iff.1 hfind ⟨j⟩ hk

theorem known_of_find? (h : t.find? shape = some type) : t.Known type :=
  (find?_eq_some_iff.1 h).1

theorem shape_of_find? (h : t.find? shape = some type) : t.shape type = shape :=
  (find?_eq_some_iff.1 h).2.1

end TypeTable

end Callsite
