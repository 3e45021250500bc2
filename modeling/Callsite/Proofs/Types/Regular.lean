import Callsite.Proofs.Types.Widening

/-!
# Regular tables

Every table that declarations and type constructors reach is regular: it is founded,
it holds one type of each interned shape, what stands above a root is a root, and
every union is in normal form.
-/

namespace Callsite

variable {shape : Shape} {x : TypeId} {found l result : List TypeId}

/-- The shapes that the table holds once; every declaration makes a shape of its own. -/
def Shape.isInterned : Shape → Bool
  | .cls _ | .library _ | .cstruct _ => false
  | _ => true

theorem Shape.isInterned_iff :
    shape.isInterned = true ↔
      (∀ info, shape ≠ .cls info) ∧ (∀ info, shape ≠ .library info) ∧
        ∀ info, shape ≠ .cstruct info := by
  cases shape <;> simp [isInterned]

namespace TypeTable

variable {t t' : TypeTable} {type a b : TypeId} {types members : List TypeId}

/-- Members of a union in normal form. -/
structure IsNormal (t : TypeTable) (members : List TypeId) : Prop where
  two_le_length : 2 ≤ members.length
  sorted : members.Pairwise fun a b => a.index < b.index
  ne_noReturn : ∀ member ∈ members, member ≠ .noReturn
  ne_union : ∀ member ∈ members, ∀ inner, t.shape member ≠ .union inner
  apart : t.Apart members

theorem Grows.apart (hg : t.Grows t') (hf : t.Founded) (hk : ∀ member ∈ members, t.Known member)
    (h : t.Apart members) : t'.Apart members := by
  intro a ha b hb hne
  rw [hg.commonBase?_eq hf (hk a ha) (hk b hb)]
  exact h a ha b hb hne

/-- A shape that is in a later table was there before, if declarations do not change it. -/
theorem Grows.shape_of_isInterned (hg : t.Grows t') (hk : t.Known type)
    (h : (t'.shape type).isInterned = true) : t'.shape type = t.shape type := by
  obtain ⟨hcls, hlibrary, -⟩ := Shape.isInterned_iff.1 h
  exact (hg.shape type hk).eq_of_fixed hcls hlibrary

theorem IsNormal.grows (h : t.IsNormal members) (hg : t.Grows t') (hf : t.Founded)
    (hk : ∀ member ∈ members, t.Known member) : t'.IsNormal members where
  two_le_length := h.two_le_length
  sorted := h.sorted
  ne_noReturn := h.ne_noReturn
  ne_union := by
    intro member hmember inner hshape
    have hold := hg.shape_of_isInterned (hk member hmember) (by simp [hshape, Shape.isInterned])
    exact h.ne_union member hmember inner (hold ▸ hshape)
  apart := hg.apart hf hk h.apart

/-- A table as declarations and type constructors make it. -/
structure Regular (t : TypeTable) : Prop where
  founded : t.Founded
  rootsOnTop : t.RootsOnTop
  eq_of_shape_eq :
    ∀ a b, t.Known a → t.Known b → (t.shape a).isInterned = true → t.shape a = t.shape b → a = b
  normal : ∀ type members, t.shape type = .union members → t.IsNormal members

namespace Regular

theorem known_root (h : t.Regular) (hroot : isRoot type = true) : t.Known type := by
  have hstandard : TypeId.pointer.index < t.size := h.founded.standard
  simp only [isRoot, Bool.or_eq_true, beq_iff_eq] at hroot
  rcases hroot with (rfl | rfl) | rfl
  · exact Nat.lt_trans (by decide) hstandard
  · exact Nat.lt_trans (by decide) hstandard
  · exact Nat.lt_trans (by decide) hstandard

theorem known_noReturn (h : t.Regular) : t.Known .noReturn :=
  Nat.lt_trans (by decide) h.founded.standard

theorem eq_noReturn (h : t.Regular) (hk : t.Known type) (hshape : t.shape type = .noReturn) :
    type = .noReturn :=
  h.eq_of_shape_eq type .noReturn hk h.known_noReturn (by simp [hshape, Shape.isInterned])
    (by rw [hshape, h.founded.noReturn])

/-- In a regular table an interned shape is found where it stands. -/
theorem find?_of_shape (h : t.Regular) (hk : t.Known type) (hshape : t.shape type = shape)
    (hinterned : shape.isInterned = true) : t.find? shape = some type := by
  refine find?_eq_some_iff.2 ⟨hk, hshape, fun j hlt hother => ?_⟩
  have heq :=
    h.eq_of_shape_eq ⟨j⟩ type (hlt.trans hk) hk (by rwa [hother]) (hother.trans hshape.symm)
  exact hlt.ne (congrArg TypeId.index heq)

/-! ## Steps that keep tables regular -/

/-- A later table is regular if its new types have shapes of their own. -/
theorem grow (h : t.Regular) (hg : t.Grows t') (hf : t'.Founded)
    (hnew : ∀ type, t'.Known type → ¬ t.Known type →
      ((t'.shape type).isInterned = true →
        ∀ other, t'.Known other → t'.shape other = t'.shape type → other = type) ∧
      ∀ members, t'.shape type = .union members → t'.IsNormal members) : t'.Regular where
  founded := hf
  rootsOnTop := by
    intro type above hroot habove
    rw [hg.above?_eq (h.known_root hroot)] at habove
    exact h.rootsOnTop type above hroot habove
  eq_of_shape_eq := by
    intro a b ha hb hinterned heq
    by_cases hka : t.Known a
    · by_cases hkb : t.Known b
      · have hshapeA := hg.shape_of_isInterned hka hinterned
        have hshapeB := hg.shape_of_isInterned hkb (heq ▸ hinterned)
        exact h.eq_of_shape_eq a b hka hkb (hshapeA ▸ hinterned) (by rw [← hshapeA, heq, hshapeB])
      · exact (hnew b hb hkb).1 (heq ▸ hinterned) a ha heq
    · exact ((hnew a ha hka).1 hinterned b hb heq.symm).symm
  normal := by
    intro type members hshape
    have hk' : t'.Known type := known_of_shape_ne (by simp [hshape])
    by_cases hk : t.Known type
    · have hold := hg.shape_of_isInterned hk (by simp [hshape, Shape.isInterned])
      have hshapeOld : t.shape type = .union members := hold ▸ hshape
      exact (h.normal type members hshapeOld).grows hg h.founded
        (h.founded.known_of_mem_union hshapeOld)
    · exact (hnew type hk' hk).2 members hshape

theorem same_size (h : t.Regular) (hextends : t.Extends t') (hsize : t'.size = t.size) :
    t'.Regular :=
  h.grow hextends.grows (hextends.founded h.founded) fun _ hk hnew =>
    absurd (by simpa [Known, hsize] using hk) hnew

section

variable (h : t.Regular) (hcls : ∀ info, shape ≠ .cls info) (hexternals : shape.externals = [])
  (hbelow : shape.Below t.size)
include h hcls hexternals hbelow

theorem push (hfresh : shape.isInterned = true → t.find? shape = none)
    (hnormal : ∀ members, shape = .union members → t.IsNormal members) :
    (push shape t).2.Regular := by
  have hextends := push_extends hcls hexternals hbelow
  refine h.grow hextends.grows (hextends.founded h.founded) fun type hk hnew => ?_
  obtain rfl := ((known_push_iff shape).1 hk).resolve_left hnew
  rw [push_shape_new]
  refine ⟨fun hinterned other hother heq => ?_, fun members hshape => ?_⟩
  · refine ((known_push_iff shape).1 hother).resolve_left fun hold => ?_
    rw [push_shape_of_known shape hold] at heq
    exact find?_eq_none_iff.1 (hfresh hinterned) other hold heq
  · refine (hnormal members hshape).grows hextends.grows h.founded fun member hmember => ?_
    rw [hshape] at hbelow
    exact hbelow member hmember

theorem intern (hnormal : ∀ members, shape = .union members → t.IsNormal members) :
    (intern shape t).2.Regular := by
  cases hfind : t.find? shape with
  | some type =>
    rw [intern_of_find? hfind]
    exact h
  | none =>
    rw [intern_of_find?_eq_none hfind]
    exact h.push hcls hexternals hbelow (fun _ => hfind) hnormal

end

theorem declares {cls parent : TypeId} (h : t.Regular) (hdeclares : Declares t t' cls parent) :
    t'.Regular := by
  refine h.grow hdeclares.grows (hdeclares.founded h.founded) fun type hk hnew => ?_
  obtain rfl := (hdeclares.known_iff.1 hk).resolve_left hnew
  obtain ⟨info, hshape, -, -⟩ := hdeclares.shape_new
  simp [hshape, Shape.isInterned]

/-! ## Unions -/

theorem hierarchy {base : TypeId} (h : t.Regular) (hk : t.Known base) :
    (hierarchy base t).2.Regular :=
  h.intern (by simp) rfl hk (by simp)

theorem mergeMembers (h : t.Regular) (steps : Nat) (hk : ∀ member ∈ members, t.Known member) :
    (mergeMembers steps members t).2.Regular := by
  induction steps generalizing members t with
  | zero => exact h
  | succ steps ih =>
    rw [mergeMembers_succ]
    split
    next => exact h
    next front base others hmerge =>
      obtain ⟨hextends, -, hknown⟩ := known_of_mem_merged h.founded hk hmerge
      obtain ⟨⟨a, ha, b, -, hbase⟩, -⟩ := firstMerge?_mem hmerge
      exact ih (h.hierarchy (known_of_commonBase? h.founded (hk a ha) hbase)) hknown

end Regular

/-- A computation leads to a regular table. -/
def KeepsRegular {α : Type} (x : Build α) (t : TypeTable) : Prop :=
  (x t).2.Regular

theorem KeepsRegular.get_bind {α : Type} {f : TypeTable → Build α} (h : KeepsRegular (f t) t) :
    KeepsRegular (MonadState.get >>= f) t := h

theorem addNew_nodup (h : found.Nodup) (type : TypeId) : (addNew found type).Nodup := by
  rw [addNew]
  split
  · exact h
  next hmem =>
    exact List.nodup_append.2 ⟨h, by simp, by grind⟩

theorem foldl_addNew_nodup (h : found.Nodup) (types : List TypeId) :
    (types.foldl addNew found).Nodup := by
  induction types generalizing found with
  | nil => exact h
  | cons type types ih => exact ih (addNew_nodup h type)

theorem foldl_addNew_of_nodup (h : (found ++ types).Nodup) :
    types.foldl addNew found = found ++ types := by
  induction types generalizing found with
  | nil => simp
  | cons x types ih =>
    have hnew : x ∉ found := fun hx => (List.nodup_append.1 h).2.2 x hx x (by simp) rfl
    have hadd : addNew found x = found ++ [x] := by simp [addNew, hnew]
    rw [List.foldl_cons, hadd, ih (by simpa using h)]
    simp

theorem flatten_nodup (t : TypeTable) (types : List TypeId) : (t.flatten types).Nodup := by
  rw [flatten_eq]
  exact foldl_addNew_nodup List.nodup_nil _

theorem unmerged_nodup (t : TypeTable) (types : List TypeId) : (t.unmerged types).Nodup := by
  rw [unmerged]
  split
  · exact (flatten_nodup t types).filter _
  · exact flatten_nodup t types

theorem Regular.ne_union_of_mem_unmerged (h : t.Regular) (hx : x ∈ t.unmerged types) :
    ∀ inner, t.shape x ≠ .union inner := by
  have hflat : x ∈ t.flatten types := by
    rw [unmerged] at hx
    split at hx
    · exact (List.mem_filter.1 hx).1
    · exact hx
  obtain ⟨type, -, hspread⟩ := mem_flatten.1 hflat
  rw [spread] at hspread
  split at hspread
  next members hshape => exact (h.normal type members hshape).ne_union x hspread
  next hshape =>
    obtain rfl := List.mem_singleton.1 hspread
    exact hshape

theorem ne_noReturn_of_mem_unmerged (hlength : 2 ≤ (t.unmerged types).length)
    (hx : x ∈ t.unmerged types) : x ≠ .noReturn := by
  rw [unmerged] at hx hlength
  split at hx
  · simpa using (List.mem_filter.1 hx).2
  next hshort =>
    rw [if_neg hshort] at hlength
    omega

theorem sort_sorted (h : l.Nodup) : (TypeId.sort l).Pairwise fun a b => a.index < b.index := by
  have hnodup : (TypeId.sort l).Nodup := (sort_perm l).nodup_iff.2 h
  have hordered : (TypeId.sort l).Pairwise (·.index ≤ ·.index) := by
    rw [sort_eq_insertionSort]
    exact List.pairwise_insertionSort _ l
  refine (List.pairwise_and_iff.2 ⟨hordered, hnodup⟩).imp ?_
  rintro ⟨a⟩ ⟨b⟩ ⟨hle, hne⟩
  exact Nat.lt_of_le_of_ne hle fun heq => hne (congrArg TypeId.mk heq)

/-- Members that merged until no two merge lie apart. -/
theorem Merges.apart (h : t.Merges members result) (hf : t.Founded)
    (hk : ∀ member ∈ members, t.Known member) : t.Apart result := by
  have hknown := h.known hk
  intro a ha b hb hne
  obtain ⟨i, hi, rfl⟩ := List.getElem_of_mem ha
  obtain ⟨j, hj, rfl⟩ := List.getElem_of_mem hb
  have hpairwise := List.pairwise_iff_getElem.1 h.pairwise
  rcases Nat.lt_trichotomy i j with hlt | rfl | hlt
  · exact hpairwise i j hi hj hlt
  · exact absurd rfl hne
  · rw [commonBase?_comm hf (hknown _ ha) (hknown _ hb)]
    exact hpairwise j i hj hi hlt

theorem Merges.length_le (h : t.Merges members result) : result.length ≤ members.length := by
  induction h with
  | done => exact Nat.le_refl _
  | step h hmerged _ ih => exact ih.trans ((length_dropRepeats_lt h _).le)

/-- The members of a new union are in normal form. -/
theorem Regular.isNormal_merged (h : t.Regular) (hk : ∀ type ∈ types, t.Known type)
    (hmerges : t.Merges (t.unmerged types) result) (hlength : 2 ≤ result.length) :
    t.IsNormal (TypeId.sort result) := by
  have hknown := known_of_mem_unmerged h.founded hk
  have hnodup := hmerges.nodup h.founded (.of_nodup (unmerged_nodup t types))
  have hlong : 2 ≤ (t.unmerged types).length := hlength.trans hmerges.length_le
  refine ⟨?_, sort_sorted hnodup, ?_, ?_, ?_⟩
  · rw [(sort_perm result).length_eq]
    exact hlength
  · intro member hmember
    rcases hmerges.mem_cases (mem_sort.1 hmember) with hmem | ⟨base, hshape⟩
    · exact ne_noReturn_of_mem_unmerged hlong hmem
    · rintro rfl
      simp [h.founded.noReturn] at hshape
  · intro member hmember inner
    rcases hmerges.mem_cases (mem_sort.1 hmember) with hmem | ⟨base, hshape⟩
    · exact h.ne_union_of_mem_unmerged hmem inner
    · simp [hshape]
  · intro a ha b hb hne
    exact hmerges.apart h.founded hknown a (mem_sort.1 ha) b (mem_sort.1 hb) hne

namespace Regular

theorem unionOf (h : t.Regular) (hk : ∀ type ∈ types, t.Known type) :
    (unionOf types t).2.Regular := by
  have hknown := known_of_mem_unmerged h.founded hk
  have hmerged := (mergeMembers_builds (t.unmerged types).length h.founded hknown).2
  have hregular := h.mergeMembers (t.unmerged types).length hknown
  have hmerges := mergeMembers_merges h.founded hknown le_rfl (.refl _)
  have hwidens := mergeMembers_widens (t.unmerged types).length (t.unmerged types) t
  rw [unionOf_eq]
  generalize TypeTable.mergeMembers (t.unmerged types).length (t.unmerged types) t = run at *
  rw [← hwidens.grows.unmerged_eq hk] at hmerges
  match hresult : run.1, hregular with
  | [], hregular => exact hregular
  | [only], hregular => exact hregular
  | first :: second :: rest, hregular =>
    rw [hresult] at hmerges
    have hnormal := hregular.isNormal_merged (fun type htype => hwidens.known (hk type htype))
      hmerges (by simp)
    refine hregular.intern (by simp) rfl (fun member hmember => ?_) ?_
    · exact hmerged member (by rw [hresult]; exact mem_sort.1 hmember)
    · intro members hmembers
      obtain rfl := Shape.union.inj hmembers
      exact hnormal

/-! ## Types built from types -/

section

variable (h : t.Regular)
include h

theorem metaclassOfPart (hk : t.Known type) : KeepsRegular (metaclassOfPart type) t := by
  refine KeepsRegular.get_bind ?_
  split
  next base hshape =>
    exact h.intern (by simp) rfl (h.founded.known_of_hierarchy hshape) (by simp)
  next => exact h
  next => exact h
  next => exact h
  next => exact h.intern (by simp) rfl hk (by simp)

theorem mapM_metaclassOfPart (hk : ∀ member ∈ members, t.Known member) :
    (members.mapM TypeTable.metaclassOfPart t).2.Regular ∧
      ∀ part ∈ (members.mapM TypeTable.metaclassOfPart t).1,
        (members.mapM TypeTable.metaclassOfPart t).2.Known part := by
  induction members generalizing t with
  | nil => exact ⟨h, by simp⟩
  | cons member members ih =>
    have hmember := hk member List.mem_cons_self
    have hbuilds := metaclassOfPart_builds h.founded member
    have hrest := ih (h.metaclassOfPart hmember) fun other hother =>
      hbuilds.1.known (hk other (List.mem_cons_of_mem member hother))
    have hparts := Builds.mapM (t := (TypeTable.metaclassOfPart member t).2)
      (P := fun _ _ => True) (fun _ _ _ _ => id) members fun other _ t' h' =>
        (metaclassOfPart_builds (h'.founded (hbuilds.1.founded h.founded)) other).trivial
    rw [List.mapM_cons]
    exact ⟨hrest.1, List.forall_mem_cons.2 ⟨hparts.1.known (hbuilds.2 hmember), hrest.2⟩⟩

theorem metaclass (hk : t.Known type) : KeepsRegular (metaclass type) t := by
  refine KeepsRegular.get_bind ?_
  split
  next members hshape =>
    obtain ⟨hparts, hknown⟩ := h.mapM_metaclassOfPart (h.founded.known_of_mem_union hshape)
    exact hparts.unionOf hknown
  next => exact h.metaclassOfPart hk

theorem apply {generic : TypeId} (hk : t.Known generic) (args : List TypeId) :
    (apply generic args t).2.Regular :=
  h.intern (by simp) rfl hk (by simp)

theorem register (owner : TypeId) (decl : MethodDecl) (origin : Origin) :
    (register owner decl origin t).2.Regular :=
  h.same_size (register_builds owner decl origin).1 rfl

theorem functionOf (args : List TypeId) (result : TypeId) :
    KeepsRegular (functionOf args result) t := by
  refine KeepsRegular.get_bind ?_
  split
  next => exact h
  next hfind =>
    have hpush : (TypeTable.push (.function args result) t).2.Regular :=
      h.push (by simp) rfl trivial (fun _ => hfind) (by simp)
    exact hpush.register _ _ _

end

/-! ## Declarations -/

variable (h : t.Regular)
include h

theorem bindConstant (name : String) (type : TypeId) : (bindConstant name type t).2.Regular :=
  h.same_size (bindConstant_builds name type).1 rfl

theorem declareClass (name : String) (parent : Option TypeId) (isAbstract : Bool)
    (typeVars : List String) (hk : ∀ above, parent = some above → t.Known above) :
    (declareClass name parent isAbstract typeVars t).2.Regular := by
  rcases declareClass_cases h.founded name parent isAbstract typeVars fun _ => hk with
    ⟨type, hrun⟩ | ⟨cls, t', hrun, hdeclares⟩
  · rw [hrun]
    exact h
  · rw [hrun]
    exact h.declares hdeclares

theorem declareLibrary (name : String) : KeepsRegular (declareLibrary name) t := by
  refine KeepsRegular.get_bind ?_
  split
  next => exact h
  next =>
    have hpush : (TypeTable.push (.library ⟨name, []⟩) t).2.Regular :=
      h.push (by simp) rfl trivial (by simp [Shape.isInterned]) (by simp)
    exact hpush.bindConstant _ _

theorem declareExternal (library : TypeId) (name : String) (params : List (String × TypeId))
    (result : TypeId) (variadic : Bool) :
    (declareExternal library name params result variadic t).2.Regular :=
  h.same_size (declareExternal_builds library name params result variadic).1
    (updateShape_size _ _ _)

theorem declareFields (struct : TypeId) (fields : List (String × TypeId)) :
    (fields.forM (fun (field, fieldType) => declareField struct field fieldType) t).2.Regular := by
  induction fields generalizing t with
  | nil => exact h
  | cons field fields ih => exact ih ((h.register _ _ _).register _ _ _)

theorem declareStruct (library : TypeId) (name : String) (fields : List (String × TypeId)) :
    (declareStruct library name fields t).2.Regular := by
  let fullName := t.name library ++ "::" ++ name
  let pushed := (TypeTable.push (.cstruct ⟨fullName, library, fields⟩) t).2
  let bound := (TypeTable.bindConstant fullName ⟨t.size⟩ pushed).2
  have hpush : pushed.Regular :=
    h.push (by simp) rfl trivial (by simp [Shape.isInterned]) (by simp)
  have hbound : bound.Regular := hpush.bindConstant fullName ⟨t.size⟩
  have hnew : bound.Known ⟨t.size⟩ := by
    have hpushed : pushed.Known ⟨t.size⟩ := by simp [pushed, Known]
    exact (bindConstant_builds (t := pushed) fullName ⟨t.size⟩).1.known hpushed
  have hlater := Builds.forM (t := bound) fields fun field _ t' _ =>
    declareField_builds (t := t') ⟨t.size⟩ field.1 field.2
  have hfields := hbound.declareFields ⟨t.size⟩ fields
  exact (hfields.metaclass (hlater.1.known hnew)).register _ _ _

end Regular

/-! ## Reached tables -/

/-- The tables that declarations and type constructors reach. -/
inductive Reached : TypeTable → Prop
  | standard : Reached .standard
  | declareClass {t : TypeTable} (h : Reached t) (name : String) (parent : Option TypeId)
      (isAbstract : Bool) (typeVars : List String)
      (hk : ∀ above, parent = some above → t.Known above) :
      Reached (declareClass name parent isAbstract typeVars t).2
  | declareLibrary {t : TypeTable} (h : Reached t) (name : String) :
      Reached (declareLibrary name t).2
  | declareExternal {t : TypeTable} (h : Reached t) (library : TypeId) (name : String)
      (params : List (String × TypeId)) (result : TypeId) (variadic : Bool) :
      Reached (declareExternal library name params result variadic t).2
  | declareStruct {t : TypeTable} (h : Reached t) (library : TypeId) (name : String)
      (fields : List (String × TypeId)) :
      Reached (declareStruct library name fields t).2
  | register {t : TypeTable} (h : Reached t) (owner : TypeId) (decl : MethodDecl)
      (origin : Origin) :
      Reached (register owner decl origin t).2
  | metaclass {t : TypeTable} (h : Reached t) {type : TypeId} (hk : t.Known type) :
      Reached (metaclass type t).2
  | hierarchy {t : TypeTable} (h : Reached t) {base : TypeId} (hk : t.Known base) :
      Reached (hierarchy base t).2
  | apply {t : TypeTable} (h : Reached t) {generic : TypeId} (hk : t.Known generic)
      (args : List TypeId) :
      Reached (apply generic args t).2
  | functionOf {t : TypeTable} (h : Reached t) (args : List TypeId) (result : TypeId) :
      Reached (functionOf args result t).2
  | unionOf {t : TypeTable} (h : Reached t) {types : List TypeId}
      (hk : ∀ type ∈ types, t.Known type) :
      Reached (unionOf types t).2

theorem standard_rootsOnTop : standard.RootsOnTop := by
  have habove :
      ∀ i < 5, isRoot ⟨i⟩ = true → ∀ above ∈ standard.above? ⟨i⟩, isRoot above = true := by
    decide +kernel
  intro type above hroot h
  have hlt : type.index < 5 := by
    simp only [isRoot, Bool.or_eq_true, beq_iff_eq] at hroot
    rcases hroot with (rfl | rfl) | rfl <;> decide
  exact habove type.index hlt hroot above h

/-- Of the standard types only the program and `NoReturn` have interned shapes. -/
theorem standard_interned :
    ∀ i < standard.size, (standard.shape ⟨i⟩).isInterned = true →
      i = 0 ∧ standard.shape ⟨i⟩ = .program ∨ i = 1 ∧ standard.shape ⟨i⟩ = .noReturn := by
  decide +kernel

theorem standard_regular : standard.Regular where
  founded := standard_founded
  rootsOnTop := standard_rootsOnTop
  eq_of_shape_eq := by
    intro a b ha hb hinterned heq
    have hindex : a.index = b.index := by
      rcases standard_interned a.index ha hinterned with ⟨hi, hshape⟩ | ⟨hi, hshape⟩ <;>
        rcases standard_interned b.index hb (heq ▸ hinterned) with ⟨hj, hshape'⟩ | ⟨hj, hshape'⟩
      · rw [hi, hj]
      · exact absurd (hshape.symm.trans (heq.trans hshape')) (by simp)
      · exact absurd (hshape.symm.trans (heq.trans hshape')) (by simp)
      · rw [hi, hj]
    exact congrArg TypeId.mk hindex
  normal := by
    intro type members hshape
    have hk : standard.Known type := known_of_shape_ne (by simp [hshape])
    rcases standard_interned type.index hk (by simp [hshape, Shape.isInterned]) with
      ⟨-, hother⟩ | ⟨-, hother⟩
    · exact absurd (hshape.symm.trans hother) (by simp)
    · exact absurd (hshape.symm.trans hother) (by simp)

theorem Reached.regular (h : t.Reached) : t.Regular := by
  induction h with
  | standard => exact standard_regular
  | declareClass _ name parent isAbstract typeVars hk ih =>
    exact ih.declareClass name parent isAbstract typeVars hk
  | declareLibrary _ name ih => exact ih.declareLibrary name
  | declareExternal _ library name params result variadic ih =>
    exact ih.declareExternal library name params result variadic
  | declareStruct _ library name fields ih => exact ih.declareStruct library name fields
  | register _ owner decl origin ih => exact ih.register owner decl origin
  | metaclass _ hk ih => exact ih.metaclass hk
  | hierarchy _ hk ih => exact ih.hierarchy hk
  | apply _ hk args ih => exact ih.apply hk args
  | functionOf _ args result ih => exact ih.functionOf args result
  | unionOf _ hk ih => exact ih.unionOf hk

/-- A class `Foo` with the subclasses `Bar` and `Baz`. -/
def family : TypeTable :=
  (declareClass "Baz" (some ⟨14⟩) false []
    (declareClass "Bar" (some ⟨14⟩) false []
      (declareClass "Foo" none false [] standard).2).2).2

theorem family_reached : family.Reached := by
  refine .declareClass (.declareClass (.declareClass .standard _ _ _ _ (by simp)) _ _ _ _ ?_)
    _ _ _ _ ?_
  · intro above habove
    cases habove
    decide +kernel
  · intro above habove
    cases habove
    decide +kernel

end TypeTable

end Callsite
