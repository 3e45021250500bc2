import Callsite.Proofs.View.Types

/-!
# Building types with other spans

A computation on a table of types does the same on the table with other spans: it gives the same
result and leaves the table that it leaves otherwise, with other spans.  The rules below follow
the computations line by line.
-/

namespace Callsite

open TypeTable

variable {shape : Shape} {name : String} {type part target owner library : TypeId}
  {members args : List TypeId} {restriction : TypeExpr} {free : Bindings} {span : Span}

/-- `y` does on the table with other spans what `x` does. -/
def Respans {α : Type} (f : Span → Span) (x y : Build α) : Prop :=
  ∀ t : TypeTable, y (t.respan f) = ((x t).1, (x t).2.respan f)

/-- `x` does the same whatever the spans are. -/
abbrev SpanFree {α : Type} (f : Span → Span) (x : Build α) : Prop :=
  Respans f x x

namespace Respans

variable {α β : Type} {f : Span → Span}

theorem pure (a : α) : SpanFree f (Pure.pure a) :=
  fun _ => rfl

theorem bind {x y : Build α} {g h : α → Build β} (hx : Respans f x y)
    (hg : ∀ a, Respans f (g a) (h a)) : Respans f (x >>= g) (y >>= h) := by
  intro t
  rw [run_bind, run_bind, hx t]
  exact hg (x t).1 (x t).2

theorem get_bind {g h : TypeTable → Build β} (hg : ∀ t, Respans f (g t) (h (t.respan f))) :
    Respans f (get >>= g) (get >>= h) :=
  fun t => hg t t

theorem map {x y : Build α} (g : α → β) (hx : Respans f x y) : Respans f (g <$> x) (g <$> y) := by
  intro t
  rw [run_map, run_map, hx t]

theorem mapM {g : α → Build β} (hg : ∀ a, SpanFree f (g a)) (l : List α) :
    SpanFree f (l.mapM g) := by
  induction l with
  | nil => exact pure []
  | cons a l ih =>
    rw [List.mapM_cons]
    exact (hg a).bind fun b => ih.bind fun bs => pure (b :: bs)

theorem forM {g : α → Build PUnit} {l : List α} (hg : ∀ a ∈ l, SpanFree f (g a)) :
    SpanFree f (l.forM g) := by
  induction l with
  | nil => exact pure ()
  | cons a l ih =>
    have hrest : ∀ b ∈ l, SpanFree f (g b) :=
      (List.forall_mem_cons.1 hg).2
    exact (hg a (by simp)).bind fun _ => ih hrest

end Respans

namespace TypeTable

variable {f : Span → Span}

/-! ## Single changes -/

theorem push_respans : SpanFree f (push shape) :=
  fun _ => rfl

theorem intern_respans : SpanFree f (intern shape) := by
  intro t
  rw [intern, intern, find?_respan]
  cases t.find? shape with
  | none => exact push_respans t
  | some type => rfl

theorem bindConstant_respans : SpanFree f (bindConstant name type) :=
  fun _ => rfl

theorem updateShape_respans {g : Shape → Shape} : SpanFree f (updateShape type g) :=
  fun _ => rfl

/-! ## Unions and what is built from them -/

theorem mergeMembers_respans {steps : Nat} (members : List TypeId) :
    SpanFree f (mergeMembers steps members) := by
  induction steps generalizing members with
  | zero => exact .pure members
  | succ steps ih =>
    refine .get_bind fun t => ?_
    rw [firstMerge?_respan]
    rcases t.firstMerge? members with _ | ⟨front, base, others⟩
    · exact .pure members
    · exact intern_respans.bind fun merged => ih _

theorem ofMembers_respans (members : List TypeId) : SpanFree f (ofMembers members) := by
  rcases members with _ | ⟨only, _ | ⟨next, rest⟩⟩
  · exact .pure _
  · exact .pure _
  · exact intern_respans

theorem unionOf_respans (types : List TypeId) : SpanFree f (unionOf types) := by
  refine .get_bind fun t => ?_
  exact (mergeMembers_respans _).bind ofMembers_respans

theorem metaclassOfPart_respans (type : TypeId) : SpanFree f (metaclassOfPart type) := by
  refine .get_bind fun t => ?_
  rw [shape_respan]
  cases t.shape type with
  | hierarchy base => exact intern_respans
  | library | noReturn | program => exact .pure _
  | _ => exact intern_respans

theorem metaclass_respans (type : TypeId) : SpanFree f (metaclass type) := by
  refine .get_bind fun t => ?_
  rw [shape_respan]
  cases t.shape type with
  | union members => exact (Respans.mapM metaclassOfPart_respans members).bind unionOf_respans
  | _ => exact metaclassOfPart_respans type

theorem unionOfKept_respans (kept : List TypeId) : SpanFree f (unionOfKept kept) := by
  cases kept with
  | nil => exact .pure none
  | cons type kept => exact (unionOf_respans _).map some

/-! ## Restrictions -/

theorem narrowPart_respans : SpanFree f (narrowPart part target) := by
  refine .get_bind fun t => ?_
  simp only [shape_respan, targetClass?_respan, isSubclass_respan]
  split
  · exact .pure _
  · cases t.shape part with
    | hierarchy base =>
      cases t.targetClass? target with
      | none => exact .pure none
      | some cls =>
        dsimp only
        split
        · exact .pure _
        · split
          · exact intern_respans.map some
          · exact .pure none
    | metaclass | hierarchyMetaclass => cases t.shape target <;> exact .pure _
    | noReturn => exact .pure _
    | _ => cases t.targetClass? target <;> exact .pure _

theorem narrowMembers_respans : SpanFree f (narrowMembers target members) := by
  induction members with
  | nil => exact .pure []
  | cons member rest ih =>
    exact narrowPart_respans.bind fun kept => ih.bind fun others => .pure _

theorem narrowTo_respans {arg target : TypeId} : SpanFree f (narrowTo arg target) := by
  unfold narrowTo
  split
  · exact .pure _
  · refine .get_bind fun t => ?_
    rw [shape_respan]
    cases t.shape arg with
    | union members => exact narrowMembers_respans.bind unionOfKept_respans
    | _ => exact narrowPart_respans

theorem restrictPart_respans : SpanFree f (restrictPart owner restriction part free) := by
  have hnarrow : ∀ type, SpanFree f (narrowTo part type >>= fun kept => Pure.pure (kept, free)) :=
    fun type => narrowTo_respans.bind fun kept => .pure _
  refine .get_bind fun t => ?_
  simp only [meaning?_respan, lookupScope_respan, lookupPath_respan, instanceType_respan,
    agrees_respan]
  split
  · split
    · exact hnarrow _
    · exact .pure _
  · split
    · exact hnarrow _
    · exact .pure _
  · exact hnarrow _
  · exact hnarrow _
  · exact .pure _
  · exact .pure _

theorem restrictMembers_respans (free : Bindings) :
    SpanFree f (restrictMembers owner restriction members free) := by
  induction members generalizing free with
  | nil => exact .pure _
  | cons member rest ih =>
    exact restrictPart_respans.bind fun first =>
      (ih first.2).bind fun others => .pure _

theorem restrict_respans (owner : TypeId) (restriction : TypeExpr) (arg : TypeId)
    (free : Bindings) : SpanFree f (restrict owner restriction arg free) := by
  refine .get_bind fun t => ?_
  have hunbound : (t.respan f).isUnboundVariable owner restriction free
      = t.isUnboundVariable owner restriction free := by
    simp only [isUnboundVariable, meaning?_respan]
  rw [hunbound, shape_respan]
  split
  · exact restrictPart_respans
  · cases t.shape arg with
    | union members =>
      exact (restrictMembers_respans free).bind fun kept =>
        (unionOfKept_respans kept.1).bind fun type => .pure _
    | _ => exact restrictPart_respans

theorem restrictArgs_respans {params : List Param} (args : List TypeId) (free : Bindings) :
    Respans f (restrictArgs owner params args free)
      (restrictArgs owner (params.map (Param.respan f)) args free) := by
  induction params generalizing args free with
  | nil => exact .pure _
  | cons param params ih =>
    cases args with
    | nil => exact .pure _
    | cons arg args =>
      rw [List.map_cons]
      unfold restrictArgs
      rw [Param.restriction_respan]
      cases param.restriction with
      | none => exact (ih args free).bind fun rest => .pure (rest.1.map (arg :: ·), rest.2)
      | some restriction =>
        refine (restrict_respans owner restriction arg free).bind fun first => ?_
        obtain ⟨_ | type, bound⟩ := first
        · exact .pure _
        · exact (ih args bound).bind fun rest => .pure _

/-! ## Methods -/

section Methods

variable (habsent : f .absent = .absent)
include habsent

theorem register_respans (owner : TypeId) (decl : MethodDecl) (origin : Origin) :
    Respans f (register owner decl origin) (register owner (decl.respan f) origin) := by
  intro t
  have hrun : ∀ (t : TypeTable) (decl : MethodDecl), register owner decl origin t
      = ((t.methods.register owner decl origin).1,
          { t with methods := (t.methods.register owner decl origin).2 }) :=
    fun _ _ => rfl
  have hmethods : (t.respan f).methods = t.methods.respan f := rfl
  rw [hrun, hrun, hmethods, MethodTable.register_respan habsent]
  rfl

section

variable (t : TypeTable) (owner : TypeId) (name : String)

theorem methodsNamed_respan : (t.respan f).methodsNamed owner name = t.methodsNamed owner name := by
  have hown : ∀ type, (t.respan f).methods.own type name = t.methods.own type name :=
    fun type => MethodTable.own_respan habsent t.methods type name
  have hmeta : (t.respan f).isMetaclass owner = t.isMetaclass owner := rfl
  simp only [methodsNamed, inheritedByMeta, methodChain_respan, hown, hmeta,
    method_respan t habsent, Method.origin_respan]

theorem fittingMethods_respan (arity : Nat) (hasBlock : Bool) :
    (t.respan f).fittingMethods owner name arity hasBlock
      = t.fittingMethods owner name arity hasBlock := by
  simp only [fittingMethods, methodsNamed_respan habsent, method_respan t habsent,
    Method.accepts_respan]

theorem firstMethod?_respan (hasBlock : Bool) :
    (t.respan f).firstMethod? owner name hasBlock = t.firstMethod? owner name hasBlock := by
  simp only [firstMethod?, methodsNamed_respan habsent, method_respan t habsent,
    Method.yields_respan]

end

theorem matchMethod_respans {method : MethodId} : SpanFree f (matchMethod method owner args) := by
  refine .get_bind fun t => ?_
  rw [method_respan t habsent, Method.decl_respan, MethodDecl.params_respan]
  exact (restrictArgs_respans args .empty).bind fun restricted => .pure _

theorem collectMatches_respans {candidates : List MethodId} (cover : Cover) :
    SpanFree f (collectMatches owner args candidates cover) := by
  induction candidates generalizing cover with
  | nil => exact .pure _
  | cons candidate rest ih =>
    unfold collectMatches
    split
    · exact .pure _
    · refine (matchMethod_respans habsent).bind fun found => ?_
      cases found with
      | none => exact ih cover
      | some found =>
        refine .get_bind fun t => ?_
        have hadd : cover.add (t.respan f) found.args = cover.add t found.args := by
          simp only [Cover.add, tuples_respan]
        rw [hadd]
        exact (ih (cover.add t found.args).1).bind fun others => .pure _

theorem lookupMatches_respans
    (hasBlock : Bool) : SpanFree f (lookupMatches owner name args hasBlock) := by
  refine .get_bind fun t => ?_
  have hcover : Cover.ofArgs (t.respan f) args = Cover.ofArgs t args := by
    simp only [Cover.ofArgs, tuples_respan]
  rw [fittingMethods_respan habsent, hcover]
  exact (collectMatches_respans habsent _).bind fun matched => .pure _

theorem constructorFor_respans {metaType cls : TypeId} {count : Nat} (init : Match) :
    SpanFree f (constructorFor metaType cls count init) := by
  refine .get_bind fun t => ?_
  have hallocation : (t.respan f).allocation? cls init.free = t.allocation? cls init.free := by
    simp only [allocation?, typeVars_respan]
  rw [hallocation, method_respan t habsent, Method.decl_respan, MethodDecl.params_respan,
    constructorDecl_map_respan]
  refine .bind ?_ fun method => .pure _
  have h := register_respans habsent metaType (constructorDecl count
    (t.method init.method).decl.params (t.allocation? cls init.free)) .constructor
  rwa [constructorDecl_respan habsent] at h

/-! ## Declarations -/

theorem primitive_respans (owner : TypeId) (name : String) (params : List Param)
    (hparams : ∀ param ∈ params, param.default = none) (result : TypeExpr) :
    SpanFree f (primitive owner name params result) := by
  have h := register_respans habsent owner
    (.generated name params (.generated (.primitive result))) .primitive
  rwa [MethodDecl.respan_generated habsent hparams, Expr.respan_generated habsent] at h

theorem functionOf_respans (result : TypeId) : SpanFree f (functionOf args result) := by
  refine .get_bind fun t => ?_
  rw [find?_respan]
  cases t.find? (.function args result) with
  | some type => exact .pure _
  | none =>
    have hparams : ∀ param ∈ numberedParams args, param.default = none := by
      intro param hparam
      obtain ⟨i, hi, rfl⟩ := List.mem_mapIdx.1 hparam
      rfl
    exact push_respans.bind fun type =>
      (primitive_respans habsent type "call" _ hparams (.resolved result)).bind fun _ => .pure _

omit habsent in
theorem superOwner?_respans (owner : TypeId) : SpanFree f (superOwner? owner) := by
  refine .get_bind fun t => ?_
  simp only [shape_respan, parent?_respan]
  cases t.shape owner with
  | metaclass instances =>
    dsimp only
    cases t.parent? instances with
    | none => exact .pure none
    | some parent => exact (metaclass_respans parent).map some
  | _ => exact .pure _

omit habsent in
theorem newClass_respans (name : String) (parent : Option TypeId) (isAbstract : Bool)
    (typeVars : List String) : SpanFree f (newClass name parent isAbstract typeVars) := by
  refine push_respans.bind fun type => ?_
  cases parent with
  | none => exact bindConstant_respans.bind fun _ => .pure _
  | some above =>
    exact updateShape_respans.bind fun _ =>
      bindConstant_respans.bind fun _ => .pure _

omit habsent in
theorem declareClass_respans {parent : Option TypeId} {isAbstract : Bool}
    (typeVars : List String) : SpanFree f (declareClass name parent isAbstract typeVars) := by
  refine .get_bind fun t => ?_
  have hdeclared : (t.respan f).declaredClass? name = t.declaredClass? name := rfl
  rw [hdeclared]
  cases t.declaredClass? name with
  | some type => exact .pure _
  | none => exact (newClass_respans name _ isAbstract typeVars).bind fun type => .pure _

omit habsent in
theorem declareLibrary_respans (name : String) : SpanFree f (declareLibrary name) := by
  refine .get_bind fun t => ?_
  have hdeclared : ((t.respan f).constant? name).filter (t.respan f).isLibrary
      = (t.constant? name).filter t.isLibrary := rfl
  rw [hdeclared]
  cases (t.constant? name).filter t.isLibrary with
  | some type => exact .pure _
  | none =>
    exact push_respans.bind fun type =>
      bindConstant_respans.bind fun _ => .pure _

theorem declareExternal_respans
    {params : List (String × TypeId)} {result : TypeId} {variadic : Bool} :
    SpanFree f (declareExternal library name params result variadic) := by
  have hparams : ∀ param ∈ params.map fun entry => Param.typed entry.1 (.resolved entry.2),
      param.default = none := by
    intro param hparam
    obtain ⟨entry, -, rfl⟩ := List.mem_map.1 hparam
    rfl
  have h := register_respans habsent library (.generated name
    (params.map fun entry => Param.typed entry.1 (.resolved entry.2))
    (.generated (.primitive (.resolved result)))) .external
  rw [MethodDecl.respan_generated habsent hparams, Expr.respan_generated habsent] at h
  exact h.bind fun method => updateShape_respans.bind fun _ => .pure _

theorem declareField_respans {struct : TypeId} {field : String} :
    SpanFree f (declareField struct field type) := by
  have hreader := primitive_respans habsent struct field [] (by simp) (.resolved type)
  have hwriter := primitive_respans habsent struct (field ++ "=")
    [.typed "value" (.resolved type)] (by simp [Param.typed]) (.resolved type)
  exact hreader.bind fun _ => hwriter.bind fun _ => .pure _

theorem declareStruct_respans {fields : List (String × TypeId)} :
    SpanFree f (declareStruct library name fields) := by
  refine .get_bind fun t => ?_
  rw [name_respan]
  refine push_respans.bind fun type => bindConstant_respans.bind fun _ => ?_
  have hfields : ∀ field ∈ fields, SpanFree f (declareField type field.1 field.2) :=
    fun field _ => declareField_respans habsent
  refine (Respans.forM hfields).bind fun _ => (metaclass_respans type).bind fun metaType => ?_
  have h := register_respans habsent metaType allocatorDecl .primitive
  rw [allocatorDecl_respan habsent] at h
  exact h.bind fun _ => .pure _

/-! ## The standard types -/

theorem buildStandard_respans : SpanFree f buildStandard := by
  have hclasses : ∀ entry ∈ standardClasses,
      SpanFree f (newClass entry.1 entry.2.1 false entry.2.2 >>= fun _ => Pure.pure PUnit.unit) :=
    fun entry _ => (newClass_respans _ _ _ _).bind fun _ => .pure _
  have hdefault : ∀ entry ∈ standardMethods, ∀ param ∈ entry.2.2.1, param.default = none := by
    simp [standardMethods, Param.typed, Param.plain]
  have hmethods : ∀ entry ∈ standardMethods,
      SpanFree f (primitive entry.1 entry.2.1 entry.2.2.1 entry.2.2.2 >>=
        fun _ => Pure.pure PUnit.unit) :=
    fun entry hentry =>
      (primitive_respans habsent _ _ _ (hdefault entry hentry) _).bind fun _ => .pure _
  refine push_respans.bind fun _ => push_respans.bind fun _ => ?_
  refine bindConstant_respans.bind fun _ => ?_
  exact (Respans.forM hclasses).bind fun _ => .forM hmethods

theorem standard_respan : standard.respan f = standard := by
  have hempty : empty.respan f = empty := by
    simp [respan, MethodTable.respan, empty, MethodTable.empty]
  have h := buildStandard_respans habsent empty
  rw [hempty] at h
  rw [standard]
  -- the table is large, and must not be evaluated to compare the two sides
  generalize buildStandard empty = built at h ⊢
  exact (congrArg Prod.snd h).symm

end Methods

end TypeTable

/-! ## Flow -/

theorem Rule.derive_respans {f : Span → Span} (habsent : f .absent = .absent) (rule : Rule)
    (types : List TypeId) : SpanFree f (rule.derive types) := by
  cases rule with
  | union => exact unionOf_respans types
  | pinned type => exact .pure type
  | metaclass => exact (unionOf_respans types).bind metaclass_respans
  | array => exact (unionOf_respans types).bind fun type => intern_respans
  | function params =>
    exact (unionOf_respans types).bind (functionOf_respans habsent)

/-! ## Type expressions -/

/-- `y` does on the table with other spans what `x` does, and fails at the other span where `x`
fails. -/
def Denote.Respans {α : Type} (f : Span → Span) (x y : Denote α) : Prop :=
  ∀ t : TypeTable, y (t.respan f) =
    match x t with
    | .ok a t' => .ok a (t'.respan f)
    | .error e t' => .error { e with span := f e.span } (t'.respan f)

namespace Denote.Respans

variable {α β : Type} {f : Span → Span}

theorem pure (a : α) : Respans f (Pure.pure a) (Pure.pure a) :=
  fun _ => rfl

theorem throw (cause : Cause) (span : Span) :
    Respans f (throw (.of cause span) : Denote α) (throw (.of cause (f span))) :=
  fun _ => rfl

theorem bind {x y : Denote α} {g h : α → Denote β} (hx : Respans f x y)
    (hg : ∀ a, Respans f (g a) (h a)) : Respans f (x >>= g) (y >>= h) := by
  intro t
  change EStateM.bind y h _ = match EStateM.bind x g t with | .ok a t' => _ | .error e t' => _
  rw [EStateM.bind, EStateM.bind, hx]
  cases x t with
  | ok a t' => exact hg a t'
  | error e t' => rfl

theorem get_bind {g h : TypeTable → Denote β} (hg : ∀ t, Respans f (g t) (h (t.respan f))) :
    Respans f (get >>= g) (get >>= h) :=
  fun t => hg t t

theorem ofBuild {x y : Build α} (hx : Callsite.Respans f x y) :
    Respans f (Denote.ofBuild x) (Denote.ofBuild y) := by
  intro t
  rw [Denote.ofBuild, hx t]
  rfl

end Denote.Respans

namespace TypeTable

variable {f : Span → Span}

theorem checkGeneric_respans {generic : TypeId} {given : Nat} :
    Denote.Respans f (checkGeneric generic given span) (checkGeneric generic given (f span)) := by
  refine .get_bind fun t => ?_
  simp only [shape_respan, name_respan]
  cases t.shape generic with
  | cls info =>
    dsimp only
    split
    · exact .throw _ span
    · split
      · exact .throw _ span
      · exact .pure ()
  | _ => exact .throw _ span

mutual

theorem denote_respans (habsent : f .absent = .absent) {e : TypeExpr} :
    Denote.Respans f (denote owner free span e) (denote owner free (f span) e) := by
  cases e with
  | path names global =>
    refine .get_bind fun t => ?_
    have hpath : (t.respan f).pathType? owner free names global
        = t.pathType? owner free names global := by
      simp only [pathType?, typeArgument?_respan, lookupScope_respan, lookupPath_respan]
    rw [hpath]
    cases t.pathType? owner free names global with
    | some type => exact .pure type
    | none => exact .throw _ span
  | selfType => exact .pure owner
  | resolved type => exact .pure type
  | generic head args =>
    refine (denote_respans habsent).bind fun generic => ?_
    refine checkGeneric_respans.bind fun _ => ?_
    exact (denoteAll_respans habsent).bind fun types =>
      .ofBuild intern_respans
  | function inputs output =>
    refine (denoteAll_respans habsent).bind fun types => ?_
    exact (denoteResult_respans habsent).bind fun result =>
      .ofBuild (functionOf_respans habsent result)

theorem denoteAll_respans (habsent : f .absent = .absent) {es : List TypeExpr} :
    Denote.Respans f (denoteAll owner free span es) (denoteAll owner free (f span) es) := by
  cases es with
  | nil => exact .pure []
  | cons e es =>
    refine (denote_respans habsent).bind fun type => ?_
    exact (denoteAll_respans habsent).bind fun types => .pure _

theorem denoteResult_respans (habsent : f .absent = .absent) {e : Option TypeExpr} :
    Denote.Respans f (denoteResult owner free span e) (denoteResult owner free (f span) e) := by
  cases e with
  | none => exact .pure TypeId.void
  | some e => exact denote_respans habsent

end

end TypeTable

end Callsite
