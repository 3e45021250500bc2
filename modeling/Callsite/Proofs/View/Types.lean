import Callsite.Proofs.Types.Building
import Callsite.Proofs.View.Programs
import Callsite.Inference.Walk

/-!
# Tables of types with other spans

The methods in a table of types carry the spans of their declarations.  Nothing that is read from
a table depends on them, so every computation on types does the same with other spans.
-/

namespace Callsite

def Method.respan (f : Span → Span) (m : Method) : Method :=
  { m with decl := m.decl.respan f }

def MethodTable.respan (f : Span → Span) (t : MethodTable) : MethodTable :=
  { t with methods := t.methods.map (Method.respan f) }

/-- A table of types whose methods have other spans. -/
def TypeTable.respan (f : Span → Span) (t : TypeTable) : TypeTable :=
  { t with methods := t.methods.respan f }

theorem TypeTable.respan_id (t : TypeTable) : t.respan id = t := by
  have hmethod : Method.respan id = id := by
    funext m
    rw [Method.respan, MethodDecl.respan_id, id]
  rw [respan, MethodTable.respan, hmethod, Array.map_id]

variable {f : Span → Span}

/-! ## Methods -/

section Methods

variable (m : Method)

@[simp] theorem Method.owner_respan : (m.respan f).owner = m.owner := rfl

@[simp] theorem Method.origin_respan : (m.respan f).origin = m.origin := rfl

@[simp] theorem Method.yields_respan : (m.respan f).yields = m.yields := rfl

@[simp] theorem Method.decl_respan : (m.respan f).decl = m.decl.respan f := rfl

@[simp] theorem Method.name_respan : (m.respan f).name = m.name := by
  simp [name]

@[simp] theorem Method.accepts_respan (arity : Nat) (hasBlock : Bool) :
    (m.respan f).accepts arity hasBlock = m.accepts arity hasBlock := by
  simp [accepts]

end Methods

section Tables

variable (habsent : f .absent = .absent)
include habsent

theorem Method.respan_default : (default : Method).respan f = default := by
  change Method.respan f ⟨default, ⟨"", [], none, none, false, .absent⟩, default, default, none⟩ = _
  rw [respan, MethodDecl.respan, habsent]
  rfl

variable (t : MethodTable)

theorem MethodTable.get_respan (id : MethodId) : (t.respan f).get id = (t.get id).respan f := by
  rw [get, get, get?, get?, respan, Array.getElem?_map]
  cases t.methods[id.index]? with
  | none => exact (Method.respan_default habsent).symm
  | some m => rfl

theorem MethodTable.own_respan (owner : TypeId) (name : String) :
    (t.respan f).own owner name = t.own owner name := by
  refine List.filter_congr fun id _ => ?_
  simp [get_respan habsent]

theorem MethodTable.register_respan (owner : TypeId) (decl : MethodDecl) (origin : Origin) :
    (t.respan f).register owner (decl.respan f) origin
      = ((t.register owner decl origin).1, (t.register owner decl origin).2.respan f) := by
  have hreplaced : (t.respan f).replacedBy owner (decl.respan f) = t.replacedBy owner decl := by
    funext slot
    simp [replacedBy, get_respan habsent]
  have hsize : (t.respan f).methods.size = t.methods.size := by
    simp [respan]
  have hslots : (t.respan f).slots = t.slots := rfl
  rw [register, register, hreplaced, hsize, hslots]
  simp [respan, Method.respan]

end Tables

/-! ## Reading a table -/

namespace TypeTable

variable (t : TypeTable)

@[simp] theorem size_respan : (t.respan f).size = t.size := rfl

@[simp] theorem shape_respan (type : TypeId) : (t.respan f).shape type = t.shape type := rfl

@[simp] theorem find?_respan (shape : Shape) : (t.respan f).find? shape = t.find? shape := rfl

theorem method_respan (habsent : f .absent = .absent) (id : MethodId) :
    (t.respan f).method id = (t.method id).respan f :=
  MethodTable.get_respan habsent t.methods id

theorem parentWithin_respan (depth : Nat) (type : TypeId) :
    (t.respan f).parentWithin depth type = t.parentWithin depth type := by
  induction depth generalizing type with
  | zero => rfl
  | succ depth ih => simp only [parentWithin, shape_respan, ih]

@[simp] theorem parent?_respan (type : TypeId) : (t.respan f).parent? type = t.parent? type :=
  t.parentWithin_respan _ type

theorem chainWithin_respan (depth : Nat) (type : TypeId) :
    (t.respan f).chainWithin depth type = t.chainWithin depth type := by
  induction depth generalizing type with
  | zero => rfl
  | succ depth ih => simp only [chainWithin, parent?_respan, ih]

@[simp] theorem ancestors_respan (type : TypeId) :
    (t.respan f).ancestors type = t.ancestors type := by
  simp only [ancestors, above?, shape_respan, chainWithin_respan, size_respan]

@[simp] theorem isSubclass_respan (type ancestor : TypeId) :
    (t.respan f).isSubclass type ancestor = t.isSubclass type ancestor := by
  simp only [isSubclass, ancestors_respan]

theorem descendantsWithin_respan (depth : Nat) (found : List TypeId) (type : TypeId) :
    (t.respan f).descendantsWithin depth found type = t.descendantsWithin depth found type := by
  induction depth generalizing found type with
  | zero => rfl
  | succ depth ih =>
    have hfun : (t.respan f).descendantsWithin depth = t.descendantsWithin depth :=
      funext fun found => funext fun type => ih found type
    simp only [descendantsWithin, shape_respan, hfun]

theorem addConcrete_respan : (t.respan f).addConcrete = t.addConcrete := by
  funext found type
  simp only [addConcrete, descendants, shape_respan, descendantsWithin_respan, size_respan,
    find?_respan]

@[simp] theorem concreteTypes_respan (type : TypeId) :
    (t.respan f).concreteTypes type = t.concreteTypes type := by
  simp only [concreteTypes, shape_respan, addConcrete_respan]

@[simp] theorem instanceType_respan (type : TypeId) :
    (t.respan f).instanceType type = t.instanceType type := rfl

theorem nameWithin_respan (depth : Nat) : (t.respan f).nameWithin depth = t.nameWithin depth := by
  induction depth with
  | zero => rfl
  | succ depth ih =>
    simp only [nameWithin, shape_respan, ih]

theorem name_respan : (t.respan f).name = t.name :=
  t.nameWithin_respan _

@[simp] theorem exprText_respan (e : TypeExpr) : (t.respan f).exprText e = t.exprText e := by
  simp only [exprText, name_respan]

@[simp] theorem lookupPath_respan (scope : TypeId) (names : List String) (global : Bool) :
    (t.respan f).lookupPath scope names global = t.lookupPath scope names global := rfl

@[simp] theorem lookupScope_respan (owner : TypeId) :
    (t.respan f).lookupScope owner = t.lookupScope owner := rfl

theorem typeVarsWithin_respan (depth : Nat) (type : TypeId) :
    (t.respan f).typeVarsWithin depth type = t.typeVarsWithin depth type := by
  induction depth generalizing type with
  | zero => rfl
  | succ depth ih => simp only [typeVarsWithin, shape_respan, ih]

@[simp] theorem typeVars_respan (type : TypeId) : (t.respan f).typeVars type = t.typeVars type :=
  t.typeVarsWithin_respan _ type

@[simp] theorem typeArgument?_respan (type : TypeId) (name : String) :
    (t.respan f).typeArgument? type name = t.typeArgument? type name := by
  simp only [typeArgument?, instanceType_respan, shape_respan, typeVars_respan]

@[simp] theorem meaning?_respan (owner : TypeId) (name : String) :
    (t.respan f).meaning? owner name = t.meaning? owner name := by
  simp only [meaning?, instanceType_respan, typeVars_respan, typeArgument?_respan,
    lookupScope_respan, lookupPath_respan]

@[simp] theorem tuples_respan (types : List TypeId) :
    (t.respan f).tuples types = t.tuples types := by
  induction types with
  | nil => rfl
  | cons type types ih => simp only [tuples, choices, concreteTypes_respan, ih]

@[simp] theorem methodChain_respan (owner : TypeId) :
    (t.respan f).methodChain owner = t.methodChain owner := by
  simp only [methodChain, shape_respan, ancestors_respan, find?_respan]

@[simp] theorem commonBase?_respan (a b : TypeId) :
    (t.respan f).commonBase? a b = t.commonBase? a b := by
  have hsubclass : (t.respan f).isSubclass = t.isSubclass := by
    funext type ancestor
    exact t.isSubclass_respan type ancestor
  have hmerge : (t.respan f).mergeClass? = t.mergeClass? := rfl
  simp only [commonBase?, hmerge, ancestors_respan, hsubclass]

theorem mergeWith?_respan (a : TypeId) (types : List TypeId) :
    (t.respan f).mergeWith? a types = t.mergeWith? a types := by
  induction types with
  | nil => rfl
  | cons b types ih => simp only [mergeWith?, commonBase?_respan, ih]

@[simp] theorem firstMerge?_respan (types : List TypeId) :
    (t.respan f).firstMerge? types = t.firstMerge? types := by
  induction types with
  | nil => rfl
  | cons a types ih => simp only [firstMerge?, mergeWith?_respan, ih]

theorem targetClass?_respan (target : TypeId) :
    (t.respan f).targetClass? target = t.targetClass? target := rfl

mutual

theorem agrees_respan (owner : TypeId) (e : TypeExpr) (actual : TypeId) (free : Bindings) :
    (t.respan f).agrees owner e actual free = t.agrees owner e actual free := by
  cases e with
  | path names global =>
    unfold agrees
    split
    · simp only [meaning?_respan]
    · simp only [lookupScope_respan, lookupPath_respan]
    all_goals simp_all
  | selfType => simp only [agrees, instanceType_respan]
  | resolved type => simp only [agrees]
  | generic head args =>
    have hhead : (t.respan f).genericHead? owner head = t.genericHead? owner head := rfl
    have hargs := fun actuals free => agreesAll_respan owner args actuals free
    simp only [agrees, hhead, shape_respan, hargs]
  | function inputs output =>
    have hinputs := fun actuals free => agreesAll_respan owner inputs actuals free
    have houtput := fun result free => agreesResult_respan owner output result free
    simp only [agrees, shape_respan, hinputs, houtput]

theorem agreesAll_respan (owner : TypeId) (es : List TypeExpr) (actuals : List TypeId)
    (free : Bindings) :
    (t.respan f).agreesAll owner es actuals free = t.agreesAll owner es actuals free := by
  cases es with
  | nil => cases actuals <;> simp only [agreesAll]
  | cons e es =>
    cases actuals with
    | nil => simp only [agreesAll]
    | cons actual actuals =>
      have hrest := fun free => agreesAll_respan owner es actuals free
      simp only [agreesAll, agrees_respan owner e actual free, hrest]

theorem agreesResult_respan (owner : TypeId) (e : Option TypeExpr) (actual : TypeId)
    (free : Bindings) :
    (t.respan f).agreesResult owner e actual free = t.agreesResult owner e actual free := by
  cases e with
  | none => simp only [agreesResult]
  | some e => simp only [agreesResult, agrees_respan owner e actual free]

end

end TypeTable

end Callsite
