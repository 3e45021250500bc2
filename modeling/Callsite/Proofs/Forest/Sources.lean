import Callsite.Types.Standard
import Mathlib.Data.List.Nodup

/-!
# Programs over forests of classes

Classes are declared one after the other, each at the top or below an earlier one, and some of
them define a method `coco` that returns a literal.  Between the declarations a variable is given
objects of some of the classes declared so far, and `coco` is called on it.
-/

namespace Callsite.Forest

/-! ## Classes -/

/-- A literal, which has its type from the start. -/
inductive Literal where
  | nil
  | bool (value : Bool)
  | int (value : Int64)
  | char (value : Char)
  | str (value : String)
  | symbol (name : String)

namespace Literal

def form : Literal → Form
  | .nil => .nil
  | .bool value => .bool value
  | .int value => .int value
  | .char value => .char value
  | .str value => .str value
  | .symbol name => .symbol name

def type : Literal → TypeId
  | .nil => .nil
  | .bool _ => .bool
  | .int _ => .int32
  | .char _ => .char
  | .str _ => .string
  | .symbol _ => .symbol

end Literal

/-- A definition of `coco`: what it returns, and the places of the literal, of the method and of
the expression that declares it. -/
structure Definition where
  result : Literal
  resultSpan : Span
  methodSpan : Span
  span : Span

namespace Definition

/-- The method. -/
def decl (d : Definition) : MethodDecl where
  name := "coco"
  params := []
  body := some ⟨d.result.form, d.resultSpan⟩
  blockParam := none
  onSelf := false
  span := d.methodSpan

def expr (d : Definition) : Expr :=
  ⟨.method d.decl, d.span⟩

end Definition

/-- A class of a forest as it is written. -/
structure ClassSource where
  name : String
  superclass : Option String
  coco : Option Definition
  span : Span

namespace ClassSource

/-- The declaration of a class: neither abstract nor generic, with nothing but its `coco`. -/
def decl (c : ClassSource) : ClassDecl where
  name := c.name
  superclass := c.superclass.map TypeExpr.named
  isAbstract := false
  typeVars := []
  body := c.coco.toList.map Definition.expr

def expr (c : ClassSource) : Expr :=
  ⟨.classDecl c.decl, c.span⟩

def bare (c : ClassSource) : ClassSource :=
  { c with coco := none }

/-- A class can be declared after others: its name is new, its superclass is one of them, and
without a superclass it defines `coco`. -/
@[mk_iff]
structure FitsAfter (c : ClassSource) (declared : List ClassSource) : Prop where
  new : c.name ∉ declared.map ClassSource.name
  fresh : TypeTable.standard.constant? c.name = none
  superclass : ∀ name ∈ c.superclass, name ∈ declared.map ClassSource.name
  defined : c.superclass = none → c.coco.isSome = true

instance (c : ClassSource) (declared : List ClassSource) : Decidable (c.FitsAfter declared) :=
  decidable_of_iff _ (c.fitsAfter_iff declared).symm

end ClassSource

/-- Classes that can be declared in order, after others. -/
def Declarable : List ClassSource → List ClassSource → Prop
  | _, [] => True
  | declared, c :: rest => c.FitsAfter declared ∧ Declarable (declared ++ [c]) rest

instance Declarable.decide : ∀ declared rest, Decidable (Declarable declared rest)
  | _, [] => .isTrue trivial
  | declared, c :: rest =>
    have := Declarable.decide (declared ++ [c]) rest
    inferInstanceAs (Decidable (c.FitsAfter declared ∧ Declarable (declared ++ [c]) rest))

/-- The definition of `coco` that a class has: its own, or that of the nearest class on its chain
of superclasses that defines one. -/
inductive Inherits (classes : List ClassSource) : ClassSource → ClassSource → Prop
  | own {c : ClassSource} (h : c.coco.isSome = true) : Inherits classes c c
  | above {c parent definer : ClassSource} (hnone : c.coco = none) (hparent : parent ∈ classes)
      (hname : c.superclass = some parent.name) (h : Inherits classes parent definer) :
      Inherits classes c definer

/-- The type of the literal that a class's own `coco` returns. -/
def ClassSource.literal? (c : ClassSource) : Option TypeId :=
  c.coco.map (·.result.type)

/-! ## What forests have in common -/

/-- Classes of different names, each with its superclass among them or with a `coco` of its
own. -/
structure IsForest (classes : List ClassSource) : Prop where
  names : (classes.map ClassSource.name).Nodup
  closed : ∀ c ∈ classes, ∀ name, c.superclass = some name → name ∈ classes.map ClassSource.name
  defined : ∀ c ∈ classes, c.superclass = none → c.coco.isSome = true

theorem IsForest.nil : IsForest [] where
  names := List.nodup_nil
  closed := by simp
  defined := by simp

theorem IsForest.snoc {classes : List ClassSource} {c : ClassSource} (h : IsForest classes)
    (hc : c.FitsAfter classes) : IsForest (classes ++ [c]) where
  names := by
    have hlast : ∀ other ∈ classes, other.name ≠ c.name := by
      intro other hother heq
      exact hc.new (List.mem_map.2 ⟨other, hother, heq⟩)
    rw [List.map_append, List.nodup_append]
    refine ⟨h.names, by simp, ?_⟩
    simpa using hlast
  closed := by
    intro other hother name hname
    rw [List.map_append, List.mem_append]
    left
    rcases List.mem_append.1 hother with hold | hnew
    · exact h.closed other hold name hname
    · rw [List.mem_singleton.1 hnew] at hname
      exact hc.superclass name hname
  defined := by
    intro other hother hnone
    rcases List.mem_append.1 hother with hold | hnew
    · exact h.defined other hold hnone
    · rw [List.mem_singleton.1 hnew] at hnone ⊢
      exact hc.defined hnone

/-- A class is fixed by its name. -/
theorem IsForest.eq_of_name {classes : List ClassSource} {c c' : ClassSource} (h : IsForest classes)
    (hc : c ∈ classes) (hc' : c' ∈ classes) (hname : c.name = c'.name) : c = c' :=
  List.inj_on_of_nodup_map h.names hc hc' hname

/-! ## Programs -/

/-- `a = K.new` -/
structure Creation where
  cls : String
  pathSpan : Span
  callSpan : Span
  span : Span

def Creation.expr (creation : Creation) : Expr :=
  ⟨.assign "a"
    ⟨.call (.plain (some ⟨.path (.named creation.cls), creation.pathSpan⟩) "new" []),
      creation.callSpan⟩,
    creation.span⟩

/-- `x = a.coco` -/
structure Sending where
  varSpan : Span
  callSpan : Span
  span : Span

def Sending.expr (sending : Sending) : Expr :=
  ⟨.assign "x"
    ⟨.call (.plain (some ⟨.var "a", sending.varSpan⟩) "coco" []), sending.callSpan⟩,
    sending.span⟩

end Callsite.Forest

namespace Callsite

/-- A program that declares classes, calls `coco` on objects of some of them, and declares more
classes afterwards. -/
structure ForestProgram where
  early : List Forest.ClassSource
  creations : List Forest.Creation
  sending : Forest.Sending
  late : List Forest.ClassSource
  source : Option String
  early_declarable : Forest.Declarable [] early
  late_declarable : Forest.Declarable early late
  creations_ne_nil : creations ≠ []
  created_early : ∀ creation ∈ creations, creation.cls ∈ early.map Forest.ClassSource.name

namespace ForestProgram

def classes (p : ForestProgram) : List Forest.ClassSource :=
  p.early ++ p.late

def program (p : ForestProgram) : Program where
  exprs :=
    p.early.map Forest.ClassSource.expr ++ p.creations.map Forest.Creation.expr ++ [p.sending.expr]
      ++ p.late.map Forest.ClassSource.expr
  source := p.source

end ForestProgram

end Callsite
