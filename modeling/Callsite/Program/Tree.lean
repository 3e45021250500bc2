import Callsite.Ident
import Callsite.Span

/-!
# Program trees

The programs that inference reads.  Method bodies are written in a small
expression language of literals, variables, calls with blocks, conditionals and
declarations; type expressions occur in parameter restrictions, block signatures
and foreign declarations.
-/

namespace Callsite

/-- A type as it is written. -/
inductive TypeExpr where
  /-- `Foo`, `Lib::Point`, and `::Foo` for a path that starts at the top level. -/
  | path (names : List String) (global : Bool)
  | generic (head : TypeExpr) (args : List TypeExpr)
  | function (inputs : List TypeExpr) (output : Option TypeExpr)
  | selfType
  /-- A type that needs no further reading; generated code uses it. -/
  | resolved (type : TypeId)
  deriving Repr, Inhabited

/-- A declared block parameter `&block : A, B -> C`. -/
structure BlockParam where
  name : String
  inputs : Option (List TypeExpr)
  output : Option TypeExpr
  deriving Repr, Inhabited

/-- A function that a library declares. -/
structure ForeignFunction where
  name : String
  params : List (String × TypeExpr)
  result : Option TypeExpr
  variadic : Bool
  deriving Repr, Inhabited

/-- A struct that a library declares. -/
structure ForeignStruct where
  name : String
  fields : List (String × TypeExpr)
  deriving Repr, Inhabited

/-- The declaration of a foreign library. -/
structure LibraryDecl where
  name : String
  functions : List ForeignFunction
  structs : List ForeignStruct
  deriving Repr, Inhabited

mutual

/-- What an expression is, apart from its place in the source. -/
inductive Form where
  | nil
  | bool (value : Bool)
  | int (value : Int64)
  | char (value : Char)
  | str (value : String)
  | symbol (name : String)
  | array (items : List Expr)
  | var (name : String)
  | selfRef
  | assign (target : String) (value : Expr)
  /-- `out x`, an argument that a foreign function fills in. -/
  | out (name : String)
  | path (type : TypeExpr)
  | call (call : Call)
  | yield (args : List Expr)
  /-- Expressions in order; the value is that of the last one. -/
  | seq (items : List Expr)
  | branch (test : Expr) (yes : Expr) (no : Expr)
  | method (decl : MethodDecl)
  | classDecl (decl : ClassDecl)
  | library (decl : LibraryDecl)
  /-- A body supplied from outside, with a result of the given type. -/
  | primitive (type : TypeExpr)
  /-- A fresh object; without a type, one of the instance type of `self`. -/
  | allocate (type : Option TypeExpr)
  | function (params : List Param) (body : Expr)
  | classOf (value : Expr)

/-- An expression and its place in the source. -/
structure Expr where
  form : Form
  span : Span

/-- A literal block with the names of its parameters. -/
structure Block where
  params : List String
  body : Option Expr

/-- A call as it is written. -/
structure Call where
  receiver : Option Expr
  name : String
  args : List Expr
  block : Option Block
  /-- `&fn`, a function passed in place of a literal block. -/
  blockArg : Option Expr
  /-- Whether the call was written with parentheses. -/
  hasParens : Bool

/-- A parameter of a method. -/
structure Param where
  name : String
  default : Option Expr
  restriction : Option TypeExpr

/-- The declaration of a method. -/
structure MethodDecl where
  name : String
  params : List Param
  body : Option Expr
  blockParam : Option BlockParam
  onSelf : Bool
  span : Span

/-- The declaration of a class, or a reopening of one. -/
structure ClassDecl where
  name : String
  superclass : Option TypeExpr
  isAbstract : Bool
  typeVars : List String
  body : List Expr

end

/-- A whole program, with its source text when it is known. -/
structure Program where
  exprs : List Expr
  source : Option String

instance : Inhabited Expr := ⟨⟨.nil, .absent⟩⟩

instance : Inhabited MethodDecl := ⟨⟨"", [], none, none, false, .absent⟩⟩

instance : Inhabited Program := ⟨⟨[], none⟩⟩

namespace TypeExpr

/-- The type expression of a single name. -/
def named (name : String) : TypeExpr :=
  .path [name] false

/-- The name of a one-name path that does not start at the top level. -/
def singleName : TypeExpr → Option String
  | .path [name] false => some name
  | _ => none

mutual

def same : TypeExpr → TypeExpr → Bool
  | .path names global, .path names' global' => names == names' && global == global'
  | .generic head args, .generic head' args' => same head head' && sameList args args'
  | .function inputs output, .function inputs' output' =>
    sameList inputs inputs' && sameOption output output'
  | .selfType, .selfType => true
  | .resolved t, .resolved t' => t == t'
  | _, _ => false

def sameList : List TypeExpr → List TypeExpr → Bool
  | [], [] => true
  | e :: es, e' :: es' => same e e' && sameList es es'
  | _, _ => false

def sameOption : Option TypeExpr → Option TypeExpr → Bool
  | none, none => true
  | some e, some e' => same e e'
  | _, _ => false

end

mutual

theorem same_iff (e e' : TypeExpr) : same e e' = true ↔ e = e' := by
  cases e <;> cases e' <;>
    simp [same, same_iff, sameList_iff, sameOption_iff]

theorem sameList_iff (es es' : List TypeExpr) : sameList es es' = true ↔ es = es' := by
  cases es with
  | nil => cases es' <;> simp [sameList]
  | cons e es => cases es' <;> simp [sameList, same_iff e, sameList_iff es]

theorem sameOption_iff (e e' : Option TypeExpr) : sameOption e e' = true ↔ e = e' := by
  cases e with
  | none => cases e' <;> simp [sameOption]
  | some e => cases e' <;> simp [sameOption, same_iff e]

end

instance : DecidableEq TypeExpr := fun e e' =>
  decidable_of_iff _ (same_iff e e')

end TypeExpr

namespace Param

/-- A parameter without restriction and default value. -/
def plain (name : String) : Param :=
  ⟨name, none, none⟩

def typed (name : String) (restriction : TypeExpr) : Param :=
  ⟨name, none, some restriction⟩

end Param

namespace Expr

/-- An expression that nobody wrote. -/
def generated (form : Form) : Expr :=
  ⟨form, .absent⟩

end Expr

namespace MethodDecl

/-- A method of generated code: no block parameter, not on the metaclass. -/
def generated (name : String) (params : List Param) (body : Expr) : MethodDecl :=
  ⟨name, params, some body, none, false, .absent⟩

/-- How many parameters have no default value. -/
def requiredParams (d : MethodDecl) : Nat :=
  d.params.countP fun p => p.default.isNone

/-- Whether a method takes a number of arguments. -/
def acceptsArity (d : MethodDecl) (count : Nat) : Bool :=
  d.requiredParams ≤ count && count ≤ d.params.length

end MethodDecl

namespace Call

/-- A call without parentheses and block. -/
def plain (receiver : Option Expr) (name : String) (args : List Expr) : Call :=
  ⟨receiver, name, args, none, none, false⟩

end Call

end Callsite
