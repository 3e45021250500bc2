/-!
# Identifiers

Types, methods, nodes, calls, scopes and instances are kept in tables that only
grow, and are named by their position in the table.  Each kind of identifier is
a type of its own, so that a node cannot be taken for a call.
-/

namespace Callsite

/-- A type, by its position in the table of types. -/
structure TypeId where
  index : Nat
  deriving DecidableEq, Repr, Inhabited

/-- A method, by its position in the method table. -/
structure MethodId where
  index : Nat
  deriving DecidableEq, Repr, Inhabited

/-- A node of the type-flow graph. -/
structure NodeId where
  index : Nat
  deriving DecidableEq, Repr, Inhabited

/-- The number of a call site. -/
structure CallId where
  index : Nat
  deriving DecidableEq, Repr, Inhabited

/-- The number of a scope. -/
structure ScopeId where
  index : Nat
  deriving DecidableEq, Repr, Inhabited

/-- A method instantiated for given argument types. -/
structure InstanceId where
  index : Nat
  deriving DecidableEq, Repr, Inhabited

namespace TypeId

/-! The types that every program can name, in the order in which the table creates them. -/

def program : TypeId := ⟨0⟩
def noReturn : TypeId := ⟨1⟩
def object : TypeId := ⟨2⟩
def reference : TypeId := ⟨3⟩
def value : TypeId := ⟨4⟩
def nil : TypeId := ⟨5⟩
def bool : TypeId := ⟨6⟩
def int32 : TypeId := ⟨7⟩
def char : TypeId := ⟨8⟩
def symbol : TypeId := ⟨9⟩
def void : TypeId := ⟨10⟩
def string : TypeId := ⟨11⟩
def array : TypeId := ⟨12⟩
def pointer : TypeId := ⟨13⟩

def insertSorted (t : TypeId) : List TypeId → List TypeId
  | [] => [t]
  | u :: rest => if t.index ≤ u.index then t :: u :: rest else u :: insertSorted t rest

/-- The types in the order of their numbers. -/
def sort (ts : List TypeId) : List TypeId :=
  ts.foldr insertSorted []

end TypeId

end Callsite
