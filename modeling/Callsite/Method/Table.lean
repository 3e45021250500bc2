import Callsite.Program.Yield

/-!
# The method table

Every method, written or generated, is registered here once and keeps its number
for good.  A new method takes the slot of an active one with the same owner and
signature; otherwise it opens a slot at the end.  Overload resolution reads the
slots in order, so the order of first declaration is kept.
-/

namespace Callsite

/-- Where a method came from. -/
inductive Origin where
  | user
  /-- A generated `new` that forwards to `initialize`. -/
  | constructor
  | methodMissing
  /-- Built in: standard methods, struct accessors, `call` on functions. -/
  | primitive
  | external
  deriving DecidableEq, Repr, Inhabited

/-- A method as it is registered. -/
structure Method where
  id : MethodId
  decl : MethodDecl
  owner : TypeId
  origin : Origin
  /-- The largest number of values yielded; a method that yields takes a block. -/
  yields : Option Nat

instance : Inhabited Method := ⟨⟨default, default, default, default, none⟩⟩

namespace Method

def name (m : Method) : String :=
  m.decl.name

/-- Whether the method takes `arity` arguments and, just as the call does, a block or none. -/
def accepts (m : Method) (arity : Nat) (hasBlock : Bool) : Bool :=
  m.decl.acceptsArity arity && m.yields.isSome == hasBlock

end Method

/-- What tells two overloads of one owner and name apart. -/
structure Signature where
  restrictions : List (Option TypeExpr)
  hasBlockParam : Bool
  takesBlock : Bool
  deriving DecidableEq

/-- The signature of a declaration. -/
def MethodDecl.signature (d : MethodDecl) : Signature where
  restrictions := d.params.map (·.restriction)
  hasBlockParam := d.blockParam.isSome
  takesBlock := d.yields.isSome

/-- All methods, and the active ones in the order of their slots. -/
structure MethodTable where
  methods : Array Method
  slots : List MethodId
  deriving Inhabited

namespace MethodTable

def empty : MethodTable := ⟨#[], []⟩

def size (t : MethodTable) : Nat :=
  t.methods.size

def get? (t : MethodTable) (id : MethodId) : Option Method :=
  t.methods[id.index]?

def get (t : MethodTable) (id : MethodId) : Method :=
  (t.get? id).getD default

/-- Whether the method in a slot gives way to a new declaration on `owner`. -/
def replacedBy (t : MethodTable) (owner : TypeId) (decl : MethodDecl) (slot : MethodId) : Bool :=
  let old := t.get slot
  old.owner == owner && old.name == decl.name && old.decl.signature == decl.signature

/-- Put `id` into the first slot that satisfies `p`, or into a new one at the end. -/
def fillSlot (p : MethodId → Bool) (id : MethodId) : List MethodId → List MethodId
  | [] => [id]
  | slot :: rest => if p slot then id :: rest else slot :: fillSlot p id rest

/-- Register a method under a new number. -/
def register (t : MethodTable) (owner : TypeId) (decl : MethodDecl) (origin : Origin) :
    MethodId × MethodTable :=
  let id : MethodId := ⟨t.methods.size⟩
  (id,
    { methods := t.methods.push ⟨id, decl, owner, origin, decl.yields⟩
      slots := fillSlot (t.replacedBy owner decl) id t.slots })

/-- The active methods declared directly on `owner`. -/
def allOwn (t : MethodTable) (owner : TypeId) : List MethodId :=
  t.slots.filter fun id => (t.get id).owner == owner

/-- The active methods called `name` declared directly on `owner`, in declaration order. -/
def own (t : MethodTable) (owner : TypeId) (name : String) : List MethodId :=
  t.slots.filter fun id => (t.get id).owner == owner && (t.get id).name == name

end MethodTable

end Callsite
