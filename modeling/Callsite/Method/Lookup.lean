import Callsite.Spelling
import Callsite.Types.Ancestry

/-!
# Looking up methods

The methods a type answers to are its own and those of its ancestors, the
nearest first.  A generated constructor belongs to one class only and is not
inherited.
-/

namespace Callsite.TypeTable

/-- The types whose methods an owner has, in the order of lookup. -/
def methodChain (t : TypeTable) (owner : TypeId) : List TypeId :=
  match t.shape owner with
  | .cls _ | .applied _ _ => t.ancestors owner
  | .hierarchy base => t.ancestors base
  | .metaclass instances => (t.ancestors instances).filterMap fun c => t.find? (.metaclass c)
  | .hierarchyMetaclass base => (t.ancestors base).filterMap fun c => t.find? (.metaclass c)
  | .union _ | .noReturn => []
  | _ => [owner]

/-- The methods called `name` that the types below the head of a chain pass on to a
metaclass: all but generated constructors. -/
def inheritedByMeta (t : TypeTable) (name : String) (chain : List TypeId) : List MethodId :=
  (chain.flatMap (t.methods.own · name)).filter fun id => (t.method id).origin != .constructor

/-- The methods of a name that an owner has, in the order of lookup. -/
def methodsNamed (t : TypeTable) (owner : TypeId) (name : String) : List MethodId :=
  match t.methodChain owner with
  | [] => []
  | nearest :: above =>
    t.methods.own nearest name
      ++ (if t.isMetaclass owner then t.inheritedByMeta name above
          else above.flatMap (t.methods.own · name))

/-- The methods of that name that take `arity` arguments and, as asked, a block or none. -/
def fittingMethods (t : TypeTable) (owner : TypeId) (name : String) (arity : Nat)
    (hasBlock : Bool) : List MethodId :=
  (t.methodsNamed owner name).filter fun id => (t.method id).accepts arity hasBlock

/-- The nearest method of that name that, as asked, takes a block or none. -/
def firstMethod? (t : TypeTable) (owner : TypeId) (name : String) (hasBlock : Bool) :
    Option MethodId :=
  (t.methodsNamed owner name).find? fun id => (t.method id).yields.isSome == hasBlock

/-- The names of the methods that `owner` answers to with such a call. -/
def callableNames (t : TypeTable) (owner : TypeId) (arity : Nat) (hasBlock : Bool) :
    List String :=
  ((t.methodChain owner).flatMap t.methods.allOwn).filterMap fun id =>
    let m := t.method id
    if m.accepts arity hasBlock then some m.name else none

/-- The callable method whose name is spelled most like the given one. -/
def similarName? (t : TypeTable) (owner : TypeId) (name : String) (arity : Nat)
    (hasBlock : Bool) : Option String :=
  (Spelling.suggestions name (t.callableNames owner arity hasBlock)).head?

end Callsite.TypeTable
