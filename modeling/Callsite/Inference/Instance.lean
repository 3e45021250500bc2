import Callsite.Matching.Overload

/-!
# Instances of methods

An instance is a method with its body inferred for one owner and one list of
argument types.  Instances are shared: the cache finds the instance for a key,
and an instance enters the cache before its body is looked at, so that a
recursive call finds it.
-/

namespace Callsite

/-- A method for given argument types. -/
structure Instance where
  method : MethodId
  owner : TypeId
  selfType : TypeId
  args : List TypeId
  /-- The nodes of the parameters that the call passes. -/
  params : List NodeId
  node : NodeId
  body : Option NodeId
  kind : MatchKind
  scope : Option ScopeId
  free : Bindings

instance : Inhabited Instance :=
  ⟨⟨default, default, default, [], [], default, none, .direct, none, .empty⟩⟩

/-- What tells instances apart. -/
structure InstanceKey where
  method : MethodId
  owner : TypeId
  /-- The argument types after restriction; for `super` they follow the type of `self`. -/
  args : List TypeId
  /-- The type of the block, for methods that declare their block. -/
  block : Option TypeId
  deriving DecidableEq, Repr

/-- A request for an instance that calls may share. -/
structure Request where
  method : MethodId
  owner : TypeId
  /-- The type of `self` that a call of `super` keeps; any other call has the owner's. -/
  selfType : Option TypeId
  args : List TypeId
  block : Option TypeId
  deriving DecidableEq, Repr, Inhabited

/-- The key under which the cache keeps the answer to a request. -/
def Request.key (r : Request) : InstanceKey :=
  ⟨r.method, r.owner, r.selfType.toList ++ r.args, r.block⟩

/-- The instances by key, and how often they were asked for. -/
structure InstanceCache where
  entries : List (InstanceKey × InstanceId)
  hits : Nat
  misses : Nat
  deriving Repr, Inhabited

namespace InstanceCache

def empty : InstanceCache := ⟨[], 0, 0⟩

def size (c : InstanceCache) : Nat :=
  c.entries.length

def find? (c : InstanceCache) (key : InstanceKey) : Option InstanceId :=
  c.entries.lookup key

/-- Ask for the instance for a key; the question is counted as a hit or a miss. -/
def ask (c : InstanceCache) (key : InstanceKey) : Option InstanceId × InstanceCache :=
  match c.find? key with
  | some id => (some id, { c with hits := c.hits + 1 })
  | none => (none, { c with misses := c.misses + 1 })

/-- Enter an instance, in place of an earlier one for the same key. -/
def insert (c : InstanceCache) (key : InstanceKey) (id : InstanceId) : InstanceCache :=
  { c with entries := (key, id) :: c.entries.filter fun entry => entry.1 != key }

end InstanceCache

end Callsite
