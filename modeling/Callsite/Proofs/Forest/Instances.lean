import Callsite.Proofs.Engine.Instantiation
import Callsite.Proofs.Forest.Planting
import Callsite.Proofs.Forest.Updates

/-!
# Instances without parameters

A method without parameters whose body is a literal, or the allocation of an object, has one
instance for each owner.  The first call makes the instance and gives it the type of the body,
later calls find it in the cache.
-/

namespace Callsite

open TypeTable FlowGraph

variable {node : NodeId} {taken' taken : List NodeId} {scope : ScopeId} {fuel : Nat} {α : Type}
  {id : InstanceId} {body : Expr} {s' : Session}

/-! ## Runs -/

namespace Infer

variable {α β : Type} {x : Infer α} {f : α → Infer β} {s s' : Session} {a : α}
  {P Q : α → Session → Prop}

/-- A computation returns, and `Q` holds of its result. -/
def Runs (x : Infer α) (s : Session) (Q : α → Session → Prop) : Prop :=
  ∃ a s', Returns x s a s' ∧ Q a s'

theorem Returns.runs (h : Returns x s a s') (hq : Q a s') : Runs x s Q :=
  ⟨a, s', h, hq⟩

theorem Returns.runs_bind {R : β → Session → Prop} (h : Returns x s a s') (hf : Runs (f a) s' R) :
    Runs (x >>= f) s R := by
  obtain ⟨b, s'', hrun, hr⟩ := hf
  exact ⟨b, s'', h.bind hrun, hr⟩

namespace Runs

theorem bind {R : β → Session → Prop} (h : Runs x s P) (hf : ∀ a s', P a s' → Runs (f a) s' R) :
    Runs (x >>= f) s R := by
  obtain ⟨a, s', hrun, hp⟩ := h
  exact hrun.runs_bind (hf a s' hp)

theorem get_bind {g : Session → Infer β} {R : β → Session → Prop} (h : Runs (g s) s R) :
    Runs (get >>= g) s R :=
  h

theorem mono (h : Runs x s P) (hpq : ∀ a s', P a s' → Q a s') : Runs x s Q := by
  obtain ⟨a, s', hrun, hp⟩ := h
  exact ⟨a, s', hrun, hpq a s' hp⟩

/-- One computation after the other, for the elements of a list: each keeps a relation between
sessions, and what was achieved for an element stays achieved. -/
theorem mapM {R : Session → Session → Prop} {achieved : α → β → Session → Prop} (hrefl : ∀ s, R s s)
    (htrans : ∀ {s s' s''}, R s s' → R s' s'' → R s s'')
    (hstable : ∀ {a b s s'}, achieved a b s → R s s' → achieved a b s') (l : List α)
    (hf : ∀ a ∈ l, ∀ s', R s s' → Runs (f a) s' fun b s'' => R s' s'' ∧ achieved a b s'') :
    Runs (l.mapM f) s fun bs s' => R s s' ∧ List.Forall₂ (achieved · · s') l bs := by
  induction l generalizing s with
  | nil => exact Returns.runs (.pure [] s) ⟨hrefl s, .nil⟩
  | cons first rest ih =>
    rw [List.mapM_cons]
    refine (hf first List.mem_cons_self s (hrefl s)).bind fun b s1 hfirst => ?_
    have hrest := ih fun a ha s' hs' =>
      hf a (List.mem_cons_of_mem first ha) s' (htrans hfirst.1 hs')
    refine hrest.bind fun bs s2 hbs => Returns.runs (.pure _ _) ?_
    exact ⟨htrans hfirst.1 hbs.1, .cons (hstable hfirst.2 hbs.1) hbs.2⟩

end Runs

end Infer

/-! ## Bodies with a value -/

namespace TypeTable

variable {t t' : TypeTable} {owner type : TypeId} {method : MethodId} {form : Form}

/-- The type of a body that is a literal or allocates an object of the class behind `self`. -/
def valueOf? (t : TypeTable) (self : TypeId) : Form → Option TypeId
  | .nil => some .nil
  | .bool _ => some .bool
  | .int _ => some .int32
  | .char _ => some .char
  | .str _ => some .string
  | .symbol _ => some .symbol
  | .allocate none =>
    match t.shape self with
    | .metaclass instances => some instances
    | _ => none
  | _ => none

theorem valueOf?_literal (t : TypeTable) (self : TypeId) (literal : Forest.Literal) :
    t.valueOf? self literal.form = some literal.type := by
  cases literal <;> rfl

theorem Grows.valueOf?_eq_some (hg : t.Grows t') (h : t.valueOf? owner form = some type) :
    t'.valueOf? owner form = some type := by
  rw [valueOf?.eq_def] at h ⊢
  split at h
  case h_7 =>
    split at h
    next instances hshape =>
      simp only [hg.shape_fixed hshape (by simp) (by simp) (by simp)]
      exact h
    next => simp at h
  all_goals exact h

/-- The types of literals and of objects are in the table. -/
theorem Founded.known_of_valueOf? (hf : t.Founded) (h : t.valueOf? owner form = some type) :
    t.Known type := by
  have hstandard : ∀ i, i ≤ TypeId.pointer.index → t.Known ⟨i⟩ :=
    fun i hi => hi.trans_lt hf.standard
  rw [valueOf?.eq_def] at h
  split at h
  case h_7 =>
    split at h
    next instances hshape =>
      obtain ⟨hk, hbelow⟩ := hf.below_of_shape hshape (by simp)
      cases h
      exact hbelow.trans hk
    next => simp at h
  case h_8 => simp at h
  all_goals
    cases h
    exact hstandard _ (by decide)

/-- A method without parameters whose body has a value of the given type. -/
structure Evaluates (t : TypeTable) (method : MethodId) (owner type : TypeId) : Prop where
  known : method.index < t.methods.size
  params : (t.method method).decl.params = []
  blockParam : (t.method method).decl.blockParam = none
  body : ∃ body, (t.method method).decl.body = some body ∧
    t.valueOf? owner body.form = some type

variable (h : t.Evaluates method owner type)
include h

theorem Evaluates.later (hg : t.Grows t') : t'.Evaluates method owner type := by
  have hmethod := hg.method method h.known
  obtain ⟨body, hbody, hvalue⟩ := h.body
  refine ⟨h.known.trans_le hg.methods_le, ?_, ?_, body, ?_, hg.valueOf?_eq_some hvalue⟩
  · rw [hmethod, h.params]
  · rw [hmethod, h.blockParam]
  · rw [hmethod, hbody]

theorem Evaluates.known_type (hf : t.Founded) : t.Known type := by
  obtain ⟨body, -, hvalue⟩ := h.body
  exact hf.known_of_valueOf? hvalue

theorem Evaluates.unique {type' : TypeId} (h' : t.Evaluates method owner type') : type = type' := by
  obtain ⟨body, hbody, hvalue⟩ := h.body
  obtain ⟨body', hbody', hvalue'⟩ := h'.body
  obtain rfl := Option.some.inj (hbody.symm.trans hbody')
  exact Option.some.inj (hvalue.symm.trans hvalue')

end TypeTable

/-! ## Sessions with such instances -/

namespace Session

variable {s s' s'' : Session} {taken : List NodeId} {id : InstanceId} {call : CallId}

/-- An instance of such a method, with the type of its body.  Its node is none of those taken. -/
structure Settled (s : Session) (taken : List NodeId) (id : InstanceId) : Prop where
  selfType : (s.instanceAt id).selfType = (s.instanceAt id).owner
  args : (s.instanceAt id).args = []
  has : s.HasNode (s.instanceAt id).node
  apart : (s.instanceAt id).node ∉ taken
  value : ∃ type, s.types.Evaluates (s.instanceAt id).method (s.instanceAt id).owner type ∧
    s.typeOf (s.instanceAt id).node = some type

/-- All instances are of such methods, and the cache finds them by method and owner. -/
structure Stocked (s : Session) (taken : List NodeId) : Prop where
  thawed : ∀ node, (s.flow.get node).frozen = false
  settled : ∀ id, s.HasInstance id → s.Settled taken id
  cached : ∀ key id, s.cache.find? key = some id → s.HasInstance id ∧
    (s.instanceAt id).method = key.method ∧ (s.instanceAt id).owner = key.owner

/-- What was there before is left alone: there may be more types, nodes, scopes and instances
afterwards, and the call may watch more bases. -/
structure Retains (call : CallId) (s s' : Session) : Prop where
  grows : s.types.Grows s'.types
  size_le : s.flow.size ≤ s'.flow.size
  nodes : ∀ node, s.HasNode node → s'.flow.get node = s.flow.get node
  calls : s'.calls = s.calls
  scopes_le : s.scopes.size ≤ s'.scopes.size
  scopes : ∀ scope : ScopeId, scope.index < s.scopes.size → s'.scope scope = s.scope scope
  instances_le : s.instances.size ≤ s'.instances.size
  instances : ∀ id, s.HasInstance id → s'.instanceAt id = s.instanceAt id
  watched : ∀ pair ∈ s.watch.pairs, pair ∈ s'.watch.pairs
  watches : ∀ pair ∈ s'.watch.pairs, pair ∈ s.watch.pairs ∨ pair.1 = call
  agrees : s.watch.Agrees → s'.watch.Agrees
  room : s.HasRoom → s'.HasRoom
  stocked : ∀ taken, (∀ node ∈ taken, s.HasNode node) → s.Stocked taken → s'.Stocked taken

/-- What resolving a call leaves alone: the only new types are hierarchies and unions. -/
structure Enlarges (call : CallId) (s s' : Session) : Prop extends Retains call s s' where
  widens : s.types.Widens s'.types
  regular : s.types.Regular → s'.types.Regular

namespace Retains

theorem refl (call : CallId) (s : Session) : s.Retains call s where
  grows := .refl _
  size_le := Nat.le_refl _
  nodes := fun _ _ => rfl
  calls := rfl
  scopes_le := Nat.le_refl _
  scopes := fun _ _ => rfl
  instances_le := Nat.le_refl _
  instances := fun _ _ => rfl
  watched := fun _ => id
  watches := fun _ => Or.inl
  agrees := id
  room := id
  stocked := fun _ _ => id

variable (h : s.Retains call s')
include h

theorem trans (h' : s'.Retains call s'') : s.Retains call s'' where
  grows := h.grows.trans h'.grows
  size_le := h.size_le.trans h'.size_le
  nodes := fun node hn =>
    (h'.nodes node (hn.trans_le h.size_le)).trans (h.nodes node hn)
  calls := h'.calls.trans h.calls
  scopes_le := h.scopes_le.trans h'.scopes_le
  scopes := fun scope hs =>
    (h'.scopes scope (hs.trans_le h.scopes_le)).trans (h.scopes scope hs)
  instances_le := h.instances_le.trans h'.instances_le
  instances := fun id hid =>
    (h'.instances id (hid.trans_le h.instances_le)).trans (h.instances id hid)
  watched := fun pair hpair => h'.watched pair (h.watched pair hpair)
  watches := fun pair hpair => (h'.watches pair hpair).elim (h.watches pair) Or.inr
  agrees := fun hs => h'.agrees (h.agrees hs)
  room := fun hs => h'.room (h.room hs)
  stocked := fun taken htaken hs =>
    h'.stocked taken (fun node hn => (htaken node hn).trans_le h.size_le)
      (h.stocked taken htaken hs)

theorem call_eq (other : CallId) : s'.call other = s.call other := by
  rw [Session.call, h.calls, Session.call]

theorem hasInstance (hid : s.HasInstance id) : s'.HasInstance id :=
  hid.trans_le h.instances_le

theorem typeOf_eq (hn : s.HasNode node) : s'.typeOf node = s.typeOf node := by
  rw [Session.typeOf, FlowGraph.typeOf, h.nodes node hn]
  rfl

end Retains

namespace Enlarges

theorem refl (call : CallId) (s : Session) : s.Enlarges call s where
  toRetains := .refl call s
  widens := .refl _
  regular := id

theorem trans (h : s.Enlarges call s') (h' : s'.Enlarges call s'') : s.Enlarges call s'' where
  toRetains := h.toRetains.trans h'.toRetains
  widens := h.widens.trans h'.widens
  regular := fun hr => h'.regular (h.regular hr)

end Enlarges

/-- Instances stay what they are while their nodes keep their types.  New nodes may be taken. -/
theorem Settled.later (h : s.Settled taken id) (hg : s.types.Grows s'.types)
    (hsize : s.flow.size ≤ s'.flow.size) (hinst : s'.instanceAt id = s.instanceAt id)
    (htype : s'.typeOf (s.instanceAt id).node = s.typeOf (s.instanceAt id).node)
    (htaken : ∀ node ∈ taken', node ∈ taken ∨ ¬ s.HasNode node) : s'.Settled taken' id := by
  obtain ⟨type, hevaluates, htypeOf⟩ := h.value
  refine ⟨?_, ?_, ?_, ?_, type, ?_, ?_⟩
  · rw [hinst, h.selfType]
  · rw [hinst, h.args]
  · rw [hinst]
    exact h.has.trans_le hsize
  · rw [hinst]
    exact fun hmem => (htaken _ hmem).elim h.apart fun hnew => hnew h.has
  · rw [hinst]
    exact hevaluates.later hg
  · rw [hinst, htype, htypeOf]

theorem Stocked.later (h : s.Stocked taken) (hg : s.types.Grows s'.types)
    (hsize : s.flow.size ≤ s'.flow.size) (hthawed : ∀ node, (s'.flow.get node).frozen = false)
    (hinstances : s'.instances = s.instances)
    (hcache : ∀ key, s'.cache.find? key = s.cache.find? key)
    (htypes : ∀ node, s.HasNode node → node ∉ taken → s'.typeOf node = s.typeOf node)
    (htaken : ∀ node ∈ taken', node ∈ taken ∨ ¬ s.HasNode node) : s'.Stocked taken' := by
  have hinst : ∀ id, s'.instanceAt id = s.instanceAt id := by
    intro id
    rw [instanceAt, hinstances, instanceAt]
  have hhas : ∀ id, s'.HasInstance id ↔ s.HasInstance id := by
    intro id
    rw [HasInstance, hinstances, HasInstance]
  refine ⟨hthawed, fun id hid => ?_, fun key id hfind => ?_⟩
  · have hold := h.settled id ((hhas id).1 hid)
    exact hold.later hg hsize (hinst id) (htypes _ hold.has hold.apart) htaken
  · rw [hhas, hinst]
    exact h.cached key id ((hcache key).symm.trans hfind)

end Session

/-! ## Making instances -/

theorem modify_push_size (a : Array α) (x : α) (f : α → α) :
    (a.push x).modify a.size f = a.push (f x) := by
  apply Array.ext
  · simp
  · intro i hi hi'
    have hlt : i < a.size + 1 := by simpa using hi'
    rw [Array.getElem_modify, Array.getElem_push, Array.getElem_push]
    split
    next heq => simp [← heq]
    next hne => rw [dif_pos (by omega), dif_pos (by omega)]

/-- A change of the latest instance. -/
theorem Session.changeInstance_withInstance (s : Session) (inst : Instance)
    (f : Instance → Instance) :
    (s.withInstance inst).changeInstance ⟨s.instances.size⟩ f = s.withInstance (f inst) := by
  have hchanged := modify_push_size s.instances inst f
  simp only [changeInstance, withInstance, hchanged]

def instanceScope (id : InstanceId) (call : CallId) (found : Match) : Scope where
  parent := none
  vars := .empty
  selfType := found.owner
  methodOwner := found.owner
  inst := some id
  call := some call
  free := found.free
  blockInputs := none
  method := some found.method

def plainInstance (found : Match) (node : NodeId) (scope : ScopeId) (body : Option NodeId) :
    Instance where
  method := found.method
  owner := found.owner
  selfType := found.owner
  args := found.args
  params := []
  node := node
  body := body
  kind := found.kind
  scope := some scope
  free := found.free

/-- The graph with the node of a new instance, which has the type of its body. -/
def FlowGraph.withBody (g : FlowGraph) (span : Span) (type : TypeId) (bodySpan : Span) :
    FlowGraph :=
  ((((g.add .union span).2.addTyped type bodySpan).2).addEdge ⟨g.size⟩ ⟨g.size + 1⟩).setType
    ⟨g.size⟩ (some type)

/-- The session with a new instance, in which the body has been looked at. -/
def Session.stocking (s : Session) (call : CallId) (found : Match) (key : InstanceKey)
    (body : Expr) (type : TypeId) : Session :=
  { (s.withScope (instanceScope ⟨s.instances.size⟩ call found)).withInstance
      (plainInstance found ⟨s.flow.size⟩ ⟨s.scopes.size⟩ (some ⟨s.flow.size + 1⟩)) with
    types := (unionOf [type] s.types).2
    flow := s.flow.withBody (s.types.method found.method).decl.span type body.span
    cache := s.cache.insert key ⟨s.instances.size⟩
    deepestBody := s.enterBody.deepestBody }

namespace FlowGraph

variable (g : FlowGraph) (span : Span) (type : TypeId) (bodySpan : Span)

theorem size_withBody : (g.withBody span type bodySpan).size = g.size + 2 := by
  rw [withBody, size_setType, size_addEdge, addTyped, size_push, add, size_push]

theorem get_withBody_of_lt (h : node.index < g.size) :
    (g.withBody span type bodySpan).get node = g.get node := by
  have hne := ne_of_lt_size h
  have hne' : node ≠ ⟨g.size + 1⟩ := fun heq =>
    (Nat.lt_succ_of_lt h).ne (congrArg NodeId.index heq)
  have hpushed : (g.add .union span).2.get node = g.get node := by
    rw [add, get_push, if_neg (h.ne)]
  have hlt : node.index < (g.add .union span).2.size := by
    rw [add, size_push]
    exact Nat.lt_succ_of_lt h
  rw [withBody, get_setType_of_ne hne, get_addEdge_of_ne hne hne', addTyped, get_push,
    if_neg (hlt.ne), hpushed]

theorem typeOf_withBody_self : (g.withBody span type bodySpan).typeOf ⟨g.size⟩ = some type := by
  apply typeOf_setType_self
  rw [size_addEdge, addTyped, size_push, add, size_push]
  exact Nat.lt_add_of_pos_right (Nat.zero_lt_succ 1)

theorem thawed_withBody (h : ∀ node, (g.get node).frozen = false) (node : NodeId) :
    ((g.withBody span type bodySpan).get node).frozen = false := by
  rw [withBody, frozen_setType, frozen_addEdge, addTyped, get_push]
  split
  · rfl
  · rw [add, get_push]
    split
    · rfl
    · exact h node

end FlowGraph

namespace Session

variable {s : Session} {call : CallId} {found : Match} {key : InstanceKey} {body : Expr}
  {type : TypeId}

theorem instanceAt_stocking_self :
    (s.stocking call found key body type).instanceAt ⟨s.instances.size⟩
      = plainInstance found ⟨s.flow.size⟩ ⟨s.scopes.size⟩ (some ⟨s.flow.size + 1⟩) :=
  (instanceAt_withInstance _ _ _).trans (if_pos rfl)

theorem instanceAt_stocking (h : s.HasInstance id) :
    (s.stocking call found key body type).instanceAt id = s.instanceAt id :=
  (instanceAt_withInstance _ _ _).trans (if_neg (h.ne))

theorem hasInstance_stocking :
    (s.stocking call found key body type).HasInstance id ↔
      s.HasInstance id ∨ id = ⟨s.instances.size⟩ := by
  refine (hasInstance_withInstance (s.withScope (instanceScope ⟨s.instances.size⟩ call found))
    id _).trans ?_
  exact or_congr Iff.rfl ⟨fun h => congrArg InstanceId.mk h, fun h => congrArg InstanceId.index h⟩

/-- A new instance is like the others. -/
theorem Stocked.stocking (hs : s.Stocked taken) (htaken : ∀ node ∈ taken, s.HasNode node)
    (hevaluates : s.types.Evaluates found.method found.owner type) (hargs : found.args = [])
    (hkey : key.method = found.method ∧ key.owner = found.owner) :
    (s.stocking call found key body type).Stocked taken := by
  have hgrows : s.types.Grows (s.stocking call found key body type).types :=
    (unionOf_widens [type] s.types).grows
  have hsize : (s.stocking call found key body type).flow.size = s.flow.size + 2 :=
    size_withBody ..
  have htypeOf : ∀ node, s.HasNode node →
      (s.stocking call found key body type).typeOf node = s.typeOf node := fun node hn =>
    congrArg FlowNode.type (s.flow.get_withBody_of_lt _ type body.span hn)
  constructor
  case thawed => exact s.flow.thawed_withBody _ type body.span hs.thawed
  case settled =>
    intro id hid
    rcases hasInstance_stocking.1 hid with hid | rfl
    · have hold := hs.settled id hid
      exact hold.later hgrows (by omega) (instanceAt_stocking hid) (htypeOf _ hold.has)
        fun _ => Or.inl
    · have hapart : (⟨s.flow.size⟩ : NodeId) ∉ taken := fun hmem =>
        Nat.lt_irrefl _ (htaken _ hmem)
      refine ⟨?_, ?_, ?_, ?_, type, ?_, ?_⟩
      all_goals rw [instanceAt_stocking_self]
      · rfl
      · exact hargs
      · show s.flow.size < (s.stocking call found key body type).flow.size
        omega
      · exact hapart
      · exact hevaluates.later hgrows
      · exact s.flow.typeOf_withBody_self _ type body.span
  case cached =>
    intro key' id hfind
    have hcases := (InstanceCache.find?_insert s.cache key key' ⟨s.instances.size⟩).symm.trans hfind
    split at hcases
    next heq =>
      cases hcases
      rw [instanceAt_stocking_self, heq]
      exact ⟨hasInstance_stocking.2 (Or.inr rfl), hkey.1.symm, hkey.2.symm⟩
    next =>
      obtain ⟨hid, hmethod, howner⟩ := hs.cached key' id hcases
      rw [instanceAt_stocking hid]
      exact ⟨hasInstance_stocking.2 (Or.inl hid), hmethod, howner⟩

/-- A new instance leaves the rest alone. -/
theorem Enlarges.stocking (hevaluates : s.types.Evaluates found.method found.owner type)
    (hargs : found.args = []) (hkey : key.method = found.method ∧ key.owner = found.owner)
    (hregular : s.types.Regular) : s.Enlarges call (s.stocking call found key body type) := by
  have hknown : ∀ x ∈ [type], s.types.Known x := by
    simpa using hevaluates.known_type hregular.founded
  have hwidens : s.types.Widens (s.stocking call found key body type).types :=
    unionOf_widens [type] s.types
  have hsize : (s.stocking call found key body type).flow.size = s.flow.size + 2 :=
    size_withBody ..
  refine ⟨{ Retains.refl call s with
    grows := hwidens.grows, size_le := by omega, nodes := fun node hn => ?_
    scopes_le := ?_, scopes := fun scope hscope => ?_
    instances_le := ?_, instances := fun id hid => instanceAt_stocking hid
    stocked := fun taken htaken hs => hs.stocking htaken hevaluates hargs hkey }, hwidens,
    fun h => h.unionOf hknown⟩
  · exact s.flow.get_withBody_of_lt _ type body.span hn
  · rw [show (s.stocking call found key body type).scopes = s.scopes.push _ from rfl,
      Array.size_push]
    exact Nat.le_succ _
  · exact (scope_withScope s _ scope).trans (if_neg (hscope.ne))
  · rw [show (s.stocking call found key body type).instances = s.instances.push _ from rfl,
      Array.size_push]
    exact Nat.le_succ _

/-- A request that is counted and remembered changes nothing else. -/
theorem Enlarges.answered (s : Session) (hits misses : Nat)
    (answers : List (Request × InstanceId)) :
    s.Enlarges call { s with cache := { s.cache with hits, misses }, answers } where
  __ := Retains.refl call s
  widens := .refl _
  regular := id
  stocked := fun _ _ hs =>
    hs.later (.refl _) le_rfl hs.thawed rfl (fun _ => rfl) (fun _ _ _ => rfl)
      fun _ => Or.inl

end Session

namespace Infer

variable {s : Session} {call : CallId} {found : Match} {type : TypeId}

open Session

/-- A body that has a value is worth a node of its type. -/
theorem visit_value (engine : Engine)
    (h : s.types.valueOf? (s.scope scope).selfType body.form = some type) :
    Returns (visitWith engine scope body) s ⟨s.flow.size⟩
      (s.withFlow (s.flow.addTyped type body.span).2) := by
  obtain ⟨form, span⟩ := body
  simp only at h ⊢
  rw [valueOf?.eq_def] at h
  split at h
  case h_7 =>
    split at h
    next instances hshape =>
      obtain rfl := Option.some.inj h
      have hinstance : s.types.instanceType (s.scope scope).selfType = instances := by
        rw [instanceType, hshape]
      rw [← hinstance]
      exact rfl
    next => simp at h
  case h_8 => simp at h
  all_goals
    cases h
    exact rfl

theorem makeInstance_returns (engine : Engine)
    (hparams : (s.types.method found.method).decl.params = []) :
    Returns (makeInstance engine call found found.owner none) s ⟨s.instances.size⟩
      (((s.withScope (instanceScope ⟨s.instances.size⟩ call found)).withFlow
        (s.flow.add .union (s.types.method found.method).decl.span).2).withInstance
        (plainInstance found ⟨s.flow.size⟩ ⟨s.scopes.size⟩ none)) := by
  have hchanged := changeInstance_withInstance
    ((s.withScope (instanceScope ⟨s.instances.size⟩ call found)).withFlow
      (s.flow.add .union (s.types.method found.method).decl.span).2)
    (plainInstance found ⟨s.flow.size⟩ ⟨s.scopes.size⟩ none) ({ · with params := [] })
  refine .get_bind ?_
  simp only [hparams, List.zip_nil_left, List.drop_nil, List.mapM_nil]
  exact congrArg (EStateM.Result.ok (InstanceId.mk s.instances.size)) hchanged

theorem nested_returns {x : Infer α} {a : α} (span : Span)
    (hroom : s.HasRoom) (h : Returns x s.enterBody a s') :
    Returns (nested span x) s a { s' with instantiationDepth := s'.instantiationDepth - 1 } := by
  have hrun : x s.enterBody = .ok a s' := h
  refine .get_bind ?_
  rw [if_neg (Nat.not_le.2 hroom.1), Returns, insideBody, hrun]

/-- The body of an instance is looked at, and the instance gets its type. -/
theorem visitBody_returns (fuel : Nat) (hnode : s.flow.Wired (s.instanceAt id).node [] [] .union)
    (hscope : (s.instanceAt id).scope = some scope)
    (hbody : (s.types.method (s.instanceAt id).method).decl.body = some body)
    (hvalue : s.types.valueOf? (s.scope scope).selfType body.form = some type)
    (hregular : s.types.Regular) (hc : s.types.OverClasses) (hroom : s.HasRoom) :
    Returns (visitBody (.ofFuel (fuel + 1)) id) s ()
      { s.changeInstance id fun inst => { inst with body := some ⟨s.flow.size⟩ } with
        types := (unionOf [type] s.types).2
        flow := (((s.flow.addTyped type body.span).2).addEdge (s.instanceAt id).node
          ⟨s.flow.size⟩).setType (s.instanceAt id).node (some type)
        deepestBody := s.enterBody.deepestBody } := by
  have hk := hregular.founded.known_of_valueOf? hvalue
  have hknown : ∀ x ∈ [type], s.types.Known x := by simpa using hk
  have hvisit := visit_value (s := s.enterBody) (.ofFuel fuel) hvalue
  have hnested : Returns (nested (s.types.method (s.instanceAt id).method).decl.span
      ((Engine.ofFuel (fuel + 1)).visit scope body)) s ⟨s.flow.size⟩
      { s.withFlow (s.flow.addTyped type body.span).2 with
        deepestBody := s.enterBody.deepestBody } := nested_returns _ hroom hvisit
  have hapart : (s.instanceAt id).node ∉ [(⟨s.flow.size⟩ : NodeId)] := by
    simpa using ne_of_lt_size hnode.has
  have hwired := (hnode.push ⟨some type, [], [], .pinned type, false, body.span⟩).addEdges hapart
  have htypes : ((s.flow.addTyped type body.span).2.addEdge (s.instanceAt id).node
      ⟨s.flow.size⟩).inputTypes (s.instanceAt id).node = [type] := by
    have hinputs : (((s.flow.addTyped type body.span).2.addEdge (s.instanceAt id).node
        ⟨s.flow.size⟩).get (s.instanceAt id).node).inputs = [⟨s.flow.size⟩] := hwired.inputs
    simp [inputTypes, hinputs, typeOf_addTyped_self]
  let s1 : Session :=
    { (s.withFlow (s.flow.addTyped type body.span).2).changeInstance id
        fun inst => { inst with body := some ⟨s.flow.size⟩ } with
      deepestBody := s.enterBody.deepestBody }
  have hconnect := connect_unobserved (s := s1) (.ofFuel (fuel + 1)) rfl hwired htypes
    (by simp) hknown
  rw [show s1.types = s.types from rfl, hregular.unionOf_singleton hc hk] at hconnect
  refine .get_bind ?_
  simp only [hbody, hscope]
  exact hnested.bind hconnect

theorem matchBlock_returns (engine : Engine)
    (h : (s.types.method found.method).decl.blockParam = none) :
    Returns (matchBlock engine call found) s (found, none) s := by
  refine .get_bind ?_
  simp only [h]
  exact .pure _ _

theorem bindParams_returns (engine : Engine) (h : (s.call call).args = []) :
    Returns (bindParams engine call id) s () s := by
  refine .get_bind ?_
  simp only [CallSite.argNodes, h, List.map_nil, List.zip_nil_right]
  exact .pure _ _

theorem Returns.within {x : Infer α} {a : α} (frame : String) (h : Returns x s a s') :
    Returns (Infer.within frame x) s a s' := by
  have hrun : x s = .ok a s' := h
  rw [Returns, Infer.within, hrun]

/-- A new instance is made, entered into the cache and looked at. -/
theorem stocking_runs {k : InstanceId → Infer α} {Q : α → Session → Prop} (key : InstanceKey)
    (frame : String) (hparams : (s.types.method found.method).decl.params = [])
    (hbody : (s.types.method found.method).decl.body = some body)
    (hvalue : s.types.valueOf? found.owner body.form = some type) (hregular : s.types.Regular)
    (hc : s.types.OverClasses) (hroom : s.HasRoom)
    (hk : Runs (k ⟨s.instances.size⟩) (s.stocking call found key body type) Q) :
    Runs (do
      let id ← makeInstance (.ofFuel (fuel + 1)) call found found.owner none
      insertCache key id
      within frame (visitBody (.ofFuel (fuel + 1)) id)
      k id) s Q := by
  let g := (s.flow.add .union (s.types.method found.method).decl.span).2
  let inst := plainInstance found ⟨s.flow.size⟩ ⟨s.scopes.size⟩ none
  let s1 : Session := { (s.withScope (instanceScope ⟨s.instances.size⟩ call found)).withFlow g with
    cache := s.cache.insert key ⟨s.instances.size⟩ }
  have hinserted : Returns (insertCache key ⟨s.instances.size⟩)
    (((s.withScope (instanceScope ⟨s.instances.size⟩ call found)).withFlow g).withInstance inst) ()
    (s1.withInstance inst) := rfl
  have hinst : (s1.withInstance inst).instanceAt ⟨s.instances.size⟩ = inst :=
    (instanceAt_withInstance _ _ inst).trans (if_pos rfl)
  have hscope :
      (s1.withInstance inst).scope ⟨s.scopes.size⟩ = instanceScope ⟨s.instances.size⟩ call found :=
    (scope_withScope s (instanceScope ⟨s.instances.size⟩ call found) ⟨s.scopes.size⟩).trans
      (if_pos rfl)
  have hsize : g.size = s.flow.size + 1 := size_push _ _
  have hwired : g.Wired ⟨s.flow.size⟩ [] [] .union := s.flow.wired_push ⟨rfl, rfl⟩ rfl
  have hvalue' : s1.types.valueOf? ((s1.withInstance inst).scope ⟨s.scopes.size⟩).selfType
      body.form = some type := by
    rw [hscope]
    exact hvalue
  have hvisited := visitBody_returns (s := s1.withInstance inst) fuel
    (by rw [hinst]; exact hwired) (by rw [hinst]; rfl) (by rw [hinst]; exact hbody)
    hvalue' hregular hc hroom
  have hlast : (⟨s.instances.size⟩ : InstanceId) = ⟨s1.instances.size⟩ := rfl
  have hflow : (s1.withInstance inst).flow.size = s.flow.size + 1 := hsize
  rw [hinst, hlast, changeInstance_withInstance, hflow] at hvisited
  refine (makeInstance_returns _ hparams).runs_bind (hinserted.runs_bind ?_)
  exact Returns.runs_bind (hvisited.within frame) hk

/-- A method without parameters is instantiated. -/
theorem instantiate_runs (hs : s.Stocked taken)
    (hevaluates : s.types.Evaluates found.method found.owner type) (hargs : found.args = [])
    (hcallArgs : (s.call call).args = []) (hblock : (s.call call).block = none)
    (hregular : s.types.Regular) (hc : s.types.OverClasses) (hroom : s.HasRoom) :
    Runs (instantiate (.ofFuel (fuel + 1)) call found none) s
      fun id s' => s.Enlarges call s' ∧ s'.watch = s.watch ∧ s'.HasInstance id ∧
        (s'.instanceAt id).method = found.method ∧ (s'.instanceAt id).owner = found.owner := by
  obtain ⟨body, hbody, hvalue⟩ := hevaluates.body
  let request : Request := ⟨found.method, found.owner, none, [], none⟩
  refine (matchBlock_returns _ hevaluates.blockParam).runs_bind ?_
  refine .get_bind ?_
  simp only [hevaluates.blockParam, hblock, hargs, Option.isNone_none, Option.isSome_none,
    Bool.or_false,
    Bool.false_eq_true, if_false, if_true]
  cases hfind : s.cache.find? request.key with
  | some id =>
    have hasked : Returns (askCache request.key) s (some id)
        { s with cache := { s.cache with hits := s.cache.hits + 1 } } := by
      rw [Returns, askCache_eq, InstanceCache.ask, hfind]
    obtain ⟨hid, hmethod, howner⟩ := hs.cached _ _ hfind
    refine hasked.runs_bind (((bindParams_returns _ ?_).within _).runs_bind ?_)
    · exact hcallArgs
    exact Returns.runs rfl ⟨.answered s _ _ _, rfl, hid, hmethod, howner⟩
  | none =>
    let s1 : Session := { s with cache := { s.cache with misses := s.cache.misses + 1 } }
    have hasked : Returns (askCache request.key) s none s1 := by
      rw [Returns, askCache_eq, InstanceCache.ask, hfind]
    refine hasked.runs_bind ?_
    refine stocking_runs request.key _ hevaluates.params hbody hvalue hregular hc hroom ?_
    let s2 : Session := s1.stocking call found request.key body type
    have hstocked : s1.Enlarges call s2 := .stocking hevaluates hargs ⟨rfl, rfl⟩ hregular
    have hhas : s2.HasInstance ⟨s1.instances.size⟩ := hasInstance_stocking.2 (Or.inr rfl)
    have hself : s2.instanceAt ⟨s1.instances.size⟩
        = plainInstance found ⟨s1.flow.size⟩ ⟨s1.scopes.size⟩ (some ⟨s1.flow.size + 1⟩) :=
      instanceAt_stocking_self
    refine Returns.runs rfl
      ⟨(Enlarges.answered s _ _ _).trans (hstocked.trans (.answered _ _ _ _)), rfl, hhas, ?_, ?_⟩
    · exact congrArg Instance.method hself
    · exact congrArg Instance.owner hself

end Infer

end Callsite
