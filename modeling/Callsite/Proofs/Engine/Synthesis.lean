import Callsite.Inference.Check
import Callsite.Proofs.Types.Matching
import Callsite.Proofs.Types.Regular

/-!
# What generated methods serve

When nothing fits a call, methods are generated for it: constructors for `new` on a class, or one
forwarder to `method_missing`.  They take as many arguments as the call passes, and the same call
finds them the next time, but only if it has no block: the bodies that are generated never yield.
With a block they are generated again at every resolution.
-/

namespace Callsite

variable {owner cls : TypeId} {name : String} {count : Nat} {ids : List MethodId}
  {decl : MethodDecl} {t t' : TypeTable}

/-! ## The declarations -/

/-- A declaration for calls with `count` arguments and no block. -/
structure MethodDecl.IsFor (decl : MethodDecl) (name : String) (count : Nat) : Prop where
  name_eq : decl.name = name
  length_eq : decl.params.length = count
  yields_eq : decl.yields = none

theorem MethodDecl.IsFor.accepts (h : decl.IsFor name count) (id : MethodId) (owner : TypeId)
    (origin : Origin) (hasBlock : Bool) :
    Method.accepts ⟨id, decl, owner, origin, decl.yields⟩ count hasBlock = !hasBlock := by
  have harity : decl.acceptsArity count = true := by
    simp [acceptsArity, requiredParams, ← h.length_eq, List.countP_le_length]
  rw [Method.accepts, harity, h.yields_eq]
  cases hasBlock <;> rfl

theorem yieldAritiesOf_argVars (names : List String) :
    Expr.yieldAritiesOf (argVars names) = [] := by
  induction names with
  | nil => rfl
  | cons name names ih => exact ih

theorem yields_generated (name : String) (count : Nat) (params : List Param)
    (allocated : Option TypeExpr) :
    (constructorDecl count params allocated).yields = none ∧
      (forwarderDecl name count).yields = none := by
  by_cases hcount : count = 0 <;>
    simp [hcount, constructorDecl, forwarderDecl, MethodDecl.generated, MethodDecl.yields,
      Expr.maxYield, Expr.generated, Call.plain, Expr.yieldArities, Form.yieldArities,
      Call.yieldArities, Expr.yieldAritiesOf, Expr.yieldAritiesOf?, Block.yieldAritiesOf?,
      yieldAritiesOf_argVars]

namespace TypeTable

/-! ## Registering them -/

/-- The methods `ids` were registered after the table `t`, for calls with `count` arguments.  A
later one may have taken the slot of an earlier one with the same signature. -/
structure Registers (t t' : TypeTable) (owner : TypeId) (name : String) (count : Nat)
    (ids : List MethodId) : Prop where
  extends_ : t.Extends t'
  fresh : ∀ id ∈ ids, t.methods.size ≤ id.index ∧ id.index < t'.methods.size
  isFor : ∀ id ∈ ids, ∃ decl origin, decl.IsFor name count ∧
    t'.method id = ⟨id, decl, owner, origin, decl.yields⟩
  active : ∀ id ∈ ids, ∃ other ∈ ids, other ∈ t'.methods.slots ∧
    (t'.method other).decl.signature = (t'.method id).decl.signature

theorem Registers.nil (h : t.Extends t') : t.Registers t' owner name count [] :=
  ⟨h, by simp, by simp, by simp⟩

theorem Registers.register (h : t.Registers t' owner name count ids) (origin : Origin)
    (hdecl : decl.IsFor name count) :
    t.Registers (register owner decl origin t').2 owner name count
      (ids ++ [⟨t'.methods.size⟩]) := by
  have hnew := method_register_self owner decl origin t'
  have hold : ∀ id ∈ ids, (TypeTable.register owner decl origin t').2.method id = t'.method id :=
    fun id hid => method_register_of_lt (h.fresh id hid).2
  have hsize : (TypeTable.register owner decl origin t').2.methods.size = t'.methods.size + 1 :=
    Array.size_push _
  have hslot : ⟨t'.methods.size⟩ ∈ (TypeTable.register owner decl origin t').2.methods.slots :=
    MethodTable.self_mem_fillSlot _ _ _
  refine ⟨h.extends_.trans (register_builds owner decl origin).1, ?_, ?_, ?_⟩
  all_goals
    intro id hid
    rcases List.mem_append.1 hid with hid | hid
    on_goal 2 => obtain rfl := List.mem_singleton.1 hid
  · exact ⟨(h.fresh id hid).1, hsize ▸ Nat.lt_succ_of_lt (h.fresh id hid).2⟩
  · exact ⟨h.extends_.grows.methods_le, hsize ▸ Nat.lt_succ_self _⟩
  · rw [hold id hid]
    exact h.isFor id hid
  · exact ⟨decl, origin, hdecl, hnew⟩
  · obtain ⟨other, hother, hactive, hsignature⟩ := h.active id hid
    rw [hold id hid, ← hsignature]
    by_cases hreplaced : t'.methods.replacedBy owner decl other = true
    · refine ⟨_, List.mem_append_right _ (List.mem_singleton_self _), hslot, ?_⟩
      rw [hnew]
      simp only [MethodTable.replacedBy, Bool.and_eq_true, beq_iff_eq] at hreplaced
      exact hreplaced.2.symm
    · refine ⟨other, List.mem_append_left _ hother, ?_, by rw [hold other hother]⟩
      exact MethodTable.mem_fillSlot_of_mem hactive (by simpa using hreplaced)
  · exact ⟨_, List.mem_append_right _ (List.mem_singleton_self _), hslot, rfl⟩

theorem Registers.constructors (inits : List Match) (h : t.Registers t' owner "new" count ids) :
    t.Registers (inits.mapM (constructorFor owner cls count) t').2 owner "new" count
      (ids ++ (inits.mapM (constructorFor owner cls count) t').1.map (·.method)) := by
  induction inits generalizing t' ids with
  | nil => simpa using h
  | cons init inits ih =>
    rw [List.mapM_cons, run_bind, run_bind, run_pure, List.map_cons, List.append_cons]
    exact ih (h.register .constructor
      ⟨rfl, length_params_constructorDecl _ _ _, (yields_generated "" _ _ _).1⟩)

/-! ## Finding them again -/

/-- Methods are looked for first on the owner itself. -/
theorem Regular.head_methodChain (hr : t.Regular) (hg : t.Grows t')
    (hplain : t.isHierarchy owner = false)
    (hshape : t.shape owner ≠ .noReturn ∧ ∀ members, t.shape owner ≠ .union members) :
    ∃ above, t'.methodChain owner = owner :: above := by
  have hk : t.Known owner := known_of_shape_ne hshape.1
  have hgrows := hg.shape owner hk
  rw [isHierarchy] at hplain
  rw [methodChain]
  generalize hs : t.shape owner = a at hgrows hshape hplain
  generalize t'.shape owner = b at hgrows
  cases hgrows with
  | same =>
    cases a with
    | metaclass instances =>
      have hfind := hg.find?_eq_some (by simp) (by simp) (hr.find?_of_shape hk hs rfl)
      simp [ancestors, hfind]
    | hierarchy | hierarchyMetaclass => simp at hplain
    | union members => exact absurd rfl (hshape.2 members)
    | noReturn => exact absurd rfl hshape.1
    | _ => exact ⟨_, rfl⟩
  | cls | library => exact ⟨_, rfl⟩

end TypeTable

namespace Infer

variable {call : CallId} {args : List TypeId} {s s' : Session} {set : MatchSet}

/-- Methods are generated for a call: constructors for `new` on a class, or a forwarder on an owner
that answers to `method_missing`. -/
inductive Generates (call : CallId) (owner : TypeId) (args : List TypeId) (s : Session) :
    String → MatchSet → Session → Prop
  | constructors {set : MatchSet} {s' : Session} (hclass : s.types.isConstructible owner = true)
      (hrun : defineConstructors call owner args s = .ok set s') :
      Generates call owner args s "new" set s'
  | forwarder {name : String} {set : MatchSet} {s' : Session}
      (hmissing :
        (s.types.firstMethod? owner "method_missing" (s.call call).hasBlock).isSome = true)
      (hrun : defineForwarder call owner name args s = .ok set s') :
      Generates call owner args s name set s'

theorem of_build_eq_ok {α : Type} {x : Build α} {a : α} (h : build x s = .ok a s') :
    a = (x s.types).1 ∧ s' = { s with types := (x s.types).2 } := by
  cases h
  exact ⟨rfl, rfl⟩

theorem defineConstructors_registers (hf : s.types.Founded)
    (h : defineConstructors call owner args s = .ok set s') :
    set.found ≠ [] ∧
      s.types.Registers s'.types owner "new" args.length (set.found.map (·.method)) := by
  have hlookup := (TypeTable.lookupMatches_builds hf (s.types.instanceType owner) "initialize" args
    (s.call call).hasBlock 0).1
  obtain ⟨s0, s1, hget, h⟩ := ok_of_bind_ok h
  cases hget
  obtain ⟨inits, s1, hinits, h⟩ := ok_of_bind_ok h
  obtain ⟨rfl, rfl⟩ := of_build_eq_ok hinits
  generalize TypeTable.lookupMatches (s.types.instanceType owner) "initialize" args
    (s.call call).hasBlock s.types = inits at h hlookup
  split at h
  next hsome =>
    obtain ⟨found, s2, hfound, h⟩ := ok_of_bind_ok h
    obtain ⟨rfl, rfl⟩ := of_build_eq_ok hfound
    cases h
    refine ⟨?_, (TypeTable.Registers.nil hlookup).constructors inits.1.found⟩
    cases hinits : inits.1.found with
    | nil => simp [MatchSet.isEmpty, hinits] at hsome
    | cons init rest => simp [MatchSet.complete, List.mapM_cons, TypeTable.run_bind]
  next =>
    obtain ⟨s0, s2, hget, h⟩ := ok_of_bind_ok h
    cases hget
    dsimp only at h
    split at h
    next =>
      obtain ⟨_, _, hfail, -⟩ := ok_of_bind_ok h
      cases hfail
    next =>
      split at h
      next =>
        obtain ⟨_, _, hfail, -⟩ := ok_of_bind_ok h
        cases hfail
      next hargs =>
        obtain ⟨method, s2, hmethod, h⟩ := ok_of_bind_ok h
        obtain ⟨rfl, rfl⟩ := of_build_eq_ok hmethod
        cases h
        obtain rfl : args = [] := by simpa using hargs
        exact ⟨by simp [MatchSet.complete],
          (TypeTable.Registers.nil hlookup).register .constructor ⟨rfl, rfl, rfl⟩⟩

theorem defineForwarder_registers (h : defineForwarder call owner name args s = .ok set s') :
    set.found ≠ [] ∧ s.types.Registers s'.types owner name (s.call call).args.length
      (set.found.map (·.method)) := by
  obtain ⟨s0, s1, hget, h⟩ := ok_of_bind_ok h
  cases hget
  obtain ⟨method, s2, hmethod, h⟩ := ok_of_bind_ok h
  obtain ⟨rfl, rfl⟩ := of_build_eq_ok hmethod
  cases h
  exact ⟨by simp [MatchSet.complete], (TypeTable.Registers.nil (.refl _)).register .methodMissing
    ⟨rfl, TypeTable.length_params_forwarderDecl _ _, (yields_generated _ _ [] none).2⟩⟩

/-- Methods are generated on types that have methods. -/
theorem Generates.owner_shape (h : Generates call owner args s name set s') :
    s.types.shape owner ≠ .noReturn ∧ ∀ members, s.types.shape owner ≠ .union members := by
  cases h with
  | constructors hclass _ =>
    rw [TypeTable.isConstructible] at hclass
    split at hclass
    next hshape => simp [hshape]
    next => simp at hclass
  | forwarder hmissing _ =>
    have hchain : s.types.methodChain owner ≠ [] := by
      intro hnil
      simp [TypeTable.firstMethod?, TypeTable.methodsNamed, hnil] at hmissing
    rw [TypeTable.methodChain] at hchain
    exact ⟨fun hshape => hchain (by rw [hshape]), fun _ hshape => hchain (by rw [hshape])⟩

/-- Every method that is generated for a call takes the arguments of the call, but never a block.
When the same call is resolved again it is among the methods that fit, or another one of them that
has taken its place, just if the call has no block. -/
theorem Generates.accepts_iff_no_block (h : Generates call owner args s name set s')
    (hr : s.types.Regular) (hplain : s.types.isHierarchy owner = false)
    (htyped : args.length = (s.call call).args.length) :
    set.found ≠ [] ∧ ∀ m ∈ set.found, s.types.methods.size ≤ m.method.index ∧
      (∀ hasBlock, (s'.types.method m.method).accepts args.length hasBlock = !hasBlock) ∧
      ∃ m' ∈ set.found, (s'.types.method m'.method).decl.signature
          = (s'.types.method m.method).decl.signature ∧
        ∀ hasBlock, m'.method ∈ s'.types.fittingMethods owner name args.length hasBlock
          ↔ hasBlock = false := by
  have hboth : set.found ≠ [] ∧
      s.types.Registers s'.types owner name args.length (set.found.map (·.method)) := by
    cases h with
    | constructors _ hrun => exact defineConstructors_registers hr.founded hrun
    | forwarder _ hrun => exact htyped ▸ defineForwarder_registers hrun
  obtain ⟨hne, hregisters⟩ := hboth
  obtain ⟨above, hchain⟩ := hr.head_methodChain hregisters.extends_.grows hplain h.owner_shape
  have haccepts : ∀ id ∈ set.found.map (·.method), ∀ hasBlock,
      (s'.types.method id).accepts args.length hasBlock = !hasBlock := by
    intro id hid
    obtain ⟨decl, origin, hdecl, hmethod⟩ := hregisters.isFor id hid
    exact hmethod ▸ hdecl.accepts id owner origin
  refine ⟨hne, fun m hm => ?_⟩
  have hid := List.mem_map_of_mem (f := (·.method)) hm
  refine ⟨(hregisters.fresh _ hid).1, haccepts _ hid, ?_⟩
  obtain ⟨other, hother, hslot, hsignature⟩ := hregisters.active _ hid
  obtain ⟨decl, origin, hdecl, hmethod⟩ := hregisters.isFor other hother
  have hown : other ∈ s'.types.methods.own owner name :=
    TypeTable.mem_own.2 ⟨hslot, by rw [hmethod], by rw [hmethod]; exact hdecl.name_eq⟩
  have hnamed : other ∈ s'.types.methodsNamed owner name := by
    rw [TypeTable.methodsNamed, hchain]
    exact List.mem_append_left _ hown
  obtain ⟨m', hm', rfl⟩ := List.mem_map.1 hother
  refine ⟨m', hm', hsignature, fun hasBlock => ?_⟩
  rw [TypeTable.fittingMethods, List.mem_filter, haccepts _ hother]
  cases hasBlock <;> simp [hnamed]

/-- The standard table with the metaclass `⟨14⟩` of `Reference`. -/
def metaTable : TypeTable :=
  (TypeTable.metaclass .reference .standard).2

/-- A session without calls. -/
def metaSession : Session :=
  { Session.start default with types := metaTable }

/-- A class, and two calls of `new` on it with a block. -/
def blockedTwice : Program :=
  let new : Expr := .generated (.call
    ⟨some (.generated (.path (.named "Foo"))), "new", [], some ⟨[], none⟩, none, false⟩)
  ⟨[.generated (.classDecl ⟨"Foo", none, false, [], []⟩), new, new], none⟩

/-- The table after the check, where the methods `⟨18⟩` and `⟨19⟩` were generated. -/
def blockedTypes : TypeTable :=
  ((Session.start default).check blockedTwice).2.types

/-- What is generated for a call of `new` without a block, and for two with one. -/
theorem generated_runs :
    (TypeTable.standard.Known .reference ∧ metaSession.types.isConstructible ⟨14⟩ = true ∧
      metaSession.types.isHierarchy ⟨14⟩ = false ∧ (metaSession.call ⟨0⟩).args.length = 0 ∧
      (match defineConstructors ⟨0⟩ ⟨14⟩ [] metaSession with
        | .ok _ _ => true
        | .error _ _ => false) = true) ∧
    [blockedTypes.method ⟨18⟩, blockedTypes.method ⟨19⟩].map
        (fun m => (m.owner, m.origin, m.accepts 0 true)) =
      List.replicate 2 (⟨15⟩, .constructor, false) := by
  decide +kernel

/-- An allocator is written and found again. -/
theorem Generates.accepts_iff_no_block_allocator :
    ∃ set s', Generates ⟨0⟩ ⟨14⟩ [] metaSession "new" set s' ∧
      ∃ m ∈ set.found, m.method ∈ s'.types.fittingMethods ⟨14⟩ "new" 0 false := by
  obtain ⟨⟨hk, hclass, hplain, hcount, hok⟩, -⟩ := generated_runs
  cases hrun : defineConstructors ⟨0⟩ ⟨14⟩ [] metaSession with
  | error halt s' => simp [hrun] at hok
  | ok set s' =>
    have h : Generates ⟨0⟩ ⟨14⟩ [] metaSession "new" set s' := .constructors hclass hrun
    have hr : metaTable.Reached := .metaclass .standard hk
    have htypes : metaSession.types = metaTable := by rw [metaSession]
    obtain ⟨hne, hserve⟩ := h.accepts_iff_no_block (htypes ▸ hr.regular) hplain hcount.symm
    obtain ⟨m, hm⟩ := List.exists_mem_of_ne_nil _ hne
    obtain ⟨-, -, m', hm', -, hfits⟩ := hserve m hm
    exact ⟨set, s', h, m', hm', (hfits false).2 rfl⟩

/-- The second call with a block does not find the constructor that was written for the first one,
and another one is written. -/
theorem constructor_not_found_blockedTwice :
    [blockedTypes.method ⟨18⟩, blockedTypes.method ⟨19⟩].map
        (fun m => (m.owner, m.origin, m.accepts 0 true)) =
      List.replicate 2 (⟨15⟩, .constructor, false) :=
  generated_runs.2

end Infer

end Callsite
