import Callsite.Proofs.Run.State
import Mathlib.Tactic.Simps.Basic

/-!
# The moves of a session

A run is a sequence of small moves, each of which changes one thing about the
session.  Beside the session stands an agenda of what still has to be looked at:
it is not part of the state, but tells which facts about the session are out of
date for the moment.  It also holds locks, for what the computations under way count
on when they have to wait for others.  Whatever every move preserves holds of every run.
-/

namespace Callsite

/-! ## Locks -/

/-- What a computation under way counts on. -/
inductive Lock where
  /-- A node that nothing else takes into use. -/
  | node (node : NodeId)
  /-- A node that a call is given at one position only. -/
  | source (call : CallId) (index : Nat) (node : NodeId)
  /-- A call whose block is being looked at. -/
  | visit (call : CallId)
  /-- An instance that nothing refers to yet. -/
  | inst (id : InstanceId)

/-- What a lock stands for. -/
def Lock.Holds (s : Session) : Lock → Prop
  | .node loose => s.IsLoose loose
  | .source call index input =>
    s.HasCall call ∧ s.HasNode input ∧ (s.call call).Apart index input
  | .visit call =>
    s.HasCall call ∧ (s.call call).blockArg = none ∧
      (s.call call).block.map (·.visit) = some .started
  | .inst id =>
    s.HasInstance id ∧ (∀ key, s.cache.find? key ≠ some id) ∧
      ∀ call, id ∉ (s.call call).resolved

/-! ## The agenda -/

/-- What is out of date and still has to be looked at, and what is locked meanwhile. -/
structure Agenda where
  /-- Nodes that have to derive their type again. -/
  nodes : Set NodeId
  /-- Calls that have to compare their inputs with what they were resolved for. -/
  calls : Set CallId
  /-- Calls on a library whose arguments are being converted. -/
  converting : Set CallId
  /-- Calls that watch a base and have not been told of a class below it. -/
  gaps : Set (CallId × TypeId × TypeId)
  /-- Calls that have lost their targets and are being resolved again. -/
  reopened : Set CallId
  locks : Set Lock

namespace Agenda

/-- More is out of date, and less is locked. -/
protected structure LE (A B : Agenda) : Prop where
  nodes : A.nodes ⊆ B.nodes
  calls : A.calls ⊆ B.calls
  converting : A.converting ⊆ B.converting
  gaps : A.gaps ⊆ B.gaps
  reopened : A.reopened ⊆ B.reopened
  locks : B.locks ⊆ A.locks

instance : LE Agenda := ⟨Agenda.LE⟩

/-- Everything is up to date. -/
def empty : Agenda := ⟨∅, ∅, ∅, ∅, ∅, ∅⟩

/-- Nothing is known to be up to date, as after a failure. -/
def all : Agenda := ⟨.univ, .univ, .univ, .univ, .univ, ∅⟩

theorem le_refl (A : Agenda) : A ≤ A :=
  ⟨subset_rfl, subset_rfl, subset_rfl, subset_rfl, subset_rfl, subset_rfl⟩

theorem le_trans {A B C : Agenda} (h : A ≤ B) (h' : B ≤ C) : A ≤ C where
  nodes := h.nodes.trans h'.nodes
  calls := h.calls.trans h'.calls
  converting := h.converting.trans h'.converting
  gaps := h.gaps.trans h'.gaps
  reopened := h.reopened.trans h'.reopened
  locks := h'.locks.trans h.locks

theorem le_all (A : Agenda) : A ≤ all where
  nodes := Set.subset_univ _
  calls := Set.subset_univ _
  converting := Set.subset_univ _
  gaps := Set.subset_univ _
  reopened := Set.subset_univ _
  locks := Set.empty_subset _

def withNode (A : Agenda) (node : NodeId) : Agenda :=
  { A with nodes := insert node A.nodes }

def withCall (A : Agenda) (call : CallId) : Agenda :=
  { A with calls := insert call A.calls }

def withConverting (A : Agenda) (call : CallId) : Agenda :=
  { A with converting := insert call A.converting }

def withObservers (A : Agenda) (observers : List Observer) : Agenda :=
  { A with
    nodes := A.nodes ∪ {node | .node node ∈ observers}
    calls := A.calls ∪ {call | .call call ∈ observers} }

def dropNode (A : Agenda) (node : NodeId) : Agenda :=
  { A with nodes := A.nodes \ {node} }

def dropCall (A : Agenda) (call : CallId) : Agenda :=
  { A with calls := A.calls \ {call} }

/-- Take a call whose arguments were converted off the agenda. -/
def dropConverting (A : Agenda) (call : CallId) : Agenda :=
  { A with converting := A.converting \ {call} }

def withReopened (A : Agenda) (call : CallId) : Agenda :=
  { A with reopened := insert call A.reopened }

/-- Take a call that has targets again off the agenda. -/
def dropReopened (A : Agenda) (call : CallId) : Agenda :=
  { A with reopened := A.reopened \ {call} }

def withLock (A : Agenda) (lock : Lock) : Agenda :=
  { A with locks := insert lock A.locks }

theorem withLock_le (A : Agenda) (lock : Lock) : A.withLock lock ≤ A where
  __ := le_refl A
  locks := Set.subset_insert lock A.locks

def dropLock (A : Agenda) (lock : Lock) : Agenda :=
  { A with locks := A.locks \ {lock} }

theorem dropLock_le {A : Agenda} {lock : Lock} (h : lock ∉ A.locks) : A.dropLock lock ≤ A where
  __ := le_refl A
  locks := fun _ hother => ⟨hother, fun heq => h (heq ▸ hother)⟩

theorem dropLock_withLock_le {A : Agenda} {lock : Lock} (h : lock ∉ A.locks) :
    (A.withLock lock).dropLock lock ≤ A where
  __ := le_refl A
  locks := fun _ hother => ⟨Or.inr hother, fun heq => h (heq ▸ hother)⟩

/-- A new class opens a gap for every call that watches a base above it. -/
def withGaps (A : Agenda) (s : Session) (t : TypeTable) (cls : TypeId) : Agenda :=
  { A with
    gaps := A.gaps ∪
      {gap | (gap.1, gap.2.1) ∈ s.watch.pairs ∧ t.StandsBelow gap.2.1 cls ∧ gap.2.2 = cls} }

/-- The gaps of a call are dropped when it has to be resolved again. -/
def dropGapsOf (A : Agenda) (call : CallId) : Agenda :=
  { A with gaps := {gap ∈ A.gaps | gap.1 ≠ call} }

/-- Gaps below a base that a call no longer watches are dropped. -/
def dropUnwatched (A : Agenda) (s : Session) : Agenda :=
  { A with gaps := {gap ∈ A.gaps | (gap.1, gap.2.1) ∈ s.watch.pairs} }

end Agenda

/-! ## Changes -/

namespace Session

@[simps] def withFlow (s : Session) (flow : FlowGraph) : Session :=
  { s with flow }

@[simps] def changeCall (s : Session) (call : CallId) (f : CallSite → CallSite) : Session :=
  { s with calls := s.calls.modify call.index f }

@[simps] def changeInstance (s : Session) (id : InstanceId) (f : Instance → Instance) : Session :=
  { s with instances := s.instances.modify id.index f }

/-- A call is about to be resolved: what an earlier resolution bound is dropped. -/
def reopened (s : Session) (call : CallId) (signature : List TypeId) : Session :=
  let site := s.call call
  (s.changeCall call (·.opened signature)).withFlow
    ((site.paramEdges ++ site.blockEdges).foldl
      (fun flow edge => flow.removeEdge edge.1 edge.2)
      ((s.resultNodes site.resolved).foldl
        (fun flow input => flow.removeEdge site.node input) s.flow))

/-- A call is resolved to instances, and depends on their results. -/
def resolvedTo (s : Session) (call : CallId) (targets : List InstanceId) : Session :=
  (s.changeCall call ({ · with targets := some targets })).withFlow
    ((s.resultNodes targets).foldl
      (fun flow input => flow.addEdge (s.call call).node input) s.flow)

/-- A call depends no longer on the results of its targets. -/
def detached (s : Session) (call : CallId) : Session :=
  s.withFlow
    ((s.resultNodes (s.call call).resolved).foldl
      (fun flow input => flow.removeEdge (s.call call).node input) s.flow)

/-- An argument of a call is replaced by its converted form. -/
def converted (s : Session) (call : CallId) (index : Nat) (kind : ConversionKind)
    (source node : NodeId) : Session :=
  (s.changeCall call (·.converted index kind source node)).withFlow
    ((s.flow.removeObserver source (.call call)).addObserver node (.call call))

@[simps] def withCall (s : Session) (site : CallSite) (span : Span) (observed : List NodeId) :
    Session :=
  { s with
    flow :=
      observed.foldl (fun flow input => flow.addObserver input (.call ⟨s.calls.size⟩))
        (s.flow.add .union span).2
    calls := s.calls.push site }

@[simps] def withInstance (s : Session) (inst : Instance) : Session :=
  { s with instances := s.instances.push inst }

@[simps] def withScope (s : Session) (scope : Scope) : Session :=
  { s with scopes := s.scopes.push scope }

@[simps] def withVar (s : Session) (scope : ScopeId) (name : String) (node : NodeId) : Session :=
  { s with
    scopes := s.scopes.modify scope.index fun sc =>
      { sc with vars := sc.vars.insert name node } }

end Session

/-! ## Moves -/

/-- A call that may be added to a session: it is not resolved, its inputs are there and are not
locked, and nobody has looked at its block. -/
structure CallSite.Enters (site : CallSite) (s : Session) (A : Agenda) (observed : List NodeId) :
    Prop where
  node : site.node = ⟨s.flow.size⟩
  targets : site.targets = none
  signature : site.signature = none
  edges : site.paramEdges = [] ∧ site.blockEdges = []
  conversions : site.conversions = []
  inputs : ∀ input ∈ site.inputs, s.HasNode input
  free : ∀ input ∈ site.inputs, .node input ∉ A.locks
  observed : ∀ input ∈ site.inputs, input ∈ observed
  outs : ∀ arg ∈ site.args, arg.isOut = true → s.IsSlot arg.node
  apart : ∀ i arg, site.args[i]? = some arg → arg.isOut = false → site.Apart i arg.node
  written : site.scope.index < s.scopes.size
  scope : site.blockArg ≠ none → s.IsPlain site.scope
  block : ∀ block, site.block = some block → block.Sits s ∧ block.visit = .pending

open Session in
/-- The moves of a session and its agenda, while the calls in `O` are being resolved. -/
inductive Move (O : Set CallId) : Session × Agenda → Session × Agenda → Prop
  /-- More may have to be looked at than is known, and locks may be given up. -/
  | wait {s A A'} (h : A ≤ A') : Move O (s, A) (s, A')
  | lock {s A} {lock : Lock} (h : lock.Holds s) (hinst : ∀ id, lock ≠ .inst id) :
      Move O (s, A) (s, A.withLock lock)
  | aside {s A} (outputs : List (NodeId × DeclaredOutput))
      (instantiationDepth propagationDepth deepestBody deepestWave : Nat)
      (h : ∀ entry ∈ outputs, entry ∈ s.outputs ∨ s.HasNode entry.1) :
      Move O (s, A)
        ({ s with outputs, instantiationDepth, propagationDepth, deepestBody, deepestWave }, A)
  | types {s A} (t : TypeTable) (h : s.types.Extends t) :
      Move O (s, A) ({ s with types := t }, A)
  | declare {s A} {t : TypeTable} {cls parent : TypeId} (h : s.types.Declares t cls parent) :
      Move O (s, A) ({ s with types := t }, A.withGaps s t cls)
  | node {s A} (node : FlowNode) (h : node.IsBlank)
      (hpinned : ∀ type, node.rule = .pinned type → node.type = none ∨ node.type = some type) :
      Move O (s, A) (s.withFlow ⟨s.flow.nodes.push node⟩, A)
  | freeze {s A} (node : NodeId) : Move O (s, A) (s.withFlow (s.flow.setFrozen node true), A)
  | thaw {s A} {call : CallId} {node : NodeId} (hopen : call ∈ O)
      (htargets : (s.call call).targets = none) (hbody : s.body? call = some node) :
      Move O (s, A) (s.withFlow (s.flow.setFrozen node false), A)
  | scope {s A} (scope : Scope) (h : scope.Sits s)
      (hfree : ∀ entry ∈ scope.vars.entries, .node entry.2 ∉ A.locks) :
      Move O (s, A) (s.withScope scope, A)
  | bind {s A} (scope : ScopeId) (name : String) {node : NodeId} (h : s.IsSlot node)
      (hfree : .node node ∉ A.locks) : Move O (s, A) (s.withVar scope name node, A)
  | link {s A} {node input : NodeId} (hnode : s.IsSlot node) (hinput : s.HasNode input) :
      Move O (s, A) (s.withFlow (s.flow.addEdge node input), A.withNode node)
  | joined {s A} {node : NodeId} (h : s.IsJoined node) : Move O (s, A) (s, A.dropNode node)
  | assign {s A} {node : NodeId} {type : TypeId}
      (h : (s.flow.get node).rule = .union → s.flow.inputTypes node ≠ [] → s.Joins node type)
      (hpinned : ∀ pinned, (s.flow.get node).rule = .pinned pinned → type = pinned)
      (hfrozen : (s.flow.get node).frozen = true →
        s.typeOf node = none ∨ s.typeOf node = some type) :
      Move O (s, A)
        (s.withFlow (s.flow.setType node (some type)),
          (A.dropNode node).withObservers (s.flow.get node).observers)
  | kill {s A} {call : CallId} (hcall : s.HasCall call) (hdead : s.HasDeadArg call)
      (hfrozen : (s.flow.get (s.call call).node).frozen = true →
        s.typeOf (s.call call).node = none ∨ s.typeOf (s.call call).node = some .noReturn) :
      Move O (s, A)
        (s.withFlow (s.flow.setType (s.call call).node (some .noReturn)),
          A.withObservers (s.flow.get (s.call call).node).observers)
  | call {s A} (site : CallSite) (span : Span) (observed : List NodeId)
      (h : site.Enters s A observed) :
      Move O (s, A) (s.withCall site span observed, A.withCall ⟨s.calls.size⟩)
  | block {s A} {call : CallId} (block : BlockSite) (h : block.Sits s) (hopen : call ∈ O)
      (htargets : (s.call call).targets = none) (hblockArg : (s.call call).blockArg ≠ none)
      (hpending : block.visit = .pending) :
      Move O (s, A) (s.changeCall call ({ · with block := some block }), A)
  | begin {s A} {call : CallId}
      (hpending : (s.call call).block.map (·.visit) = some .pending) :
      Move O (s, A) (s.changeCall call (·.visited .started), A)
  | finish {s A} {call : CallId} {node : NodeId} (hnode : s.HasNode node)
      (hbody : ∀ other, s.body? other ≠ some node) (hfree : .node node ∉ A.locks)
      (hstarted : (s.call call).blockArg = none →
        (s.call call).block.map (·.visit) = some .started) :
      Move O (s, A) (s.changeCall call (·.visited (.finished node)), A.dropLock (.visit call))
  | paramEdge {s A} {call : CallId} {node input : NodeId} (h : s.IsSlot node)
      (hinput : s.HasNode input) :
      Move O (s, A)
        (s.changeCall call
          fun site => { site with paramEdges := site.paramEdges ++ [(node, input)] },
          A)
  | blockEdge {s A} {call : CallId} {node input : NodeId} (h : s.IsSlot node)
      (hinput : s.HasNode input) :
      Move O (s, A)
        (s.changeCall call
          fun site => { site with blockEdges := site.blockEdges ++ [(node, input)] },
          A)
  | defer {s A} (call : CallId) :
      Move O (s, A) (s.changeCall call ({ · with deferred := true }), A)
  | make {s A} (inst : Instance) (h : inst.Sits s) :
      Move O (s, A) (s.withInstance inst, A.withLock (.inst ⟨s.instances.size⟩))
  | params {s A} (id : InstanceId) (params : List NodeId) (h : ∀ param ∈ params, s.IsSlot param) :
      Move O (s, A) (s.changeInstance id ({ · with params }), A)
  | body {s A} (id : InstanceId) {body : NodeId} (h : s.HasNode body) :
      Move O (s, A) (s.changeInstance id ({ · with body := some body }), A)
  | count {s A} (hits misses : Nat) :
      Move O (s, A) ({ s with cache := { s.cache with hits, misses } }, A)
  | enter {s A} (request : Request) (id : InstanceId) (hserves : s.Serves request id)
      (harity : s.HasArity request)
      (hnew : s.mayOmit request = false → s.cache.find? request.key = none)
      (hlocked : .inst id ∈ A.locks) (hfresh : ∀ key, s.cache.find? key ≠ some id)
      (haccepts : ∀ type, request.block = some type → s.AcceptsBlock id type) :
      Move O (s, A)
        ({ s with cache := s.cache.insert request.key id }, A.dropLock (.inst id))
  | answer {s A} (request maker : Request) (id : InstanceId) (hkey : maker.key = request.key)
      (hserves : s.Serves maker id) (harity : s.HasArity request) (hmaker : s.HasArity maker)
      (hcached : s.mayOmit request = false → s.cache.find? request.key = some id) :
      Move O (s, A) ({ s with answers := (request, id) :: s.answers }, A)
  | watch {s A} {call : CallId} {base : TypeId} (hcall : s.HasCall call)
      (hbase : s.types.Known base) :
      Move O (s, A) ({ s with watch := s.watch.add call base }, A)
  | unwatch {s A} {call : CallId} (hopen : call ∈ O) (h : (s.call call).targets = none) :
      Move O (s, A) ({ s with watch := s.watch.removeCall call }, A)
  | current {s A} {call : CallId} (h : s.IsCurrent call)
      (hsigned : call ∉ A.converting → s.IsSigned call) : Move O (s, A) (s, A.dropCall call)
  | reopen {s A} {call : CallId} {signature : List TypeId} (hopen : call ∈ O)
      (hcall : s.HasCall call) (hsignature : s.inputTypes? call = some signature)
      (hout : ¬ s.HasOut call) (hplain : s.OffLibrary call) :
      Move O (s, A) (s.reopened call signature, (A.dropCall call).withReopened call)
  | resolve {s A} {call : CallId} {targets : List InstanceId} (hcall : s.HasCall call)
      (hopen : (s.call call).targets = none) (hout : ¬ s.HasOut call)
      (htyped : s.inputTypes? call ≠ none) (htargets : ∀ id ∈ targets, s.HasInstance id)
      (hcovers : s.Covers A.gaps call targets) (hfree : ∀ id ∈ targets, .inst id ∉ A.locks)
      (hvacates : targets = [] → (s.call call).deferred = true ∨
        (s.call call).signature = none ∨ s.Vacates A.gaps call)
      (hheld : ∀ id ∈ targets, s.IsHeldTo call id) :
      Move O (s, A) (s.resolvedTo call targets, A.withNode (s.call call).node)
  /-- A call has targets again. -/
  | close {s A} {call : CallId} (h : (s.call call).targets ≠ none) :
      Move O (s, A) (s, A.dropReopened call)
  | convert {s A} {call : CallId} {source node : NodeId} (index : Nat) (kind : ConversionKind)
      (hopen : call ∈ O) (hcall : s.HasCall call) (hreceiver : (s.call call).receiver ≠ none)
      (hnode : s.HasNode node)
      (hmade : ∀ maker, s.HasCall maker → (s.call maker).node = node →
        (s.call maker).receiver = some source)
      (hconverting : call ∈ A.converting) (hloose : s.IsLoose node)
      (hfree : .node node ∉ A.locks) (hsources : ∀ other i, .source other i node ∉ A.locks)
      (hsource : .node source ∉ A.locks) (hgiven : s.HasNode source)
      (hapart : ((s.call call).args.map (·.isOut))[index]? = some true ∨
        (s.call call).Apart index source)
      (hfixed : kind ≠ .stringToPointer →
        ((s.call call).args.map (·.isOut))[index]? = some false ∧
          ∃ type, (s.flow.get node).rule = .pinned type ∧ s.types.Yields kind type) :
      Move O (s, A) (s.converted call index kind source node, A)
  | sign {s A} {call : CallId} (hopen : call ∈ O) (hconverting : call ∈ A.converting) :
      Move O (s, A) (s.changeCall call ({ · with signature := s.inputTypes? call }), A)
  | resolveForeign {s A} {call : CallId} {target : InstanceId} (hcall : s.HasCall call)
      (htarget : s.HasInstance target) (hfits : s.FitsForeign call)
      (hsigned : (s.call call).signature = s.inputTypes? call) (hfree : .inst target ∉ A.locks)
      (hblock : (s.methodOf target).decl.blockParam = none)
      (htakes : (∀ conversion ∈ (s.call call).conversions, conversion.kind ≠ .stringToPointer) →
        ∃ signature, (s.call call).signature = some signature ∧ s.Takes call signature target) :
      Move O (s, A)
        ((s.detached call).resolvedTo call [target],
          (A.dropConverting call).withNode (s.call call).node)
  | forget {s A} (call : CallId) :
      Move O (s, A)
        (s.changeCall call ({ · with signature := none }), (A.withCall call).dropGapsOf call)
  | unwatched {s A} : Move O (s, A) (s, A.dropUnwatched s)

/-- One session and agenda lead to another by moves. -/
abbrev Evolves : Session × Agenda → Session × Agenda → Prop :=
  Relation.ReflTransGen fun a b => ∃ O, Move O a b

/-- What every move keeps is kept by runs. -/
theorem Evolves.keeps {P : Session → Agenda → Prop} {a b : Session × Agenda} (h : Evolves a b)
    (hmove : ∀ {O s A s' A'}, Move O (s, A) (s', A') → P s A → P s' A') (ha : P a.1 a.2) :
    P b.1 b.2 := by
  induction h with
  | refl => exact ha
  | tail _ hlast ih =>
    obtain ⟨O, hlast⟩ := hlast
    exact hmove hlast ih

end Callsite
