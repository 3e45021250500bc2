import Callsite.Proofs.Check.Answers
import Callsite.Proofs.Range.Walk

/-!
# Sessions stay well-formed

Programs that name all types by their names are checked one after another, and some of the checks
may fail.  In the session that they leave everything that is referred to is there: a check may end
in the middle of a resolution, and what it leaves is still in range.  That nodes, calls, scopes and
instances are there, and that the instances in the cache have the method and the owner of their
key, is known of all sessions that checks lead to.
-/

namespace Callsite

open Sizes Written

variable {s : Session}

/-- The standard table refers to its own types and methods only. -/
theorem TypeTable.standard_inRange : standard.InRange where
  standard := standard_founded.standard
  primitive := by decide +kernel
  allShapes := by decide +kernel
  constants := by decide +kernel
  allMethods := by decide +kernel
  slots := by decide +kernel

/-- A key that is listed once leads to its own entry. -/
theorem lookup_of_mem {α β : Type} [BEq α] [LawfulBEq α] {l : List (α × β)}
    (hkeys : (l.map (·.1)).Nodup) {entry : α × β} (hentry : entry ∈ l) :
    l.lookup entry.1 = some entry.2 := by
  induction l with
  | nil => cases hentry
  | cons first rest ih =>
    rw [List.map_cons, List.nodup_cons] at hkeys
    rcases List.mem_cons.1 hentry with rfl | hrest
    · rw [List.lookup_cons, beq_self_eq_true]
    · have hne : entry.1 ≠ first.1 := by
        intro hsame
        exact hkeys.1 (hsame ▸ List.mem_map_of_mem hrest)
      rw [List.lookup_cons, beq_false_of_ne hne]
      exact ih hkeys.2 hrest

/-- What holds of every entry of an array that is read by its position holds of all its members. -/
theorem forall_of_getD {α : Type} {p : α → Prop} {l : Array α} {a : α}
    (h : ∀ i, i < l.size → p (l[i]?.getD a)) : ∀ b ∈ l, p b := by
  intro b hb
  obtain ⟨i, hi, rfl⟩ := Array.mem_iff_getElem.1 hb
  simpa [hi] using h i hi

namespace Session

/-- The session after programs have been checked in turn, whether the checks failed or not. -/
def checkAll (s : Session) (programs : List Program) : Session :=
  programs.foldl (fun s program => (s.check program).2) s

theorem inRange_of_table (options : InferenceOptions) {types : TypeTable} (htable : types.InRange) :
    ({ start options with types } : Session).InRange := by
  have hprogram : types.sizes.Holds TypeId.program := htable.holds_standard (by decide)
  have hnil : types.sizes.Holds TypeId.nil := htable.holds_standard (by decide)
  constructor
  case table => exact htable
  case nodes =>
    rintro ⟨_ | n⟩
    · exact ⟨holds_some.2 hnil, hnil⟩
    · exact ⟨holds_none, trivial⟩
  case scopes =>
    intro scope hscope
    obtain rfl := Array.mem_singleton.1 hscope
    exact ⟨hprogram, hprogram, holds_emptyMap, holds_none⟩
  case bodies =>
    intro scope hscope id hid
    obtain rfl := Array.mem_singleton.1 hscope
    simp [Scope.top] at hid
  case keys => exact List.nodup_nil
  all_goals simp [start, InstanceCache.empty]

theorem start_inRange (options : InferenceOptions) : (start options).InRange :=
  inRange_of_table options TypeTable.standard_inRange

theorem check_inRange (hs : s.InRange) {program : Program} (hprogram : program.mentions = []) :
    (s.check program).2.InRange := by
  have hmentions : s.types.sizes.Holds program.mentions := hprogram ▸ holds_nil
  have hrun := Infer.checkWith_stores Engine.fuelSupply hmentions s hs (le_refl _)
  unfold check
  split
  · next nodes s' h =>
    rw [h] at hrun
    exact hrun.1.inRange
  · next halt s' h =>
    rw [h] at hrun
    exact hrun.inRange

theorem checkAll_inRange (hs : s.InRange) {programs : List Program}
    (hprograms : ∀ program ∈ programs, program.mentions = []) : (s.checkAll programs).InRange := by
  induction programs generalizing s with
  | nil => exact hs
  | cons program programs ih =>
    have hfirst := check_inRange hs (hprograms program (by simp))
    exact ih hfirst (List.forall_mem_cons.1 hprograms).2

/-! ## Nodes, calls, scopes and instances -/

section

variable (hs : s.Sound) (hin : s.InRange) (hle : s.types.sizes ≤ s.sizes)
include hs hin hle

theorem holds_node (node : NodeId) : s.sizes.HoldsNode (s.flow.get node) where
  type := (hin.nodes node).1.mono hle
  inputs input hinput := (hs.mirrored.linked node input hinput).1
  observers observer hobserver := by
    cases observer with
    | call call => exact hs.observers node call hobserver
    | node other =>
      have hinput := hs.mirrored.observed other node hobserver
      by_contra hlt
      rw [s.flow.get_of_not_lt other hlt] at hinput
      cases hinput
  rule := (hin.nodes node).2.mono hle

theorem holds_site (call : CallId) (hcall : s.HasCall call) : s.sizes.HoldsSite (s.call call) := by
  have hsits := hs.calls call hcall
  have htypes := (hin.call call).mono hle
  have hedges : ∀ edge ∈ (s.call call).paramEdges ++ (s.call call).blockEdges,
      s.sizes.Holds edge := fun edge hedge =>
    ⟨(hsits.edges edge hedge).1.has, (hsits.edges edge hedge).2⟩
  constructor
  case node => exact hsits.node
  case receiver => exact fun r hr => hsits.inputs r (CallSite.mem_inputs.2 (Or.inr (Or.inl hr)))
  case args =>
    exact fun arg harg => hsits.inputs arg.node (CallSite.mem_inputs.2 (Or.inl ⟨arg, harg, rfl⟩))
  case block =>
    intro block hblock
    have hb := hsits.block block hblock
    refine ⟨fun param hparam => (hb.params param hparam).has, ?_, hb.scope, fun node hnode => ?_⟩
    · exact htypes.2 _ (Option.mem_map_of_mem _ hblock)
    · cases hvisit : block.visit with
      | pending | started => simp [hvisit, Visit.node?] at hnode
      | finished body =>
        rw [hvisit] at hnode
        exact Option.some.inj hnode ▸ hb.visited body hvisit
  case blockArg => exact fun b hb => hsits.inputs b (CallSite.mem_inputs.2 (Or.inr (Or.inr hb)))
  case scope => exact hsits.written
  case targets =>
    intro ids hids id hid
    refine hsits.targets id ?_
    rw [CallSite.resolved, Option.mem_def.1 hids]
    exact hid
  case signature => exact htypes.1
  case paramEdges => exact fun edge hedge => hedges edge (List.mem_append_left _ hedge)
  case blockEdges => exact fun edge hedge => hedges edge (List.mem_append_right _ hedge)
  case conversions => exact hsits.sources

theorem holds_scope (scope : ScopeId) : s.sizes.HoldsScope (s.scope scope) := by
  have hsits := hs.scopes scope
  obtain ⟨hself, howner, hfree, hmethod⟩ := (hin.scope scope).mono hle
  exact
    { parent := fun parent hparent => (hsits.parent parent hparent).has
      vars := fun entry hentry => ⟨trivial, hsits.vars entry hentry⟩
      selfType := hself, methodOwner := howner, inst := hin.body scope, call := hsits.call
      free := hfree, blockInputs := hsits.blockInputs, method := hmethod }

omit hin hle in
theorem holds_instance (id : InstanceId) (hid : s.HasInstance id)
    (htypes : s.sizes.Holds (s.instanceAt id).types) : s.sizes.HoldsInstance (s.instanceAt id) := by
  have hsits := hs.instances id hid
  obtain ⟨hmethod, howner, hself, hargs, hfree⟩ := htypes
  exact
    { method := hmethod, owner := howner, selfType := hself, args := hargs
      params := fun param hparam => (hsits.params param hparam).has, node := hsits.node.has
      body := hsits.body, scope := fun scope hscope => (hsits.scope scope hscope).has
      free := hfree }

end

/-- What a sound session with types in range stores is in range. -/
theorem Sound.within (hs : s.Sound) (hin : s.InRange)
    (hanswers : ∀ entry ∈ s.answers, s.HasInstance entry.2) : s.Within s.sizes := by
  have hle : s.types.sizes ≤ s.sizes :=
    ⟨Nat.le_refl _, Nat.le_refl _, Nat.zero_le _, Nat.zero_le _, Nat.zero_le _, Nat.zero_le _⟩
  constructor
  case shapes => exact hin.table.allShapes.mono hle
  case constants => exact hin.table.constants.mono hle
  case methods => exact hin.table.allMethods.mono hle
  case slots => exact hin.table.slots.mono hle
  case nodes => exact forall_of_getD fun i _ => holds_node hs hin hle ⟨i⟩
  case calls => exact forall_of_getD fun i hi => holds_site hs hin hle ⟨i⟩ hi
  case scopes => exact forall_of_getD fun i _ => holds_scope hs hin hle ⟨i⟩
  case instances =>
    refine forall_of_getD fun i hi => holds_instance hs ⟨i⟩ hi ?_
    exact (hin.instances _ (by simp [instanceAt, hi])).mono hle
  case entries =>
    intro entry hentry
    obtain ⟨request, -, hserves, -⟩ := hs.cache _ _ (lookup_of_mem hin.keys hentry)
    exact ⟨(hin.entries entry hentry).mono hle, hserves.has⟩
  case answers => exact fun entry hentry =>
    ⟨(hin.answers entry hentry).mono hle, hanswers entry hentry⟩
  case byBase => exact hs.watch.byBase
  case registrations => exact hs.watch.registrations
  case outputs => exact fun entry hentry =>
    ⟨hs.outputs entry hentry, (hin.outputs entry hentry).mono hle⟩

theorem checkAll_reached {options : InferenceOptions} (hs : Reached options s)
    (programs : List Program) : Reached options (s.checkAll programs) := by
  induction programs generalizing s with
  | nil => exact hs
  | cons program programs ih => exact ih (.check program hs)

/-- Programs that mention no type by its number are checked in turn, each check succeeding or not.
In the session that they leave every stored number is in range; a node observes exactly what it
depends on, never itself, and nothing is listed twice; a call watches a base just when the base is
watched by the call, each listed once; and the instances in the cache are those of their keys. -/
theorem checkAll_consistent (options : InferenceOptions) {programs : List Program}
    (hprograms : ∀ program ∈ programs, program.mentions = []) :
    let s := (start options).checkAll programs
    s.Within s.sizes ∧
      (∀ node input,
        input ∈ (s.flow.get node).inputs ↔ Observer.node node ∈ (s.flow.get input).observers) ∧
      (∀ node, node ∉ (s.flow.get node).inputs ∧ (s.flow.get node).inputs.Nodup ∧
        (s.flow.get node).observers.Nodup) ∧
      (∀ call base, call ∈ s.watch.observers base ↔ base ∈ s.watch.bases call) ∧
      (∀ base, (s.watch.observers base).Nodup) ∧ (∀ call, (s.watch.bases call).Nodup) ∧
      ∀ entry ∈ s.cache.entries, (s.instanceAt entry.2).method = entry.1.method ∧
        (s.instanceAt entry.2).owner = entry.1.owner := by
  intro s
  have hin : s.InRange := checkAll_inRange (start_inRange options) hprograms
  have hreached : Reached options s := checkAll_reached .start programs
  obtain ⟨A, hevolves⟩ := hreached.evolves
  have hs := (hevolves.tended (start_tended options)).toSound
  have hmirrored := hs.mirrored
  refine ⟨hs.within hin fun entry hentry => ?_,
    fun node input => ⟨?_, hmirrored.observed node input⟩,
    fun node => ⟨?_, hmirrored.inputs_nodup node, hmirrored.observers_nodup node⟩,
    hs.watch.agrees.mem_iff, hs.watch.agrees.observers_nodup, hs.watch.agrees.bases_nodup,
    fun entry hentry => ?_⟩
  · obtain ⟨maker, -, hserves, -⟩ := (hreached.answers entry hentry).made
    exact hserves.has
  · exact fun hinput => (hmirrored.linked node input hinput).2.2
  · exact fun hinput => (hmirrored.linked node node hinput).2.1 rfl
  · obtain ⟨request, hkey, hserves, -⟩ := hs.cache _ _ (lookup_of_mem hin.keys hentry)
    rw [← hkey]
    exact ⟨hserves.method, hserves.owner⟩

/-- A failing check inside a method body, and a program that goes on from what it leaves. -/
def recovering : List Program :=
  [ program
      [ methodDecl "twice" [.plain "x"] (send (var "x") "*" [int 2]),
        assign "y" (ask "twice" [.generated .nil]) ],
    program [assign "y" (ask "twice" [int 1])] ]

theorem checkAll_consistent_recovering :
    (∀ program ∈ recovering, program.mentions = []) ∧
      (recovering.map fun program => ((start default).check program).1.isOk).head? = some false ∧
      ((start default).checkAll recovering).calls.size = 4 ∧
      ((start default).checkAll recovering).Within ((start default).checkAll recovering).sizes :=
  ⟨by decide +kernel, by decide +kernel, by decide +kernel,
    (checkAll_consistent default (by decide +kernel)).1⟩

end Session

end Callsite
