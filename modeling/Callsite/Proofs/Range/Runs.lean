import Callsite.Proofs.Range.Sessions

/-!
# Runs on sessions in range

A run that is given types in range keeps a session in range, however it ends.  The rules below
follow the computations line by line.
-/

namespace Callsite

open Session Infer

variable {s : Session} {id : InstanceId}

open Sizes

/-- A session grows into another one that is in range. -/
structure Session.GrowsInto (s s' : Session) : Prop where
  grown : s.types.sizes ≤ s'.types.sizes
  inRange : s'.InRange

theorem Session.GrowsInto.trans {a b c : Session} (h : a.GrowsInto b) (h' : b.GrowsInto c) :
    a.GrowsInto c :=
  ⟨le_trans h.grown h'.grown, h'.inRange⟩

theorem Session.InRange.growsInto {s' : Session} (hs' : s'.InRange) (htypes : s'.types = s.types) :
    s.GrowsInto s' :=
  ⟨by rw [htypes]; exact le_refl _, hs'⟩

/-- Started on a session in range with at least the sizes `z`, the computation only adds to its
types and leaves it in range, and the result that it gives is as described. -/
def Infer.RangesTo {α : Type} (z : Sizes) (x : Infer α) (Q : Sizes → α → Prop) : Prop :=
  ∀ s : Session, s.InRange → z ≤ s.types.sizes →
    match x s with
    | .ok a s' => s.GrowsInto s' ∧ Q s'.types.sizes a
    | .error _ s' => s.GrowsInto s'

/-- The computation keeps a session in range, and its result refers to types in range. -/
abbrev Infer.Ranges {α : Type} [Ranged α] (z : Sizes) (x : Infer α) : Prop :=
  RangesTo z x fun z a => z.Holds a

/-- The computation keeps a session in range, and its result refers to no types. -/
abbrev Infer.Stores {α : Type} (z : Sizes) (x : Infer α) : Prop :=
  RangesTo z x fun _ _ => True

namespace Infer.RangesTo

variable {α β γ : Type} {z : Sizes} {Q : Sizes → α → Prop} {R : Sizes → β → Prop}

/-! ## Rules -/

theorem mono {z' : Sizes} {x : Infer α} (h : RangesTo z x Q) (hz : z ≤ z') : RangesTo z' x Q :=
  fun s hs hz' => h s hs (le_trans hz hz')

/-- A computation may be looked at where it starts. -/
theorem reading {x : Infer α}
    (h : ∀ s : Session, s.InRange → z ≤ s.types.sizes → RangesTo s.types.sizes x Q) :
    RangesTo z x Q :=
  fun s hs hz => h s hs hz s hs (le_refl _)

theorem pure {a : α} (h : ∀ z', z ≤ z' → Q z' a) : RangesTo z (Pure.pure a) Q :=
  fun s hs hz => ⟨hs.growsInto rfl, h s.types.sizes hz⟩

theorem give [Ranged α] {a : α} (h : z.Holds a) : Ranges z (Pure.pure a) :=
  pure fun _ hz => h.mono hz

theorem done {a : α} : Stores z (Pure.pure a) :=
  pure fun _ _ => trivial

theorem throw (halt : Halt) : RangesTo z (throw halt : Infer α) Q :=
  fun _ hs _ => hs.growsInto rfl

theorem fail (cause : Cause) (span : Span) : RangesTo z (fail cause span : Infer α) Q :=
  throw _

theorem fail_bind (cause : Cause) (span : Span) {g : α → Infer β} :
    RangesTo z (Infer.fail cause span >>= g) R :=
  fun _ hs _ => hs.growsInto rfl

theorem bind {x : Infer α} {g : α → Infer β} (hx : RangesTo z x Q)
    (hg : ∀ z' a, z ≤ z' → Q z' a → RangesTo z' (g a) R) : RangesTo z (x >>= g) R := by
  intro s hs hz
  have hstart := hx s hs hz
  have hrun : (x >>= g) s = EStateM.bind x g s := rfl
  cases hfirst : x s with
  | error halt s' =>
    simp only [hrun, EStateM.bind, hfirst] at hstart ⊢
    exact hstart
  | ok a s' =>
    simp only [hfirst] at hstart
    obtain ⟨hgrows, ha⟩ := hstart
    have hrest := hg _ a (le_trans hz hgrows.grown) ha s' hgrows.inRange (le_refl _)
    simp only [hrun, EStateM.bind, hfirst]
    cases hsecond : g a s' with
    | ok b s'' =>
      simp only [hsecond] at hrest ⊢
      exact ⟨hgrows.trans hrest.1, hrest.2⟩
    | error halt s'' =>
      simp only [hsecond] at hrest ⊢
      exact hgrows.trans hrest

/-- A computation whose result does not matter. -/
theorem seq {x : Infer α} {g : α → Infer β} (hx : RangesTo z x Q)
    (hg : ∀ z' a, z ≤ z' → RangesTo z' (g a) R) : RangesTo z (x >>= g) R :=
  hx.bind fun z' a hz _ => hg z' a hz

theorem get_bind {g : Session → Infer β}
    (hg : ∀ s : Session, s.InRange → z ≤ s.types.sizes → RangesTo s.types.sizes (g s) R) :
    RangesTo z (get >>= g) R :=
  fun s hs hz => hg s hs hz s hs (le_refl _)

theorem ite {p : Prop} [Decidable p] {x y : Infer α} (hx : p → RangesTo z x Q)
    (hy : ¬p → RangesTo z y Q) : RangesTo z (if p then x else y) Q := by
  split
  · exact hx (by assumption)
  · exact hy (by assumption)

theorem mapM [Ranged β] {g : γ → Infer β} {l : List γ} (hg : ∀ a ∈ l, Ranges z (g a)) :
    Ranges z (l.mapM g) := by
  induction l with
  | nil => exact give holds_nil
  | cons a l ih =>
    rw [List.mapM_cons]
    refine (hg a (by simp)).bind fun z' b hz hb => ?_
    have hrest : Ranges z (l.mapM g) := ih (List.forall_mem_cons.1 hg).2
    exact (hrest.mono hz).bind fun z'' bs hz' hbs => give (holds_cons.2 ⟨hb.mono hz', hbs⟩)

theorem storeAll {g : γ → Infer β} {l : List γ} (hg : ∀ a ∈ l, Stores z (g a)) :
    Stores z (l.mapM g) := by
  induction l with
  | nil => exact done
  | cons a l ih =>
    rw [List.mapM_cons]
    have hrest : Stores z (l.mapM g) := ih (List.forall_mem_cons.1 hg).2
    exact (hg a (by simp)).seq fun z' b hz => (hrest.mono hz).seq fun _ _ _ => done

theorem forM {g : γ → Infer PUnit} {l : List γ} (hg : ∀ a ∈ l, Stores z (g a)) :
    Stores z (l.forM g) := by
  induction l with
  | nil => exact done
  | cons a l ih =>
    have hrest : Stores z (l.forM g) := ih (List.forall_mem_cons.1 hg).2
    exact (hg a (by simp)).seq fun _ _ hz => hrest.mono hz

theorem optionMapM {g : γ → Infer β} {o : Option γ} (hg : ∀ a ∈ o, RangesTo z (g a) R) :
    RangesTo z (o.mapM g) fun z o => ∀ b ∈ o, R z b := by
  cases o with
  | none => exact pure fun _ _ b hb => absurd hb (by simp)
  | some a =>
    intro s hs hz
    have ha := hg a rfl s hs hz
    have hrun : (some a).mapM g s = EStateM.map some (g a) s := rfl
    rw [hrun, EStateM.map]
    generalize g a s = r at ha
    cases r with
    | ok b s' => exact ⟨ha.1, fun _ hb => Option.some.inj hb ▸ ha.2⟩
    | error halt s' => exact ha

theorem modify {f : Session → Session}
    (hf : ∀ s : Session, s.InRange → z ≤ s.types.sizes → s.GrowsInto (f s)) :
    Stores z (modify f : Infer PUnit) :=
  fun s hs hz => ⟨hf s hs hz, trivial⟩

theorem modifyGet {f : Session → α × Session} (hf : ∀ s : Session, s.InRange → z ≤ s.types.sizes →
      s.GrowsInto (f s).2 ∧ Q (f s).2.types.sizes (f s).1) : RangesTo z (modifyGet f : Infer α) Q :=
  fun s hs hz => hf s hs hz

theorem within {x : Infer α} (frame : String) (hx : RangesTo z x Q) :
    RangesTo z (Infer.within frame x) Q := by
  intro s hs hz
  have hx := hx s hs hz
  rw [Infer.within]
  generalize x s = r at hx
  cases r with
  | ok a s' => exact hx
  | error halt s' =>
    cases halt with
    | failed | outOfFuel => exact hx

/-- A computation with other counters of depth, which are set back however it ends. -/
theorem around {x : Infer α} (enter leave : Session → Session)
    (henter : ∀ s : Session, s.InRange → (enter s).InRange)
    (hleave : ∀ s : Session, s.InRange → (leave s).InRange)
    (htypes : ∀ s : Session, (enter s).types = s.types ∧ (leave s).types = s.types)
    (hx : RangesTo z x Q) :
    RangesTo z (fun s => match x (enter s) with
      | .ok a s' => .ok a (leave s')
      | .error halt s' => .error halt (leave s')) Q := by
  intro s hs hz
  have hin : s.GrowsInto (enter s) := (henter s hs).growsInto (htypes s).1
  have hout : ∀ s' : Session, s'.InRange → s'.GrowsInto (leave s') := fun s' hs' =>
    (hleave s' hs').growsInto (htypes s').2
  have hx := hx (enter s) hin.inRange (le_trans hz hin.grown)
  dsimp only
  generalize x (enter s) = r at hx
  cases r with
  | ok a s' =>
    refine ⟨(hin.trans hx.1).trans (hout s' hx.1.inRange), ?_⟩
    rw [(htypes s').2]
    exact hx.2
  | error halt s' => exact (hin.trans hx).trans (hout s' hx.inRange)

/-! ## Types -/

theorem known (type : TypeId) : Stores z (known type) := by
  refine get_bind fun s _ _ => ?_
  exact ite (fun _ => done) fun _ => throw _

theorem build [Ranged α] {x : Build α} (hx : ∀ z', z ≤ z' → Build.Ranges z' x) :
    Ranges z (build x) := by
  intro s hs hz
  obtain ⟨hle, hin, ha⟩ := hx s.types.sizes hz s.types hs.table (le_refl _)
  exact ⟨⟨hle, hs.withTypes hle hin⟩, ha⟩

theorem denoting [Ranged α] {x : Denote α} (hx : ∀ z', z ≤ z' → Denote.Ranges z' x) :
    Ranges z (Infer.denoting x) := by
  intro s hs hz
  have hx := hx s.types.sizes hz s.types hs.table (le_refl _)
  rw [Infer.denoting]
  generalize x s.types = r at hx
  cases r with
  | ok a types => exact ⟨⟨hx.1, hs.withTypes hx.1 hx.2.1⟩, hx.2.2⟩
  | error failure types => exact ⟨hx.1, hs.withTypes hx.1 hx.2⟩

theorem typeOf (node : NodeId) : Ranges z (typeOf node) :=
  get_bind fun _ hs _ => give (hs.typeOf node)

/-! ## Nodes -/

theorem setType {type : TypeId} (node : NodeId) (htype : z.Holds type) :
    Stores z (modifyFlow (·.setType node (some type))) := by
  refine modify fun s hs hz => InRange.growsInto { hs with nodes := fun other => ⟨?_, ?_⟩ } rfl
  · change s.types.sizes.Holds ((s.flow.setType node (some type)).typeOf other)
    rw [FlowGraph.typeOf_setType]
    split
    · exact holds_some.2 (htype.mono hz)
    · exact hs.typeOf other
  · change s.types.sizes.Holds ((s.flow.setType node (some type)).get other).rule
    rw [FlowGraph.rule_setType]
    exact (hs.nodes other).2

/-- A change of the graph that keeps types and rules. -/
theorem rewire {f : FlowGraph → FlowGraph} (hf : ∀ g node, (f g).types node = g.types node) :
    Stores z (modifyFlow f) := by
  refine modify fun s hs hz => InRange.growsInto { hs with nodes := fun node => ?_ } rfl
  rw [hf]
  exact hs.nodes node

theorem nodes_push (hs : s.InRange) {fresh : FlowNode}
    (hfresh : s.types.sizes.Holds (fresh.type, fresh.rule)) (node : NodeId) :
    s.types.sizes.Holds (FlowGraph.types ⟨s.flow.nodes.push fresh⟩ node) := by
  rw [FlowGraph.types, FlowGraph.typeOf, FlowGraph.get_push]
  split
  · exact hfresh
  · exact hs.nodes node

theorem ruledNode {rule : Rule} (span : Span) (hrule : z.Holds rule) :
    Stores z (ruledNode rule span) := by
  refine modifyGet fun s hs hz => ⟨InRange.growsInto { hs with nodes := ?_ } rfl, trivial⟩
  exact nodes_push hs ⟨holds_none, hrule.mono hz⟩

theorem newNode (span : Span) : Stores z (newNode span) :=
  ruledNode span trivial

theorem typedNode {type : TypeId} (span : Span) (htype : z.Holds type) :
    Stores z (typedNode type span) := by
  refine modifyGet fun s hs hz => ⟨InRange.growsInto { hs with nodes := ?_ } rfl, trivial⟩
  exact nodes_push hs ⟨holds_some.2 (htype.mono hz), htype.mono hz⟩

/-- A node of a standard type. -/
theorem standardNode {index : Nat} (span : Span) (hindex : index ≤ TypeId.pointer.index) :
    Stores z (Infer.typedNode ⟨index⟩ span) :=
  reading fun _ hs _ => typedNode span (hs.holds_standard hindex)

/-! ## Calls, instances and scopes -/

theorem modifyCall {f : CallSite → CallSite} (id : CallId)
    (hf : ∀ z', z ≤ z' → ∀ site : CallSite, z'.Holds site.types → z'.Holds (f site).types) :
    Stores z (modifyCall id f) :=
  modify fun _ hs hz =>
    InRange.growsInto { hs with calls := forall_modify hs.calls _ (hf _ hz) } rfl

/-- A change of a call that keeps the types it refers to. -/
theorem changeCall {f : CallSite → CallSite} (id : CallId)
    (hf : ∀ site : CallSite, (f site).types = site.types) : Stores z (Infer.modifyCall id f) :=
  modifyCall id fun _ _ site hsite => (hf site).symm ▸ hsite

theorem pushCall {site : CallSite} (hsite : z.Holds site.types) : Stores z (pushCall site) :=
  modifyGet fun _ hs hz =>
    ⟨InRange.growsInto { hs with calls := forall_push hs.calls (hsite.mono hz) } rfl, trivial⟩

theorem modifyInstance {f : Instance → Instance} (id : InstanceId)
    (hf : ∀ inst : Instance, (f inst).types = inst.types) : Stores z (modifyInstance id f) := by
  refine modify fun s hs hz => InRange.growsInto { hs with bodies := ?_, instances := ?_ } rfl
  · exact fun scope hscope other hother =>
      (s.hasInstance_changeInstance other id f).2 (hs.bodies scope hscope other hother)
  · exact forall_modify hs.instances _ fun inst hinst => (hf inst).symm ▸ hinst

theorem pushInstance {inst : Instance} (hinst : z.Holds inst.types) :
    Stores z (pushInstance inst) := by
  refine modifyGet fun s hs hz =>
    ⟨InRange.growsInto { hs with bodies := ?_, instances := ?_ } rfl, trivial⟩
  · exact fun scope hscope id hid =>
      (s.hasInstance_withInstance id inst).2 (Or.inl (hs.bodies scope hscope id hid))
  · exact forall_push hs.instances (hinst.mono hz)

theorem pushScope {scope : Scope} (hscope : z.Holds scope.types) (hinst : scope.inst = none) :
    Stores z (pushScope scope) := by
  refine modifyGet fun s hs hz =>
    ⟨InRange.growsInto { hs with scopes := ?_, bodies := ?_ } rfl, trivial⟩
  · exact forall_push hs.scopes (hscope.mono hz)
  · exact forall_push hs.bodies (by simp [hinst])

theorem childScope (parent : ScopeId) : Stores z (childScope parent) := by
  intro s hs hz
  refine ⟨InRange.growsInto { hs with scopes := ?_, bodies := ?_ } rfl, trivial⟩
  · exact forall_push hs.scopes (hs.scope parent)
  · exact forall_push hs.bodies (hs.body parent)

/-- The scope of a body names its instance, which is made next: nothing fails before it is there. -/
theorem opening {f : Session → Scope} {span : Session → Span}
    {inst : Session → ScopeId → NodeId → Instance}
    {g : Session → ScopeId → NodeId → InstanceId → Infer β}
    (hid : ∀ s, (f s).inst = some ⟨s.instances.size⟩)
    (hg : ∀ s : Session, s.InRange → z ≤ s.types.sizes →
      s.types.sizes.Holds (f s).types ∧
        (∀ scope node, s.types.sizes.Holds (inst s scope node).types) ∧
        ∀ scope node id, RangesTo s.types.sizes (g s scope node id) R) :
    RangesTo z (get >>= fun s => Infer.pushScope (f s) >>= fun scope =>
      Infer.newNode (span s) >>= fun node =>
        Infer.pushInstance (inst s scope node) >>= g s scope node) R := by
  intro s hs hz
  obtain ⟨hscope, hinst, hrest⟩ := hg s hs hz
  let fresh := inst s ⟨s.scopes.size⟩ ⟨s.flow.size⟩
  let s' := ((s.withScope (f s)).withFlow (s.flow.add .union (span s)).2).withInstance fresh
  have hin : s'.InRange :=
    { hs with
      nodes := nodes_push hs ⟨holds_none, trivial⟩
      scopes := forall_push hs.scopes hscope
      bodies := by
        refine forall_push (fun scope hscope id hid => ?_) fun id hsome => ?_
        · exact (s.hasInstance_withInstance id fresh).2 (Or.inl (hs.bodies scope hscope id hid))
        · obtain rfl := Option.some.inj ((hid s).symm.trans hsome)
          exact (s.hasInstance_withInstance _ fresh).2 (Or.inr rfl)
      instances := forall_push hs.instances (hinst _ _) }
  have hgrows : s.GrowsInto s' := hin.growsInto rfl
  have hend := hrest ⟨s.scopes.size⟩ ⟨s.flow.size⟩ ⟨s.instances.size⟩ s' hin (le_refl _)
  change match g s ⟨s.scopes.size⟩ ⟨s.flow.size⟩ ⟨s.instances.size⟩ s' with
    | .ok b s'' => s.GrowsInto s'' ∧ R s''.types.sizes b
    | .error _ s'' => s.GrowsInto s''
  generalize g s ⟨s.scopes.size⟩ ⟨s.flow.size⟩ ⟨s.instances.size⟩ s' = result at hend ⊢
  cases result with
  | ok b s'' => exact ⟨hgrows.trans hend.1, hend.2⟩
  | error halt s'' => exact hgrows.trans hend

theorem bindVar (scope : ScopeId) (name : String) (node : NodeId) :
    Stores z (bindVar scope name node) := by
  let f : Scope → Scope := fun sc => { sc with vars := sc.vars.insert name node }
  refine modify fun s hs _ => InRange.growsInto { hs with scopes := ?_, bodies := ?_ } rfl
  · exact forall_modify (f := f) hs.scopes scope.index fun _ hsc => hsc
  · exact forall_modify (f := f) hs.bodies scope.index fun _ hsc => hsc

theorem newVar (scope : ScopeId) (span : Span) (name : String) :
    Stores z (newVar scope span name) :=
  .seq (.newNode span) fun _ node _ => .seq (.bindVar scope name node) fun _ _ _ => .done

/-! ## The cache, what waits and what is watched -/

theorem watch (call : CallId) (base : TypeId) : Stores z (watch call base) :=
  modify fun _ hs _ => InRange.growsInto { hs with } rfl

theorem askCache (key : InstanceKey) : Stores z (askCache key) := by
  refine modifyGet fun s hs hz => ⟨?_, trivial⟩
  rw [InstanceCache.ask]
  cases s.cache.find? key with
  | none | some => exact InRange.growsInto { hs with } rfl

theorem insertCache {key : InstanceKey} (hkey : z.Holds key) (id : InstanceId) :
    Stores z (insertCache key id) := by
  refine modify fun s hs hz => InRange.growsInto { hs with entries := ?_, keys := ?_ } rfl
  · refine List.forall_mem_cons.2 ⟨hkey.mono hz, fun entry hentry => ?_⟩
    exact hs.entries entry (List.mem_filter.1 hentry).1
  · simp only [InstanceCache.insert, List.map_cons, List.nodup_cons]
    refine ⟨?_, hs.keys.sublist ((List.filter_sublist).map _)⟩
    intro hmem
    obtain ⟨entry, hentry, hsame⟩ := List.mem_map.1 hmem
    have hne := (List.mem_filter.1 hentry).2
    simp [hsame] at hne

theorem answer {request : Request} (hrequest : z.Holds request) (id : InstanceId) :
    Stores z (answer request id) :=
  modifyGet fun _ hs hz => ⟨InRange.growsInto
    { hs with answers := List.forall_mem_cons.2 ⟨hrequest.mono hz, hs.answers⟩ } rfl, trivial⟩

theorem takeOutput (body : NodeId) : Ranges z (takeOutput body) := by
  refine modifyGet fun s hs hz => ⟨InRange.growsInto { hs with outputs := ?_ } rfl, ?_⟩
  · exact fun entry hentry => hs.outputs entry (List.mem_filter.1 hentry).1
  · intro declared hdeclared
    obtain ⟨before, after, heq, -⟩ := List.lookup_eq_some_iff.1 hdeclared
    exact hs.outputs (body, declared) (by simp [heq])

end Infer.RangesTo

end Callsite
