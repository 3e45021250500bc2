import Callsite.Proofs.Engine.Walk
import Callsite.Proofs.Flow.Binding
import Callsite.Proofs.Flow.Cycles
import Callsite.Proofs.NameMap

/-!
# Checks without end

A program that assigns a variable an array of itself starts a propagation around an array cycle.
No supply of fuel is enough to check it.
-/

namespace Callsite

open Infer TypeTable FlowGraph Session

variable {g : FlowGraph} {rule source : Rule} {input : NodeId} {item : TypeId} {s : Session}
  {name : String}

/-! ## Connecting nodes -/

namespace Infer

variable {α β : Type} {x : Infer α} {f : α → Infer β} {s s1 : Session} {a : α}
  {node : NodeId} {inputs : List NodeId} {observers : List Observer} {type : TypeId}
  {t : TypeTable}

theorem Returns.exhausts (hx : Returns x s a s1) (hf : Exhausts (f a) s1) :
    Exhausts (x >>= f) s := by
  rw [Exhausts, hx.bind_eq]
  exact hf

theorem Exhausts.bind (h : Exhausts x s) (f : α → Infer β) : Exhausts (x >>= f) s := by
  obtain ⟨s', hs'⟩ := h
  exact ⟨s', by simp [Bind.bind, EStateM.bind, hs']⟩

theorem Exhausts.deeper (h : Exhausts x s.enterWave) : Exhausts (deeper x) s := by
  obtain ⟨s', hs'⟩ := h
  exact ⟨_, by rw [Infer.deeper, hs']⟩

variable (engine : Engine)

/-- A node without observers is connected and gets its type. -/
theorem connect_returns (hg : inputs.foldl (fun flow input => flow.addEdge node input) s.flow = g)
    (h : Derives { s with flow := g } node [] type t) : Returns (connect engine node inputs) s ()
      { s with types := t, flow := g.setType node type } := by
  subst hg
  refine (update_of_change h.thawed h.change? engine).trans (notify_of_unobserved engine ?_)
  rw [observers_setType, h.observers]

/-- A node is connected and its observers are looked at. -/
theorem connect_exhausts (hg : inputs.foldl (fun flow input => flow.addEdge node input) s.flow = g)
    (h : Derives { s with flow := g } node observers type t) (hobservers : observers ≠ [])
    (hdepth : s.propagationDepth < s.options.maxPropagationDepth)
    (hloop : ∀ s' : Session, s'.types = t → s'.flow = g.setType node type →
      Exhausts (propagate engine engine.budget observers) s') :
    Exhausts (connect engine node inputs) s := by
  subst hg
  have hrun := (update_of_change h.thawed h.change? engine).trans
    (notify_of_observed engine (by rwa [observers_setType, h.observers]) hdepth)
  rw [observers_setType, h.observers] at hrun
  rw [Exhausts, show connect engine node inputs s = _ from hrun]
  exact Exhausts.deeper (hloop _ rfl rfl)

/-- A new node is connected with its one input. -/
theorem connect_new_returns {span : Span} (hflow : s.flow = (g.add rule span).2)
    (hinput : g.Wired input inputs [] source) (htype : g.typeOf input = some item)
    (hknown : s.types.Known item) (hrule : ∀ type, rule ≠ .pinned type)
    (hderive : rule.derive [item] s.types = (type, t)) :
    Returns (connect engine ⟨g.size⟩ [input]) s ()
      { s with types := t, flow := g.follow rule span input type } := by
  have hwired := (wired_attach hinput rule span).1
  have hinputs : (g.attach rule span input).inputTypes ⟨g.size⟩ = [item] := by
    simp [inputTypes, hwired.inputs, typeOf_attach hinput.has, htype]
  refine connect_returns (g := g.attach rule span input) engine (by rw [hflow]; rfl) ?_
  refine .of_wired hwired hrule hinputs (by simp) (by simpa using hknown) hderive ?_
  exact fun heq => absurd ((g.typeOf_attach_self rule span input).symm.trans heq) (by simp)

theorem derived_returns (span : Span) (hinput : s.flow.Wired input inputs [] source)
    (htype : s.typeOf input = some item) (hknown : s.types.Known item)
    (hrule : ∀ type, rule ≠ .pinned type) (hderive : rule.derive [item] s.types = (type, t)) :
    Returns (derived engine rule span [input]) s ⟨s.flow.size⟩
      { s with types := t, flow := s.flow.follow rule span input type } := by
  have hnode : Returns (ruledNode rule span) s ⟨s.flow.size⟩
      { s with flow := (s.flow.add rule span).2 } := rfl
  have hconnect := connect_new_returns (s := { s with flow := (s.flow.add rule span).2 }) engine
    rfl hinput htype hknown hrule hderive
  exact hnode.bind (hconnect.bind (.pure _ _))

end Infer

/-! ## A variable that holds itself -/

theorem Session.findVar?_of_scopes (s s' : Session) (h : s'.scopes = s.scopes) (scope : ScopeId)
    (name : String) : s'.findVar? scope name = s.findVar? scope name := by
  have hwithin : ∀ depth scope,
      s'.findVarWithin name depth scope = s.findVarWithin name depth scope := by
    intro depth
    induction depth with
    | zero => exact fun _ => rfl
    | succ depth ih =>
      intro scope
      have hscope : s'.scope scope = s.scope scope := by rw [Session.scope, Session.scope, h]
      simp only [findVarWithin, hscope, ih]
  rw [findVar?, findVar?, h, hwithin]

/-- A variable of the program that has been assigned `nil` and nothing else. -/
structure Session.HoldsNil (s : Session) (name : String) (nil var : NodeId) : Prop where
  founded : s.types.Founded
  shape_nil : ∃ info, s.types.shape .nil = .cls info
  found : s.findVar? .root name = some var
  nil_wired : s.flow.Wired nil [] [.node var] (.pinned .nil)
  var_wired : s.flow.Wired var [nil] [] .union
  typeOf_nil : s.typeOf nil = some .nil
  typeOf_var : s.typeOf var = some .nil

theorem Session.HoldsNil.nil_ne_var {nil var : NodeId} (h : s.HoldsNil name nil var) :
    nil ≠ var := by
  rintro rfl
  simpa [h.nil_wired.inputs] using h.var_wired.inputs

/-- A variable of the program that has been assigned `nil`, and an array of it that has not been
assigned yet. -/
structure Session.HoldsArray (s : Session) (name : String) (nil var read array : NodeId)
    (v : TypeId) : Prop where
  found : s.findVar? .root name = some var
  var_wired : s.flow.Wired var [nil] [.node read] .union
  read_wired : s.flow.Wired read [var] [.node array] .union
  array_wired : s.flow.Wired array [read] [] .array
  distinct : [nil, var, read, array].Nodup
  typeOf_nil : s.typeOf nil = some .nil
  typeOf_var : s.typeOf var = some .nil
  typeOf_read : s.typeOf read = some .nil
  typeOf_array : s.typeOf array = some v
  known : ∀ type ∈ [.nil, v], s.types.Known type
  nests :
    (unionOf [.nil, v] s.types).2.Nests .nil v (unionOf [.nil, v] s.types).1

namespace Infer

variable {s : Session} {name : String} {nil var : NodeId}

theorem bindVar_returns (hroot : ScopeId.root.index < s.scopes.size) (name : String)
    (var : NodeId) :
    ∃ scopes, Returns (bindVar .root name var) s () { s with scopes } ∧
      ∀ s' : Session, s'.scopes = scopes → s'.findVar? .root name = some var := by
  refine ⟨_, rfl, fun s' hscopes => ?_⟩
  obtain ⟨depth, hdepth⟩ := Nat.exists_eq_succ_of_ne_zero (Nat.ne_zero_of_lt hroot)
  have hsize : s'.scopes.size = depth + 1 := by rw [hscopes, Array.size_modify, hdepth]
  have hvars : (s'.scope .root).vars.get? name = some var := by
    simp [scope, hscopes, hroot, Array.getElem_modify, NameMap.get?_insert_self]
  simp only [findVar?, hsize, findVarWithin, hvars]

theorem assign_nil_returns (hf : s.types.Founded) (hnil : ∃ info, s.types.shape .nil = .cls info)
    (hroot : ScopeId.root.index < s.scopes.size) (hfree : s.findVar? .root name = none)
    (fuel : Nat) :
    ∃ nil var s', Returns
        (visitWith (.ofFuel (fuel + 1)) .root ⟨.assign name ⟨.nil, .absent⟩, .absent⟩) s nil s' ∧
      s'.HoldsNil name nil var ∧ s'.propagationDepth = s.propagationDepth ∧
      s'.options = s.options := by
  let nil : NodeId := ⟨s.flow.size⟩
  let g1 := (s.flow.addTyped .nil .absent).2
  let var : NodeId := ⟨g1.size⟩
  have hvalue : Returns (visitWith (.ofFuel fuel) .root ⟨.nil, .absent⟩) s nil
      { s with flow := g1 } := rfl
  have hnode : Returns (newNode .absent) { s with flow := g1 } var
      { s with flow := (g1.add .union .absent).2 } := rfl
  obtain ⟨scopes, hbind, hfound⟩ :=
    bindVar_returns (s := { s with flow := (g1.add .union .absent).2 }) hroot name var
  have hdeclare : Returns (declareVar .root name .absent) { s with flow := g1 } var
      { s with flow := (g1.add .union .absent).2, scopes } := by
    refine .get_bind ?_
    rw [findVar?_of_scopes s { s with flow := g1 } rfl, hfree]
    exact hnode.bind (hbind.bind (.pure _ _))
  have hnil_wired : g1.Wired nil [] [] (.pinned .nil) := s.flow.wired_push ⟨rfl, rfl⟩ rfl
  have htype : g1.typeOf nil = some .nil := typeOf_addTyped_self _ _ _
  have hconnect := connect_new_returns (.ofFuel (fuel + 1))
    (s := { s with flow := (g1.add .union .absent).2, scopes }) rfl hnil_wired htype hf.known_nil
    (by simp) (unionOf_nil hnil)
  refine ⟨nil, var, _, hvalue.bind (hdeclare.bind (hconnect.bind (.pure _ _))), ?_, rfl, rfl⟩
  obtain ⟨hvar, hsource, -⟩ := FlowGraph.wired_attach hnil_wired .union .absent
  constructor
  case founded => exact hf
  case shape_nil => exact hnil
  case found => exact hfound _ rfl
  case nil_wired => exact hsource.setType _ _
  case var_wired => exact hvar.setType _ _
  case typeOf_nil => exact (FlowGraph.typeOf_follow hnil_wired.has _ _ _ _).trans htype
  case typeOf_var => exact FlowGraph.typeOf_follow_self hnil_wired _ _ _

/-- The array of the variable is built. -/
theorem visit_array_returns (h : s.HoldsNil name nil var) (fuel : Nat) :
    ∃ read array v s', Returns
        (visitWith (.ofFuel (fuel + 1)) .root ⟨.array [⟨.var name, .absent⟩], .absent⟩) s array s' ∧
      s'.HoldsArray name nil var read array v ∧ s'.propagationDepth = s.propagationDepth ∧
      s'.options = s.options := by
  have hknown : s.types.Known .nil := h.founded.known_nil
  -- The variable is read,
  let read : NodeId := ⟨s.flow.size⟩
  let g1 := s.flow.follow .union .absent var .nil
  obtain ⟨hread, hvar, hothers⟩ := wired_attach h.var_wired .union .absent
  have hread1 : g1.Wired read [var] [] .union := hread.setType _ _
  have hvar1 : g1.Wired var [nil] [.node read] .union := hvar.setType _ _
  have hnil1 : g1.Wired nil [] [.node var] (.pinned .nil) :=
    (hothers _ _ _ _ h.nil_wired h.nil_ne_var).setType _ _
  have htype1 : g1.typeOf read = some .nil := typeOf_follow_self h.var_wired _ _ _
  have hvisit : Returns (visitWith (.ofFuel fuel) .root ⟨.var name, .absent⟩) s read
      { s with flow := g1 } := by
    refine .get_bind ?_
    rw [h.found]
    exact derived_returns _ .absent h.var_wired h.typeOf_var hknown (by simp)
      (unionOf_nil h.shape_nil)
  have hitems : Returns ([⟨.var name, .absent⟩].mapM (visitWith (.ofFuel fuel) .root)) s [read]
      { s with flow := g1 } := hvisit.bind (.pure _ _)
  -- and what is read is the item of the array.
  let array : NodeId := ⟨g1.size⟩
  let arrays := arrayOf .nil s.types
  let g2 := g1.follow .array .absent read arrays.1
  obtain ⟨harray, hread, hothers⟩ := wired_attach hread1 .array .absent
  have hderive : Returns (derived (.ofFuel (fuel + 1)) .array .absent [read]) { s with flow := g1 }
      array { s with types := arrays.2, flow := g2 } := by
    refine derived_returns _ .absent hread1 htype1 hknown (by simp) ?_
    simp only [Rule.derive, Bind.bind, StateT.bind, unionOf_nil h.shape_nil]
    rfl
  refine ⟨read, array, arrays.1, _, hitems.bind hderive, ?_, rfl, rfl⟩
  constructor
  case found =>
    rw [findVar?_of_scopes s { s with types := arrays.2, flow := g2 } rfl, h.found]
  case var_wired =>
    exact (hothers _ _ _ _ hvar1 (ne_of_lt_size h.var_wired.has)).setType _ _
  case read_wired => exact hread.setType _ _
  case array_wired => exact harray.setType _ _
  case distinct =>
    simp [h.nil_ne_var, ne_of_lt_size h.nil_wired.has, ne_of_lt_size hnil1.has,
      ne_of_lt_size h.var_wired.has, ne_of_lt_size hvar1.has, ne_of_lt_size hread1.has, read, array]
  case typeOf_nil =>
    refine (typeOf_follow hnil1.has _ _ _ _).trans ?_
    exact (typeOf_follow h.nil_wired.has _ _ _ _).trans h.typeOf_nil
  case typeOf_var =>
    refine (typeOf_follow hvar1.has _ _ _ _).trans ?_
    exact (typeOf_follow h.var_wired.has _ _ _ _).trans h.typeOf_var
  case typeOf_read => exact (typeOf_follow hread1.has _ _ _ _).trans htype1
  case typeOf_array => exact typeOf_follow_self hread1 _ _ _
  case known =>
    obtain ⟨hextends, hfind⟩ := arrayOf_extends h.founded .nil
    simpa using ⟨hextends.known hknown, known_of_find? hfind⟩
  case nests =>
    obtain ⟨info, hnil⟩ := h.shape_nil
    exact nests_arrayOf h.founded h.shape_nil hknown (by simp [hnil])

/-- Assigning the array to the variable starts the cycle. -/
theorem connect_array_exhausts {read array : NodeId} {v : TypeId}
    (h : s.HoldsArray name nil var read array v)
    (hdepth : s.propagationDepth < s.options.maxPropagationDepth) (engine : Engine) :
    Exhausts (connect engine var [array]) s := by
  have hdistinct := h.distinct
  simp only [List.nodup_cons, List.mem_cons, List.not_mem_nil, or_false, not_or,
    not_false_eq_true, List.nodup_nil, and_true] at hdistinct
  obtain ⟨⟨-, -, hnilArray⟩, ⟨hvarRead, hvarArray⟩, hreadArray⟩ := hdistinct
  let g := s.flow.addEdge var array
  obtain ⟨hvar, harray, hothers⟩ := wired_addEdge h.var_wired h.array_wired hvarArray
    (by simpa using Ne.symm hnilArray)
  have htypeOf : ∀ node, g.typeOf node = s.typeOf node :=
    fun node => typeOf_addEdge _ _ node _
  have hcycle : g.ArrayCycle nil var read array :=
    { var_wired := hvar
      read_wired := hothers _ _ _ _ h.read_wired (Ne.symm hvarRead) hreadArray
      array_wired := harray
      distinct := h.distinct
      typeOf_nil := (htypeOf nil).trans h.typeOf_nil }
  have hstart : OnCycle { s with flow := g } nil var read array .nil .nil v :=
    { cycle := hcycle
      typeOf_var := (htypeOf var).trans h.typeOf_var
      typeOf_read := (htypeOf read).trans h.typeOf_read
      typeOf_array := (htypeOf array).trans h.typeOf_array }
  refine connect_exhausts engine rfl (hstart.derives_var h.known h.nests) (by simp) hdepth ?_
  intro s' htypes hflow
  have hnext := (hstart.setVar s'.types (unionOf [.nil, v] s.types).1).of_flow s' hflow
  exact Circles.exhausts (.read hnext (htypes ▸ h.nests)) engine _

theorem assign_array_exhausts (h : s.HoldsNil name nil var)
    (hdepth : s.propagationDepth < s.options.maxPropagationDepth) (fuel : Nat) :
    Exhausts (visitWith (.ofFuel (fuel + 2)) .root
      ⟨.assign name ⟨.array [⟨.var name, .absent⟩], .absent⟩, .absent⟩) s := by
  obtain ⟨read, array, v, s1, hvisit, h1, hsame, hoptions⟩ := visit_array_returns h fuel
  rw [← hsame, ← hoptions] at hdepth
  have hdeclare : Returns (declareVar .root name .absent) s1 var s1 := by
    refine .get_bind ?_
    rw [h1.found]
    exact .pure _ _
  exact hvisit.exhausts (hdeclare.exhausts ((connect_array_exhausts h1 hdepth _).bind _))

end Infer

/-- The program that assigns a variable `nil` and then an array of itself. -/
def Program.growing (name : String) : Program where
  exprs :=
    [⟨.assign name ⟨.nil, .absent⟩, .absent⟩,
     ⟨.assign name ⟨.array [⟨.var name, .absent⟩], .absent⟩, .absent⟩]
  source := none

theorem Session.start_nil (options : InferenceOptions) :
    ∃ info, (start options).types.shape .nil = .cls info := by
  simp only [start]
  exact standard_nil

theorem Session.start_root (options : InferenceOptions) :
    ScopeId.root.index < (start options).scopes.size := by
  simp [start, ScopeId.root]

/-- Whatever has been checked before, no supply of fuel is enough to check the program. -/
theorem Session.Reached.growing_exhausts {options : InferenceOptions} (h : Reached options s)
    (hfree : s.findVar? .root name = none)
    (hdepth : s.propagationDepth < s.options.maxPropagationDepth) (fuel : Nat) :
    Exhausts (checkWith (.ofFuel fuel) (.growing name)) s := by
  obtain ⟨A, hevolves⟩ := h.evolves
  have hb := hevolves.before
  have hf : s.types.Founded := (hevolves.sound (start_sound options)).types
  have hnil := hb.types.exists_cls (start_nil options)
  have hroot : ScopeId.root.index < s.scopes.size :=
    (start_root options).trans_le hb.scopes_le
  rw [checkWith, Program.growing, List.mapM_cons, List.mapM_cons]
  match fuel with
  | 0 => exact Exhausts.bind ⟨s, rfl⟩ _
  | 1 => exact Exhausts.bind ⟨s, rfl⟩ _
  | 2 =>
    obtain ⟨_, _, s1, hfirst, -⟩ := assign_nil_returns hf hnil hroot hfree 0
    exact hfirst.exhausts (Exhausts.bind (Exhausts.bind ⟨s1, rfl⟩ _) _)
  | fuel + 3 =>
    obtain ⟨_, _, s1, hfirst, hholds, hsame, hoptions⟩ :=
      assign_nil_returns hf hnil hroot hfree (fuel + 1)
    rw [← hsame, ← hoptions] at hdepth
    exact hfirst.exhausts (Exhausts.bind ((assign_array_exhausts hholds hdepth fuel).bind _) _)

/-- Propagation ends in every graph of nodes that join their inputs or have a fixed type, whatever
its cycles.  It does not end for an array on a cycle: in every session that checks lead to there is
such a program, and no supply of fuel is enough to check it. -/
theorem Session.Reached.propagation_ends_or_grows {options : InferenceOptions} {s : Session}
    (h : Reached options s) (hdepth : s.propagationDepth < s.options.maxPropagationDepth) :
    (∀ joined waiting, FlowGraph.Settling joined.types joined.flow waiting → Ends joined waiting) ∧
      ∀ name, s.findVar? .root name = none →
        ∀ fuel, Exhausts (checkWith (.ofFuel fuel) (.growing name)) s :=
  ⟨fun _ _ hsettling => propagate_ends hsettling,
    fun _ hfree fuel => h.growing_exhausts hfree hdepth fuel⟩

theorem Session.Reached.propagation_ends_or_grows_start :
    Ends FlowOp.cycleSession [.node ⟨1⟩] ∧ (Session.start default).findVar? .root "x" = none ∧
      Exhausts (checkWith (.ofFuel Engine.fuelSupply) (.growing "x")) (.start default) := by
  have hlimit : (Session.start default).propagationDepth
      < (Session.start default).options.maxPropagationDepth := by decide
  have hfree : (Session.start default).findVar? .root "x" = none := rfl
  obtain ⟨hends, hgrows⟩ := propagation_ends_or_grows .start hlimit
  have hclasses : TypeTable.family.OverClasses := by decide +kernel
  have hsettling :=
    (FlowOp.cycleSession_bound.settling TypeTable.family_reached hclasses (by decide)).1
  exact ⟨hends _ _ (hsettling.wait ⟨1⟩), hfree, hgrows "x" hfree _⟩

end Callsite
