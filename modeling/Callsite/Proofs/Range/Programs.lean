import Callsite.Proofs.Range.Sizes

/-!
# The types that programs mention

A program refers to a type by its number only in a resolved type expression, which no program
that is read from a text contains.  Generated methods do, and then mention types that are there.
-/

namespace Callsite

variable {params : List Param} {form : Form} {name : String}

/-! ## Type expressions -/

mutual

/-- The types that a type expression mentions by their numbers. -/
def TypeExpr.mentions : TypeExpr → List TypeId
  | .path _ _ => []
  | .generic head args => head.mentions ++ TypeExpr.mentionsAll args
  | .function inputs output => TypeExpr.mentionsAll inputs ++ TypeExpr.mentions? output
  | .selfType => []
  | .resolved type => [type]

def TypeExpr.mentionsAll : List TypeExpr → List TypeId
  | [] => []
  | e :: es => e.mentions ++ TypeExpr.mentionsAll es

def TypeExpr.mentions? : Option TypeExpr → List TypeId
  | none => []
  | some e => e.mentions

end

def BlockParam.mentions (b : BlockParam) : List TypeId :=
  TypeExpr.mentionsAll (b.inputs.getD []) ++ TypeExpr.mentions? b.output

def LibraryDecl.mentions (d : LibraryDecl) : List TypeId :=
  (d.functions.flatMap fun function =>
      TypeExpr.mentionsAll (function.params.map (·.2)) ++ TypeExpr.mentions? function.result)
    ++ d.structs.flatMap fun struct => TypeExpr.mentionsAll (struct.fields.map (·.2))

/-! ## Expressions -/

mutual

/-- The types that an expression mentions by their numbers. -/
def Expr.mentions : Expr → List TypeId
  | ⟨form, _⟩ => form.mentions

def Form.mentions : Form → List TypeId
  | .array items => Expr.mentionsAll items
  | .assign _ value => value.mentions
  | .path type => type.mentions
  | .call call => call.mentions
  | .yield args => Expr.mentionsAll args
  | .seq items => Expr.mentionsAll items
  | .branch test yes no => test.mentions ++ yes.mentions ++ no.mentions
  | .method decl => decl.mentions
  | .classDecl decl => decl.mentions
  | .library decl => decl.mentions
  | .primitive type => type.mentions
  | .allocate type => TypeExpr.mentions? type
  | .function params body => Param.mentionsAll params ++ body.mentions
  | .classOf value => value.mentions
  | .nil => []
  | .bool _ => []
  | .int _ => []
  | .char _ => []
  | .str _ => []
  | .symbol _ => []
  | .var _ => []
  | .selfRef => []
  | .out _ => []

def Expr.mentionsAll : List Expr → List TypeId
  | [] => []
  | e :: es => e.mentions ++ Expr.mentionsAll es

def Expr.mentions? : Option Expr → List TypeId
  | none => []
  | some e => e.mentions

def Block.mentions : Block → List TypeId
  | ⟨_, body⟩ => Expr.mentions? body

def Block.mentions? : Option Block → List TypeId
  | none => []
  | some block => block.mentions

def Call.mentions : Call → List TypeId
  | ⟨receiver, _, args, block, blockArg, _⟩ =>
    Expr.mentions? receiver ++ Expr.mentionsAll args ++ Block.mentions? block
      ++ Expr.mentions? blockArg

def Param.mentions : Param → List TypeId
  | ⟨_, default, restriction⟩ => Expr.mentions? default ++ TypeExpr.mentions? restriction

def Param.mentionsAll : List Param → List TypeId
  | [] => []
  | param :: params => param.mentions ++ Param.mentionsAll params

def MethodDecl.mentions : MethodDecl → List TypeId
  | ⟨_, params, body, blockParam, _, _⟩ =>
    Param.mentionsAll params ++ Expr.mentions? body ++ (blockParam.map BlockParam.mentions).getD []

def ClassDecl.mentions : ClassDecl → List TypeId
  | ⟨_, superclass, _, _, body⟩ => TypeExpr.mentions? superclass ++ Expr.mentionsAll body

end

/-- The types that a program mentions by their numbers. -/
def Program.mentions (program : Program) : List TypeId :=
  Expr.mentionsAll program.exprs

namespace Sizes

variable {z : Sizes}

instance : Ranged TypeExpr where
  Within z e := z.Holds e.mentions
  mono hz h := Holds.mono h hz

instance : Ranged BlockParam where
  Within z b := z.Holds b.mentions
  mono hz h := Holds.mono h hz

instance : Ranged LibraryDecl where
  Within z d := z.Holds d.mentions
  mono hz h := Holds.mono h hz

instance : Ranged Expr where
  Within z e := z.Holds e.mentions
  mono hz h := Holds.mono h hz

instance : Ranged Form where
  Within z form := z.Holds form.mentions
  mono hz h := Holds.mono h hz

instance : Ranged Block where
  Within z block := z.Holds block.mentions
  mono hz h := Holds.mono h hz

instance : Ranged Call where
  Within z call := z.Holds call.mentions
  mono hz h := Holds.mono h hz

instance : Ranged Param where
  Within z param := z.Holds param.mentions
  mono hz h := Holds.mono h hz

instance : Ranged MethodDecl where
  Within z d := z.Holds d.mentions
  mono hz h := Holds.mono h hz

instance : Ranged ClassDecl where
  Within z d := z.Holds d.mentions
  mono hz h := Holds.mono h hz

/-! ## Parts of type expressions -/

theorem holds_mentionsAll {es : List TypeExpr} :
    z.Holds (TypeExpr.mentionsAll es) ↔ z.Holds es := by
  induction es with
  | nil => simp [TypeExpr.mentionsAll]
  | cons e es ih =>
    rw [TypeExpr.mentionsAll, holds_append, ih, holds_cons]
    rfl

theorem holds_mentions? {e : Option TypeExpr} : z.Holds (TypeExpr.mentions? e) ↔ z.Holds e := by
  cases e with
  | none => simp [TypeExpr.mentions?]
  | some e =>
    rw [TypeExpr.mentions?, holds_some]
    rfl

@[simp] theorem holds_path (names : List String) (global : Bool) :
    z.Holds (TypeExpr.path names global) :=
  holds_nil

@[simp] theorem holds_selfType : z.Holds TypeExpr.selfType :=
  holds_nil

@[simp] theorem holds_resolved {type : TypeId} :
    z.Holds (TypeExpr.resolved type) ↔ z.Holds type := by
  change z.Holds [type] ↔ _
  simp

@[simp] theorem holds_generic {head : TypeExpr} {args : List TypeExpr} :
    z.Holds (TypeExpr.generic head args) ↔ z.Holds head ∧ z.Holds args := by
  change z.Holds (head.mentions ++ TypeExpr.mentionsAll args) ↔ _
  rw [holds_append, holds_mentionsAll]
  rfl

@[simp] theorem holds_function {inputs : List TypeExpr} {output : Option TypeExpr} :
    z.Holds (TypeExpr.function inputs output) ↔ z.Holds inputs ∧ z.Holds output := by
  change z.Holds (TypeExpr.mentionsAll inputs ++ TypeExpr.mentions? output) ↔ _
  rw [holds_append, holds_mentionsAll, holds_mentions?]

theorem holds_blockParam {b : BlockParam} :
    z.Holds b ↔ z.Holds (b.inputs.getD []) ∧ z.Holds b.output := by
  change z.Holds (TypeExpr.mentionsAll _ ++ TypeExpr.mentions? _) ↔ _
  rw [holds_append, holds_mentionsAll, holds_mentions?]

theorem holds_library {d : LibraryDecl} :
    z.Holds d ↔
      (∀ function ∈ d.functions, z.Holds function.params ∧ z.Holds function.result) ∧
        ∀ struct ∈ d.structs, z.Holds struct.fields := by
  have hfields : ∀ fields : List (String × TypeExpr),
      z.Holds (fields.map (·.2)) ↔ z.Holds fields := by
    intro fields
    simp only [holds_list, List.forall_mem_map, holds_prod, holds_string, true_and]
  have hflatMap : ∀ {α : Type} (l : List α) (f : α → List TypeId),
      z.Holds (l.flatMap f) ↔ ∀ a ∈ l, z.Holds (f a) := by
    intro α l f
    simp only [holds_list, List.mem_flatMap]
    constructor
    · exact fun h a ha type htype => h type ⟨a, ha, htype⟩
    · rintro h type ⟨a, ha, htype⟩
      exact h a ha type htype
  change z.Holds d.mentions ↔ _
  simp only [LibraryDecl.mentions, holds_append, hflatMap, holds_mentionsAll, holds_mentions?,
    hfields]

/-! ## Parts of expressions -/

theorem holds_exprs {es : List Expr} : z.Holds (Expr.mentionsAll es) ↔ z.Holds es := by
  induction es with
  | nil => simp [Expr.mentionsAll]
  | cons e es ih =>
    rw [Expr.mentionsAll, holds_append, ih, holds_cons]
    rfl

theorem holds_expr? {e : Option Expr} : z.Holds (Expr.mentions? e) ↔ z.Holds e := by
  cases e with
  | none => simp [Expr.mentions?]
  | some e =>
    rw [Expr.mentions?, holds_some]
    rfl

theorem holds_params : z.Holds (Param.mentionsAll params) ↔ z.Holds params := by
  induction params with
  | nil => simp [Param.mentionsAll]
  | cons param params ih =>
    rw [Param.mentionsAll, holds_append, ih, holds_cons]
    rfl

theorem holds_form {e : Expr} : z.Holds e ↔ z.Holds e.form := by
  obtain ⟨form, span⟩ := e
  rfl

theorem holds_block {block : Block} : z.Holds block ↔ z.Holds block.body := by
  obtain ⟨params, body⟩ := block
  change z.Holds (Block.mentions ⟨params, body⟩) ↔ _
  rw [Block.mentions, holds_expr?]

theorem holds_call {call : Call} :
    z.Holds call ↔
      z.Holds call.receiver ∧ z.Holds call.args ∧ z.Holds call.block ∧ z.Holds call.blockArg := by
  have hblock : ∀ block, z.Holds (Block.mentions? block) ↔ z.Holds block := by
    intro block
    cases block with
    | none => simp [Block.mentions?]
    | some block =>
      rw [Block.mentions?, holds_some]
      rfl
  obtain ⟨receiver, name, args, block, blockArg, hasParens⟩ := call
  change z.Holds (Call.mentions ⟨receiver, name, args, block, blockArg, hasParens⟩) ↔ _
  rw [Call.mentions, holds_append, holds_append, holds_append, holds_expr?, holds_exprs, hblock,
    holds_expr?, and_assoc, and_assoc]

theorem holds_param {param : Param} :
    z.Holds param ↔ z.Holds param.default ∧ z.Holds param.restriction := by
  obtain ⟨name, default, restriction⟩ := param
  change z.Holds (Param.mentions ⟨name, default, restriction⟩) ↔ _
  rw [Param.mentions, holds_append, holds_expr?, holds_mentions?]

theorem holds_method {d : MethodDecl} :
    z.Holds d ↔ z.Holds d.params ∧ z.Holds d.body ∧ z.Holds d.blockParam := by
  have hblock : ∀ b : Option BlockParam,
      z.Holds ((b.map BlockParam.mentions).getD []) ↔ z.Holds b := by
    intro b
    cases b with
    | none => simp
    | some b =>
      rw [Option.map_some, Option.getD_some, holds_some]
      rfl
  obtain ⟨name, params, body, blockParam, onSelf, span⟩ := d
  change z.Holds (MethodDecl.mentions ⟨name, params, body, blockParam, onSelf, span⟩) ↔ _
  rw [MethodDecl.mentions, holds_append, holds_append, holds_params, holds_expr?, hblock, and_assoc]

theorem holds_class {d : ClassDecl} : z.Holds d ↔ z.Holds d.superclass ∧ z.Holds d.body := by
  obtain ⟨name, superclass, isAbstract, typeVars, body⟩ := d
  change z.Holds (ClassDecl.mentions ⟨name, superclass, isAbstract, typeVars, body⟩) ↔ _
  rw [ClassDecl.mentions, holds_append, holds_mentions?, holds_exprs]

/-- What the parts of a form refer to. -/
theorem holds_parts :
    z.Holds form ↔
      match form with
      | .array items | .yield items | .seq items => z.Holds items
      | .assign _ value | .classOf value => z.Holds value
      | .path type | .primitive type => z.Holds type
      | .call call => z.Holds call
      | .branch test yes no => z.Holds test ∧ z.Holds yes ∧ z.Holds no
      | .method decl => z.Holds decl
      | .classDecl decl => z.Holds decl
      | .library decl => z.Holds decl
      | .allocate type => z.Holds type
      | .function params body => z.Holds params ∧ z.Holds body
      | _ => True := by
  change z.Holds (Form.mentions form) ↔ _
  cases form with
  | array | yield | seq => rw [Form.mentions, holds_exprs]
  | branch test yes no =>
    rw [Form.mentions, holds_append, holds_append, and_assoc]
    rfl
  | allocate type => rw [Form.mentions, holds_mentions?]
  | function params body =>
    rw [Form.mentions, holds_append, holds_params]
    rfl
  | _ =>
    rw [Form.mentions]
    first
      | rfl
      | simp

/-! ## Generated code -/

@[simp] theorem holds_generated : z.Holds (Expr.generated form) ↔ z.Holds form :=
  holds_form

theorem holds_plain {receiver : Option Expr} {args : List Expr} :
    z.Holds (Call.plain receiver name args) ↔ z.Holds receiver ∧ z.Holds args := by
  rw [holds_call]
  simp [Call.plain]

theorem holds_generatedMethod {body : Expr} :
    z.Holds (MethodDecl.generated name params body) ↔ z.Holds params ∧ z.Holds body := by
  rw [holds_method]
  simp [MethodDecl.generated]

@[simp] theorem holds_var (name : String) : z.Holds (Form.var name) :=
  holds_parts.2 trivial

theorem holds_argVars (names : List String) : z.Holds (argVars names) := by
  intro e he
  obtain ⟨name, -, rfl⟩ := List.mem_map.1 he
  simp

theorem holds_allocatorDecl : z.Holds allocatorDecl :=
  holds_generatedMethod.2 ⟨holds_nil, holds_generated.2 (holds_parts.2 holds_none)⟩

theorem holds_constructorDecl {count : Nat} {allocated : Option TypeExpr}
    (hparams : z.Holds params) (hallocated : z.Holds allocated) :
    z.Holds (constructorDecl count params allocated) := by
  refine holds_generatedMethod.2 ⟨?_, ?_⟩
  · intro param hparam
    obtain ⟨i, hi, rfl⟩ := List.mem_mapIdx.1 hparam
    rw [holds_param]
    refine ⟨holds_none, fun restriction hrestriction => ?_⟩
    obtain ⟨param, hparam, hsome⟩ := Option.bind_eq_some_iff.1 hrestriction
    exact (holds_param.1 (hparams param (List.mem_of_getElem? hparam))).2 restriction hsome
  · refine holds_generated.2 (holds_parts.2 ?_)
    have hallocate : z.Holds (Form.allocate allocated) := holds_parts.2 hallocated
    have hassign : z.Holds (Form.assign "x" (.generated (.allocate allocated))) :=
      holds_parts.2 (holds_generated.2 hallocate)
    have hcall : z.Holds (Form.call (.plain (some (.generated (.var "x"))) "initialize"
        (argVars (argNames count)))) :=
      holds_parts.2 (holds_plain.2 ⟨by simp, holds_argVars _⟩)
    simp [hassign, hcall]

theorem holds_forwarderDecl (name : String) (count : Nat) : z.Holds (forwarderDecl name count) := by
  refine holds_generatedMethod.2 ⟨?_, ?_⟩
  · intro param hparam
    obtain ⟨name, -, rfl⟩ := List.mem_map.1 hparam
    exact holds_param.2 ⟨holds_none, holds_none⟩
  · have hsymbol : z.Holds (Form.symbol name) := holds_parts.2 trivial
    have hpassed : z.Holds (if count = 0 then Form.nil else .array (argVars (argNames count))) := by
      split
      · exact holds_parts.2 trivial
      · exact holds_parts.2 (holds_argVars _)
    refine holds_generated.2 (holds_parts.2 (holds_plain.2 ⟨holds_none, ?_⟩))
    simp [hsymbol, hpassed]

theorem holds_blockArgBody (names : List String) (span : Span) :
    z.Holds (Infer.blockArgBody names span) := by
  have hvar : ∀ name, z.Holds (⟨.var name, span⟩ : Expr) :=
    fun name => holds_form.2 (holds_var name)
  refine holds_form.2 (holds_parts.2 (holds_plain.2 ⟨?_, ?_⟩))
  · simpa using hvar "#fn"
  · intro e he
    obtain ⟨name, -, rfl⟩ := List.mem_map.1 he
    exact hvar name

end Sizes

end Callsite
