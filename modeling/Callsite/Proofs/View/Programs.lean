import Callsite.Inference.Synthesis

/-!
# Programs with other spans

The spans of a program can be replaced without touching anything else.  What a method is to the
callers, its name, its arity, its signature and what it yields, does not depend on them, and
methods that nobody wrote have none.
-/

namespace Callsite

/-! ## Replacing spans -/

mutual

/-- An expression with other spans. -/
def Expr.respan (f : Span → Span) : Expr → Expr
  | ⟨form, span⟩ => ⟨form.respan f, f span⟩

def Form.respan (f : Span → Span) : Form → Form
  | .array items => .array (Expr.respanAll f items)
  | .assign target value => .assign target (value.respan f)
  | .call call => .call (call.respan f)
  | .yield args => .yield (Expr.respanAll f args)
  | .seq items => .seq (Expr.respanAll f items)
  | .branch test yes no => .branch (test.respan f) (yes.respan f) (no.respan f)
  | .method decl => .method (decl.respan f)
  | .classDecl decl => .classDecl (decl.respan f)
  | .function params body => .function (Param.respanAll f params) (body.respan f)
  | .classOf value => .classOf (value.respan f)
  | .nil => .nil
  | .bool value => .bool value
  | .int value => .int value
  | .char value => .char value
  | .str value => .str value
  | .symbol name => .symbol name
  | .var name => .var name
  | .selfRef => .selfRef
  | .out name => .out name
  | .path type => .path type
  | .library decl => .library decl
  | .primitive type => .primitive type
  | .allocate type => .allocate type

def Expr.respanAll (f : Span → Span) : List Expr → List Expr
  | [] => []
  | e :: es => e.respan f :: Expr.respanAll f es

def Expr.respan? (f : Span → Span) : Option Expr → Option Expr
  | none => none
  | some e => some (e.respan f)

def Block.respan (f : Span → Span) : Block → Block
  | ⟨params, body⟩ => ⟨params, Expr.respan? f body⟩

def Block.respan? (f : Span → Span) : Option Block → Option Block
  | none => none
  | some block => some (block.respan f)

def Call.respan (f : Span → Span) : Call → Call
  | ⟨receiver, name, args, block, blockArg, hasParens⟩ =>
    ⟨Expr.respan? f receiver, name, Expr.respanAll f args, Block.respan? f block,
      Expr.respan? f blockArg, hasParens⟩

def Param.respan (f : Span → Span) : Param → Param
  | ⟨name, default, restriction⟩ => ⟨name, Expr.respan? f default, restriction⟩

def Param.respanAll (f : Span → Span) : List Param → List Param
  | [] => []
  | param :: params => param.respan f :: Param.respanAll f params

def MethodDecl.respan (f : Span → Span) : MethodDecl → MethodDecl
  | ⟨name, params, body, blockParam, onSelf, span⟩ =>
    ⟨name, Param.respanAll f params, Expr.respan? f body, blockParam, onSelf, f span⟩

def ClassDecl.respan (f : Span → Span) : ClassDecl → ClassDecl
  | ⟨name, superclass, isAbstract, typeVars, body⟩ =>
    ⟨name, superclass, isAbstract, typeVars, Expr.respanAll f body⟩

end

variable {f : Span → Span}

theorem Expr.respanAll_eq (es : List Expr) : respanAll f es = es.map (respan f) := by
  induction es with
  | nil => rfl
  | cons e es ih => rw [respanAll, List.map_cons, ih]

theorem Expr.respan?_eq (e : Option Expr) : respan? f e = e.map (respan f) := by
  cases e with
  | none | some => rfl

theorem Block.respan?_eq (block : Option Block) : respan? f block = block.map (respan f) := by
  cases block with
  | none | some => rfl

theorem Param.respanAll_eq (params : List Param) : respanAll f params = params.map (respan f) := by
  induction params with
  | nil => rfl
  | cons param params ih => rw [respanAll, List.map_cons, ih]

section Fields

@[simp] theorem Expr.span_respan (e : Expr) : (e.respan f).span = f e.span := by
  cases e
  rw [respan]

@[simp] theorem Param.name_respan (param : Param) : (param.respan f).name = param.name := by
  cases param
  rw [respan]

@[simp] theorem Param.restriction_respan (param : Param) :
    (param.respan f).restriction = param.restriction := by
  cases param
  rw [respan]

@[simp] theorem Param.default_respan (param : Param) :
    (param.respan f).default = param.default.map (Expr.respan f) := by
  cases param
  rw [respan, Expr.respan?_eq]

variable (d : MethodDecl)

@[simp] theorem MethodDecl.name_respan : (d.respan f).name = d.name := by
  cases d
  rw [respan]

@[simp] theorem MethodDecl.params_respan : (d.respan f).params = d.params.map (Param.respan f) := by
  cases d
  rw [respan, Param.respanAll_eq]

@[simp] theorem MethodDecl.body_respan : (d.respan f).body = d.body.map (Expr.respan f) := by
  cases d
  rw [respan, Expr.respan?_eq]

@[simp] theorem MethodDecl.blockParam_respan : (d.respan f).blockParam = d.blockParam := by
  cases d
  rw [respan]

@[simp] theorem MethodDecl.onSelf_respan : (d.respan f).onSelf = d.onSelf := by
  cases d
  rw [respan]

@[simp] theorem MethodDecl.span_respan : (d.respan f).span = f d.span := by
  cases d
  rw [respan]

end Fields

/-! ## Replacing nothing -/

mutual

theorem Expr.respan_id (e : Expr) : e.respan id = e := by
  obtain ⟨form, span⟩ := e
  rw [Expr.respan, Form.respan_id form, id]

theorem Form.respan_id (form : Form) : form.respan id = form := by
  cases form with
  | array items | seq items => rw [Form.respan, Expr.respanAll_id items]
  | assign _ value | classOf value => rw [Form.respan, Expr.respan_id value]
  | call call => rw [Form.respan, Call.respan_id call]
  | yield args => rw [Form.respan, Expr.respanAll_id args]
  | branch test yes no =>
    rw [Form.respan, Expr.respan_id test, Expr.respan_id yes, Expr.respan_id no]
  | method decl => rw [Form.respan, MethodDecl.respan_id decl]
  | classDecl decl => rw [Form.respan, ClassDecl.respan_id decl]
  | function params body => rw [Form.respan, Param.respanAll_id params, Expr.respan_id body]
  | _ => rfl

theorem Expr.respanAll_id (es : List Expr) : Expr.respanAll id es = es := by
  cases es with
  | nil => rfl
  | cons e es => rw [Expr.respanAll, Expr.respan_id e, Expr.respanAll_id es]

theorem Expr.respan?_id (e : Option Expr) : Expr.respan? id e = e := by
  cases e with
  | none => rfl
  | some e => rw [Expr.respan?, Expr.respan_id e]

theorem Block.respan_id (block : Block) : block.respan id = block := by
  obtain ⟨params, body⟩ := block
  rw [Block.respan, Expr.respan?_id body]

theorem Block.respan?_id (block : Option Block) : Block.respan? id block = block := by
  cases block with
  | none => rfl
  | some block => rw [Block.respan?, Block.respan_id block]

theorem Call.respan_id (call : Call) : call.respan id = call := by
  obtain ⟨receiver, name, args, block, blockArg, hasParens⟩ := call
  rw [Call.respan, Expr.respan?_id receiver, Expr.respanAll_id args, Block.respan?_id block,
    Expr.respan?_id blockArg]

theorem Param.respan_id (param : Param) : param.respan id = param := by
  obtain ⟨name, default, restriction⟩ := param
  rw [Param.respan, Expr.respan?_id default]

theorem Param.respanAll_id (params : List Param) : Param.respanAll id params = params := by
  cases params with
  | nil => rfl
  | cons param params => rw [Param.respanAll, Param.respan_id param, Param.respanAll_id params]

theorem MethodDecl.respan_id (d : MethodDecl) : d.respan id = d := by
  obtain ⟨name, params, body, blockParam, onSelf, span⟩ := d
  rw [MethodDecl.respan, Param.respanAll_id params, Expr.respan?_id body, id]

theorem ClassDecl.respan_id (d : ClassDecl) : d.respan id = d := by
  obtain ⟨name, superclass, isAbstract, typeVars, body⟩ := d
  rw [ClassDecl.respan, Expr.respanAll_id body]

end

/-! ## What callers see -/

mutual

theorem Expr.yieldArities_respan (e : Expr) : (e.respan f).yieldArities = e.yieldArities := by
  obtain ⟨form, span⟩ := e
  rw [Expr.respan, Expr.yieldArities, Expr.yieldArities, Form.yieldArities_respan form]

theorem Form.yieldArities_respan (form : Form) :
    (form.respan f).yieldArities = form.yieldArities := by
  cases form with
  | array items | seq items =>
    simp only [Form.respan, Form.yieldArities, Expr.yieldAritiesOf_respanAll items]
  | assign _ value | classOf value =>
    simp only [Form.respan, Form.yieldArities, Expr.yieldArities_respan value]
  | call call => simp only [Form.respan, Form.yieldArities, Call.yieldArities_respan call]
  | yield args =>
    rw [Form.respan, Form.yieldArities, Form.yieldArities, Expr.yieldAritiesOf_respanAll args,
      Expr.respanAll_eq, List.length_map]
  | branch test yes no =>
    simp only [Form.respan, Form.yieldArities, Expr.yieldArities_respan test,
      Expr.yieldArities_respan yes,
      Expr.yieldArities_respan no]
  | _ => simp only [Form.respan, Form.yieldArities]

theorem Call.yieldArities_respan (call : Call) :
    (call.respan f).yieldArities = call.yieldArities := by
  obtain ⟨receiver, name, args, block, blockArg, hasParens⟩ := call
  simp only [Call.respan, Call.yieldArities, Expr.yieldAritiesOf?_respan? receiver,
    Expr.yieldAritiesOf_respanAll args, Block.yieldAritiesOf?_respan? block]

theorem Block.yieldAritiesOf?_respan? (block : Option Block) :
    Block.yieldAritiesOf? (Block.respan? f block) = Block.yieldAritiesOf? block := by
  rcases block with _ | ⟨params, body⟩
  · rfl
  · simp only [Block.respan?, Block.respan, Block.yieldAritiesOf?,
      Expr.yieldAritiesOf?_respan? body]

theorem Expr.yieldAritiesOf?_respan? (e : Option Expr) :
    Expr.yieldAritiesOf? (Expr.respan? f e) = Expr.yieldAritiesOf? e := by
  cases e with
  | none => rfl
  | some e => simp only [Expr.respan?, Expr.yieldAritiesOf?, Expr.yieldArities_respan e]

theorem Expr.yieldAritiesOf_respanAll (es : List Expr) :
    Expr.yieldAritiesOf (Expr.respanAll f es) = Expr.yieldAritiesOf es := by
  cases es with
  | nil => rfl
  | cons e es =>
    simp only [Expr.respanAll, Expr.yieldAritiesOf, Expr.yieldArities_respan e,
      Expr.yieldAritiesOf_respanAll es]

end

namespace MethodDecl

variable (d : MethodDecl)

@[simp] theorem requiredParams_respan : (d.respan f).requiredParams = d.requiredParams := by
  rw [requiredParams, params_respan, List.countP_map]
  refine List.countP_congr fun param _ => ?_
  simp

@[simp] theorem acceptsArity_respan (count : Nat) :
    (d.respan f).acceptsArity count = d.acceptsArity count := by
  simp [acceptsArity]

@[simp] theorem yields_respan : (d.respan f).yields = d.yields := by
  have hbody : (d.respan f).body.bind Expr.maxYield = d.body.bind Expr.maxYield := by
    rw [body_respan]
    cases d.body with
    | none => rfl
    | some body => exact congrArg List.max? body.yieldArities_respan
  rw [yields, yields, hbody, blockParam_respan]

@[simp] theorem signature_respan : (d.respan f).signature = d.signature := by
  simp [signature, Function.comp_def]

@[simp] theorem arityText_respan : (d.respan f).arityText = d.arityText := by
  simp [arityText]

end MethodDecl

/-! ## Generated methods -/

theorem Param.map_respan {params : List Param} (h : ∀ param ∈ params, param.default = none) :
    params.map (Param.respan f) = params := by
  have hsame : ∀ param ∈ params, param.respan f = param := by
    intro param hparam
    have hnone := h param hparam
    obtain ⟨name, default, restriction⟩ := param
    obtain rfl : default = none := hnone
    rw [respan, Expr.respan?]
  rw [List.map_congr_left hsame, List.map_id']

theorem constructorDecl_map_respan (count : Nat) (params : List Param)
    (allocated : Option TypeExpr) : constructorDecl count (params.map (Param.respan f)) allocated
      = constructorDecl count params allocated := by
  have hrestriction : ∀ i : Nat, (params.map (Param.respan f))[i]?.bind (·.restriction)
      = params[i]?.bind (·.restriction) := by
    intro i
    rw [List.getElem?_map]
    cases params[i]? with
    | none => rfl
    | some param => exact param.restriction_respan
  simp only [constructorDecl, hrestriction]

section Generated

variable (habsent : f .absent = .absent)
include habsent

theorem Expr.respan_generated (form : Form) :
    (Expr.generated form).respan f = .generated (form.respan f) := by
  rw [generated, respan, habsent, generated]

theorem MethodDecl.respan_generated {params : List Param}
    (hparams : ∀ param ∈ params, param.default = none) (name : String) (body : Expr) :
    (generated name params body).respan f = generated name params (body.respan f) := by
  rw [generated, respan, Param.respanAll_eq, Param.map_respan hparams, habsent]
  rfl

theorem argVars_respan (names : List String) :
    (argVars names).map (Expr.respan f) = argVars names := by
  rw [argVars, List.map_map]
  exact List.map_congr_left fun name _ => Expr.respan_generated habsent (.var name)

theorem allocatorDecl_respan : allocatorDecl.respan f = allocatorDecl := by
  rw [allocatorDecl, MethodDecl.respan_generated habsent (by simp), Expr.respan_generated habsent]
  rfl

theorem constructorDecl_respan (count : Nat) (params : List Param) (allocated : Option TypeExpr) :
    (constructorDecl count params allocated).respan f = constructorDecl count params allocated := by
  have hown : ∀ param ∈ (argNames count).mapIdx fun i name => { Param.plain name with
      restriction := params[i]?.bind (·.restriction) }, param.default = none := by
    intro param hparam
    obtain ⟨i, hi, rfl⟩ := List.mem_mapIdx.1 hparam
    rfl
  rw [constructorDecl, MethodDecl.respan_generated habsent hown]
  simp only [Expr.respan_generated habsent, Form.respan, Expr.respanAll, Call.respan, Call.plain,
    Expr.respan?, Block.respan?, Expr.respanAll_eq, argVars_respan habsent]

theorem forwarderDecl_respan (name : String) (count : Nat) :
    (forwarderDecl name count).respan f = forwarderDecl name count := by
  have hparams : ∀ param ∈ (argNames count).map Param.plain, param.default = none := by
    intro param hparam
    obtain ⟨name, -, rfl⟩ := List.mem_map.1 hparam
    rfl
  have hpassed : Form.respan f (if count = 0 then .nil else .array (argVars (argNames count)))
      = if count = 0 then .nil else .array (argVars (argNames count)) := by
    split
    · rfl
    · rw [Form.respan, Expr.respanAll_eq, argVars_respan habsent]
  rw [forwarderDecl, MethodDecl.respan_generated habsent hparams]
  simp only [Expr.respan_generated habsent, Form.respan, Expr.respanAll, Call.respan, Call.plain,
    Expr.respan?, Block.respan?, hpassed]

end Generated

end Callsite
