import Callsite.Program.Encoding
import Callsite.Proofs.Program.Mentions
import Mathlib.Data.List.Basic

/-!
# Reading back what was written

A program is read back from the JSON value that it is written as.  The one thing that a JSON
value does not hold in full is the number of a type, which is read as a word of 32 bits; what is
read from a value mentions only such numbers, so it is read back from its own JSON value as well.
-/

namespace Callsite

variable {program : Program}

/-! ## Nesting -/

namespace Json

variable {α β : Type} {n : Nat} {j : Json} {items : List Json} {fields : List (String × Json)}

theorem depth_le_depthItems (h : j ∈ items) : j.depth ≤ depthItems items := by
  induction items with
  | nil => simp at h
  | cons first rest ih =>
    rcases List.mem_cons.1 h with rfl | h
    · exact Nat.le_max_left _ _
    · exact Nat.le_trans (ih h) (Nat.le_max_right _ _)

theorem depth_le_depthFields {field : String × Json} (h : field ∈ fields) :
    field.2.depth ≤ depthFields fields := by
  induction fields with
  | nil => simp at h
  | cons first rest ih =>
    rcases List.mem_cons.1 h with rfl | h
    · exact Nat.le_max_left _ _
    · exact Nat.le_trans (ih h) (Nat.le_max_right _ _)

/-- Going into an array takes one level. -/
theorem exists_level_of_arr (h : (arr items).depth ≤ n) :
    ∃ m, n = m + 1 ∧ ∀ j ∈ items, j.depth ≤ m := by
  obtain ⟨m, rfl⟩ : ∃ m, n = m + 1 :=
    Nat.exists_eq_add_of_le' (Nat.le_trans (Nat.le_add_left 1 _) h)
  exact ⟨m, rfl, fun j hj => Nat.le_trans (depth_le_depthItems hj) (Nat.le_of_succ_le_succ h)⟩

/-- Going into an object takes one level. -/
theorem exists_level_of_obj (h : (obj fields).depth ≤ n) :
    ∃ m, n = m + 1 ∧ fields.Forall fun field => field.2.depth ≤ m := by
  obtain ⟨m, rfl⟩ : ∃ m, n = m + 1 :=
    Nat.exists_eq_add_of_le' (Nat.le_trans (Nat.le_add_left 1 _) h)
  refine ⟨m, rfl, List.forall_iff_forall_mem.2 fun field hfield => ?_⟩
  exact Nat.le_trans (depth_le_depthFields hfield) (Nat.le_of_succ_le_succ h)

theorem exists_level_of_tagged {tag : String} (h : (tagged tag j).depth ≤ n) :
    ∃ m, n = m + 1 ∧ j.depth ≤ m := exists_level_of_obj h

/-! ## Fields -/

namespace Record

variable {key name : String} {rest : List (String × Json)} {positional : Bool}

@[simp] theorem required_cons (decode : Json → Option α) :
    (Record.mk ((key, j) :: rest) positional).required name decode
      = ((Record.mk ((key, j) :: rest) positional).get? name).bind decode :=
  rfl

@[simp] theorem optional_cons (decode : Json → Option α) :
    (Record.mk ((key, j) :: rest) positional).optional name decode
      = match (Record.mk ((key, j) :: rest) positional).get? name with
        | some j => nullable decode j
        | none => if positional then none else some none :=
  rfl

@[simp] theorem defaulted_cons (decode : Json → Option α) (default : α) :
    (Record.mk ((key, j) :: rest) positional).defaulted name decode default
      = match (Record.mk ((key, j) :: rest) positional).get? name with
        | some j => decode j
        | none => some default :=
  rfl

@[simp] theorem get?_cons_self : (Record.mk ((name, j) :: rest) positional).get? name = some j := by
  simp [get?]

@[simp] theorem get?_cons_of_ne (h : name ≠ key) :
    (Record.mk ((key, j) :: rest) positional).get? name =
      (Record.mk rest positional).get? name := by
  rw [get?, List.lookup_cons, beq_false_of_ne h]
  rfl

end Record

/-! A record that is written as an object with all its fields is read field by field. -/

@[simp] theorem named?_obj (names : List String) :
    (obj fields).named? names = if names.all fun name => fields.countP (·.1 == name) ≤ 1 then
      some ⟨fields, false⟩ else none :=
  rfl

@[simp] theorem record?_obj (names : List String) :
    (obj fields).record? names = (obj fields).named? names :=
  rfl

@[simp] theorem Layout.contents?_obj (layout : Layout) (names : List String) :
    layout.contents? names (.obj fields) = (obj fields).named? names := by
  rw [Layout.contents?]
  split <;> rfl

/-! ## Plain values -/

theorem mapM_map_eq_some {f : β → Option α} {g : α → β} {l : List α}
    (h : ∀ a ∈ l, f (g a) = some a) : (l.map g).mapM f = some l := by
  induction l with
  | nil => rfl
  | cons a l ih =>
    have hrest := ih (List.forall_mem_cons.1 h).2
    simp [h a List.mem_cons_self, hrest]

theorem names?_ofNames (names : List String) (h : (ofNames names).depth ≤ n) :
    names? n (ofNames names) = some names := by
  obtain ⟨m, rfl, -⟩ := exists_level_of_arr h
  exact mapM_map_eq_some fun _ _ => rfl

theorem nullable_ofOption {f : Json → Option α} {g : α → Json} {o : Option α}
    (hnull : ∀ a, g a ≠ .null) (h : ∀ a ∈ o, f (g a) = some a) :
    nullable f (ofOption (o.map g)) = some o := by
  cases o with
  | none => rfl
  | some a =>
    have hread : nullable f (g a) = (f (g a)).map some := by
      rw [nullable]
      exact hnull a
    rw [Option.map_some, ofOption, hread, h a rfl, Option.map_some]

theorem natBelow?_int {bound i : Nat} (h : i < bound) : natBelow? bound (.int i) = some i := by
  simp [natBelow?, int?, h]

theorem word64?_toNat (w : UInt64) : word64? (.int w.toNat) = some w := by
  rw [word64?, natBelow?_int (UInt64.toNat_lt_size w), Option.map_some, UInt64.ofNat_toNat]

theorem word32?_toNat (w : UInt32) : word32? (.int w.toNat) = some w := by
  rw [word32?, natBelow?_int (UInt32.toNat_lt_size w), Option.map_some, UInt32.ofNat_toNat]

theorem int64?_toInt (w : Int64) : int64? (.int w.toInt) = some w := by
  have hle : -0x8000000000000000 ≤ w.toInt := Int64.le_toInt w
  have hlt : w.toInt < 0x8000000000000000 := Int64.toInt_lt w
  simp [int64?, int?, hle, hlt]

theorem char?_singleton (c : Char) : char? (.text (String.singleton c)) = some c := by
  simp [char?]

end Json

open Sizes
open Json (Layout exists_level_of_arr exists_level_of_obj exists_level_of_tagged)

theorem Span.decode_obj {a b c d : Json} {s : Span} {n : Nat} (ha : a.word64? = some s.start)
    (hb : b.word64? = some s.stop) (hc : c.word32? = some s.line) (hd : d.word32? = some s.column) :
    Span.decode (n + 1) (.obj [("start", a), ("end", b), ("start_line", c), ("start_col", d)])
      = some s := by
  simp [Span.decode, ha, hb, hc, hd]

theorem TypeId.decode_obj {a : Json} {type : TypeId} {n : Nat}
    (ha : a.natBelow? UInt32.size = some type.index) :
    TypeId.decode (n + 1) (.obj [("index", a)]) = some type := by
  simp [TypeId.decode, ha]

/-! ## Type expressions -/

namespace TypeExpr

variable {layout : Layout} {n : Nat}

theorem toJson_ne_null (e : TypeExpr) : e.toJson ≠ .null := by
  cases e <;> simp [toJson, Json.tagged]

theorem toJsonList_eq (es : List TypeExpr) : toJsonList es = es.map toJson := by
  induction es with
  | nil => rfl
  | cons e es ih => rw [toJsonList, List.map_cons, ih]

theorem toJsonOption_eq (e : Option TypeExpr) : toJsonOption e = .ofOption (e.map toJson) := by
  cases e with
  | none | some => rfl

mutual

theorem decode_toJson : (e : TypeExpr) → {n : Nat} → e.toJson.depth ≤ n → words.Holds e →
    decode layout n e.toJson = some e
  | .path names global, n, h, _ => by
    obtain ⟨m, rfl, hcontents⟩ := exists_level_of_tagged h
    obtain ⟨k, rfl, hnames, -⟩ := exists_level_of_obj hcontents
    change decodePath layout (k + 1)
      (.obj [("names", .ofNames names), ("global", .bool global)]) = _
    simp [decodePath, Json.names?_ofNames names hnames, Json.bool?]
  | .generic head args, n, h, hw => by
    obtain ⟨m, rfl, hcontents⟩ := exists_level_of_tagged h
    obtain ⟨k, rfl, dhead, dargs⟩ := exists_level_of_obj hcontents
    obtain ⟨hhead, hargs⟩ := holds_generic.1 hw
    change decodeGeneric layout (k + 1)
      (.obj [("name", head.toJson), ("args", .arr (toJsonList args))]) = _
    simp [decodeGeneric, decode_toJson head dhead hhead, decodeList_toJsonList args dargs hargs]
  | .function inputs output, n, h, hw => by
    obtain ⟨m, rfl, hcontents⟩ := exists_level_of_tagged h
    obtain ⟨k, rfl, dinputs, doutput⟩ := exists_level_of_obj hcontents
    obtain ⟨hinputs, houtput⟩ := holds_function.1 hw
    change decodeFunction layout (k + 1)
      (.obj [("inputs", .arr (toJsonList inputs)), ("output", toJsonOption output)]) = _
    simp [decodeFunction, decodeList_toJsonList inputs dinputs hinputs,
      nullable_toJsonOption output doutput houtput]
  | .selfType, n, _, _ => by
    rw [toJson, decode]
  | .resolved type, n, h, hw => by
    rw [toJson] at h ⊢
    obtain ⟨m, rfl, hcontents⟩ := exists_level_of_tagged h
    obtain ⟨k, rfl, -⟩ := exists_level_of_obj hcontents
    have hread := TypeId.decode_obj (n := k) (Json.natBelow?_int (holds_resolved.1 hw))
    rw [Json.tagged, decode, hread]
    rfl

theorem decodeList_toJsonList : (es : List TypeExpr) → {n : Nat} →
    (Json.arr (toJsonList es)).depth ≤ n → words.Holds es →
    decodeList layout n (.arr (toJsonList es)) = some es
  | es, n, h, hw => by
    obtain ⟨m, rfl, hitems⟩ := exists_level_of_arr h
    rw [toJsonList_eq] at hitems ⊢
    exact Json.mapM_map_eq_some fun e he =>
      decode_toJson e (hitems e.toJson (List.mem_map_of_mem he)) (hw e he)

theorem nullable_toJsonOption : (e : Option TypeExpr) → {n : Nat} →
    (toJsonOption e).depth ≤ n → words.Holds e →
    Json.nullable (decode layout n) (toJsonOption e) = some e
  | e, n, h, hw => by
    rw [toJsonOption_eq] at h ⊢
    refine Json.nullable_ofOption toJson_ne_null fun type htype => ?_
    obtain rfl := htype
    exact decode_toJson type h (hw type rfl)

end

theorem decodeList_map (es : List TypeExpr) (h : (Json.arr (es.map toJson)).depth ≤ n)
    (hw : words.Holds es) : decodeList layout n (.arr (es.map toJson)) = some es := by
  rw [← toJsonList_eq] at h ⊢
  exact decodeList_toJsonList es h hw

theorem nullable_ofOption (e : Option TypeExpr) (h : (Json.ofOption (e.map toJson)).depth ≤ n)
    (hw : words.Holds e) :
    Json.nullable (decode layout n) (.ofOption (e.map toJson)) = some e := by
  rw [← toJsonOption_eq] at h ⊢
  exact nullable_toJsonOption e h hw

theorem decodePairs_map (pairs : List (String × TypeExpr))
    (h : (Json.arr (pairs.map pairToJson)).depth ≤ n) (hw : words.Holds pairs) :
    decodePairs layout n (.arr (pairs.map pairToJson)) = some pairs := by
  obtain ⟨m, rfl, hitems⟩ := exists_level_of_arr h
  refine Json.mapM_map_eq_some fun pair hpair => ?_
  obtain ⟨k, rfl, hparts⟩ :=
    exists_level_of_arr (hitems (pairToJson pair) (List.mem_map_of_mem hpair))
  have hread : decode layout k pair.2.toJson = some pair.2 :=
    decode_toJson pair.2 (hparts pair.2.toJson (by simp)) (hw pair hpair).2
  simp [pairToJson, decodePair, Json.text?, hread]

end TypeExpr

/-! ## Declarations -/

section Declarations

variable {layout : Layout} {n : Nat}

theorem Span.decode_toJson (span : Span) (h : span.toJson.depth ≤ n) :
    Span.decode n span.toJson = some span := by
  obtain ⟨m, rfl, -⟩ := exists_level_of_obj h
  exact Span.decode_obj (Json.word64?_toNat _) (Json.word64?_toNat _) (Json.word32?_toNat _)
    (Json.word32?_toNat _)

theorem BlockParam.decode_toJson (b : BlockParam) (h : b.toJson.depth ≤ n)
    (hw : words.Holds b) : BlockParam.decode layout n b.toJson = some b := by
  obtain ⟨m, rfl, -, dinputs, doutput⟩ := exists_level_of_obj h
  obtain ⟨hinputs, houtput⟩ := holds_blockParam.1 hw
  have hread : Json.nullable (TypeExpr.decodeList layout m)
      (.ofOption (b.inputs.map fun types => .arr (types.map TypeExpr.toJson))) = some b.inputs := by
    refine Json.nullable_ofOption (by simp) fun types htypes => ?_
    rw [htypes] at dinputs hinputs
    exact TypeExpr.decodeList_map types dinputs hinputs
  simp [BlockParam.decode, BlockParam.toJson, Json.text?, hread,
    TypeExpr.nullable_ofOption b.output doutput houtput]

theorem ForeignFunction.decode_toJson (f : ForeignFunction) (h : f.toJson.depth ≤ n)
    (hparams : words.Holds f.params) (hresult : words.Holds f.result) :
    ForeignFunction.decode layout n f.toJson = some f := by
  obtain ⟨m, rfl, -, dparams, dresult, -⟩ := exists_level_of_obj h
  simp [ForeignFunction.decode, ForeignFunction.toJson, Json.text?, Json.bool?,
    TypeExpr.decodePairs_map f.params dparams hparams,
    TypeExpr.nullable_ofOption f.result dresult hresult]

theorem ForeignStruct.decode_toJson (s : ForeignStruct) (h : s.toJson.depth ≤ n)
    (hw : words.Holds s.fields) : ForeignStruct.decode layout n s.toJson = some s := by
  obtain ⟨m, rfl, -, dfields⟩ := exists_level_of_obj h
  simp [ForeignStruct.decode, ForeignStruct.toJson, Json.text?,
    TypeExpr.decodePairs_map s.fields dfields hw]

theorem LibraryDecl.decode_toJson (l : LibraryDecl) (h : l.toJson.depth ≤ n)
    (hw : words.Holds l) : LibraryDecl.decode layout n l.toJson = some l := by
  obtain ⟨m, rfl, -, dfunctions, dstructs⟩ := exists_level_of_obj h
  obtain ⟨hfunctions, hstructs⟩ := holds_library.1 hw
  obtain ⟨k, rfl, hfunctionItems⟩ := exists_level_of_arr dfunctions
  obtain ⟨k', hk, hstructItems⟩ := exists_level_of_arr dstructs
  obtain rfl := Nat.succ.inj hk
  have hread : (l.functions.map ForeignFunction.toJson).mapM (ForeignFunction.decode layout k)
      = some l.functions :=
    Json.mapM_map_eq_some fun f hf => ForeignFunction.decode_toJson f
      (hfunctionItems f.toJson (List.mem_map_of_mem hf)) (hfunctions f hf).1 (hfunctions f hf).2
  have hread' : (l.structs.map ForeignStruct.toJson).mapM (ForeignStruct.decode layout k)
      = some l.structs :=
    Json.mapM_map_eq_some fun s hs => ForeignStruct.decode_toJson s
      (hstructItems s.toJson (List.mem_map_of_mem hs)) (hstructs s hs)
  simp [LibraryDecl.decode, LibraryDecl.toJson, Json.text?, LibraryDecl.decodeFunctions,
    LibraryDecl.decodeStructs, hread, hread']

end Declarations

/-! ## Expressions -/

theorem Expr.toJsonList_eq (es : List Expr) : Expr.toJsonList es = es.map Expr.toJson := by
  induction es with
  | nil => rfl
  | cons e es ih => rw [Expr.toJsonList, List.map_cons, ih]

theorem Param.toJsonList_eq (ps : List Param) : Param.toJsonList ps = ps.map Param.toJson := by
  induction ps with
  | nil => rfl
  | cons p ps ih => rw [Param.toJsonList, List.map_cons, ih]

theorem Expr.toJson_ne_null (e : Expr) : e.toJson ≠ .null := by
  cases e
  simp [Expr.toJson]

section Expressions

variable {layout : Layout}

/-- A form with one part is read back if the part is. -/
theorem decode_tagged {α : Type} {read : Nat → Json → Option α} {f : α → Form} {a : α}
    {tag : String} {j : Json} {n : Nat} (h : (Json.tagged tag j).depth ≤ n)
    (hread : ∀ m, Form.decode layout (m + 1) (.tagged tag j) = (read m j).map f)
    (hpart : ∀ m, j.depth ≤ m → read m j = some a) :
    Form.decode layout n (.tagged tag j) = some (f a) := by
  obtain ⟨m, rfl, hcontents⟩ := exists_level_of_tagged h
  rw [hread, hpart m hcontents, Option.map_some]

mutual

theorem Expr.decode_toJson : (e : Expr) → {n : Nat} → e.toJson.depth ≤ n → words.Holds e →
    Expr.decode layout n e.toJson = some e
  | ⟨form, span⟩, n, h, hw => by
    obtain ⟨m, rfl, dform, dspan⟩ := exists_level_of_obj h
    simp [Expr.decode, Expr.toJson, Form.decode_toJson form dform (holds_form.1 hw),
      Span.decode_toJson span dspan]

theorem Expr.decodeList_toJsonList : (es : List Expr) → {n : Nat} →
    (Json.arr (Expr.toJsonList es)).depth ≤ n → words.Holds es →
    Expr.decodeList layout n (.arr (Expr.toJsonList es)) = some es
  | es, n, h, hw => by
    obtain ⟨m, rfl, hitems⟩ := exists_level_of_arr h
    rw [Expr.toJsonList_eq] at hitems ⊢
    exact Json.mapM_map_eq_some fun e he =>
      Expr.decode_toJson e (hitems e.toJson (List.mem_map_of_mem he)) (hw e he)

theorem Expr.nullable_toJsonOption : (e : Option Expr) → {n : Nat} →
    (Expr.toJsonOption e).depth ≤ n → words.Holds e →
    Json.nullable (Expr.decode layout n) (Expr.toJsonOption e) = some e
  | none, _, _, _ => rfl
  | some e, n, h, hw => by
    refine Json.nullable_ofOption (o := some e) Expr.toJson_ne_null fun e' he' => ?_
    cases he'
    exact Expr.decode_toJson e h (hw e rfl)

theorem Form.decode_toJson : (form : Form) → {n : Nat} → form.toJson.depth ≤ n →
    words.Holds form → Form.decode layout n form.toJson = some form
  | .nil, n, _, _ | .selfRef, n, _, _ => by
    cases n with
    | zero | succ => rfl
  | .bool value, n, h, _ => by
    obtain ⟨m, rfl, -⟩ := exists_level_of_tagged h
    rfl
  | .int value, n, h, _ => by
    obtain ⟨m, rfl, -⟩ := exists_level_of_tagged h
    exact congrArg (Option.map Form.int) (Json.int64?_toInt value)
  | .char value, n, h, _ => by
    obtain ⟨m, rfl, -⟩ := exists_level_of_tagged h
    exact congrArg (Option.map Form.char) (Json.char?_singleton value)
  | .str _, n, h, _ | .symbol _, n, h, _ | .var _, n, h, _ | .out _, n, h, _ => by
    obtain ⟨m, rfl, -⟩ := exists_level_of_tagged h
    rfl
  | .array items, n, h, hw | .yield items, n, h, hw | .seq items, n, h, hw =>
    decode_tagged h (fun _ => rfl) fun _ d => Expr.decodeList_toJsonList items d (holds_parts.1 hw)
  | .assign target value, n, h, hw => by
    obtain ⟨m, rfl, hcontents⟩ := exists_level_of_tagged h
    obtain ⟨k, rfl, -, dvalue⟩ := exists_level_of_obj hcontents
    change Form.decodeAssign layout (k + 1)
      (.obj [("target", .text target), ("value", value.toJson)]) = _
    simp [Form.decodeAssign, Json.text?, Expr.decode_toJson value dvalue (holds_parts.1 hw)]
  | .path type, n, h, hw | .primitive type, n, h, hw =>
    decode_tagged h (fun _ => rfl) fun _ d => TypeExpr.decode_toJson type d (holds_parts.1 hw)
  | .call call, n, h, hw => decode_tagged h (fun _ => rfl) fun _ d =>
    Call.decode_toJson call d (holds_parts.1 hw)
  | .branch test yes no, n, h, hw => by
    obtain ⟨m, rfl, hcontents⟩ := exists_level_of_tagged h
    obtain ⟨k, rfl, dtest, dyes, dno⟩ := exists_level_of_obj hcontents
    obtain ⟨htest, hyes, hno⟩ := holds_parts.1 hw
    change Form.decodeBranch layout (k + 1)
      (.obj [("cond", test.toJson), ("then", yes.toJson), ("otherwise", no.toJson)]) = _
    simp [Form.decodeBranch, Expr.decode_toJson test dtest htest, Expr.decode_toJson yes dyes hyes,
      Expr.decode_toJson no dno hno]
  | .method decl, n, h, hw => decode_tagged h (fun _ => rfl) fun _ d =>
    MethodDecl.decode_toJson decl d (holds_parts.1 hw)
  | .classDecl decl, n, h, hw => decode_tagged h (fun _ => rfl) fun _ d =>
    ClassDecl.decode_toJson decl d (holds_parts.1 hw)
  | .library decl, n, h, hw => decode_tagged h (fun _ => rfl) fun _ d =>
    LibraryDecl.decode_toJson decl d (holds_parts.1 hw)
  | .allocate type, n, h, hw => decode_tagged h (fun _ => rfl) fun _ d =>
    TypeExpr.nullable_ofOption type d (holds_parts.1 hw)
  | .function params body, n, h, hw => by
    obtain ⟨m, rfl, hcontents⟩ := exists_level_of_tagged h
    obtain ⟨k, rfl, dparams, dbody⟩ := exists_level_of_obj hcontents
    obtain ⟨hparams, hbody⟩ := holds_parts.1 hw
    change Form.decodeFunction layout (k + 1)
      (.obj [("params", .arr (Param.toJsonList params)), ("body", body.toJson)]) = _
    simp [Form.decodeFunction, Param.decodeList_toJsonList params dparams hparams,
      Expr.decode_toJson body dbody hbody]
  | .classOf value, n, h, hw => decode_tagged h (fun _ => rfl) fun _ d =>
    Expr.decode_toJson value d (holds_parts.1 hw)

theorem Call.decode_toJson : (call : Call) → {n : Nat} → call.toJson.depth ≤ n →
    words.Holds call → Call.decode layout n call.toJson = some call
  | ⟨receiver, name, args, block, blockArg, hasParens⟩, n, h, hw => by
    obtain ⟨m, rfl, dreceiver, -, dargs, dblock, dblockArg, -⟩ := exists_level_of_obj h
    obtain ⟨hreceiver, hargs, hblock, hblockArg⟩ := holds_call.1 hw
    simp [Call.decode, Call.toJson, Json.text?, Json.bool?,
      Expr.nullable_toJsonOption receiver dreceiver hreceiver,
      Expr.decodeList_toJsonList args dargs hargs, Block.nullable_toJsonOption block dblock hblock,
      Expr.nullable_toJsonOption blockArg dblockArg hblockArg]

theorem Block.nullable_toJsonOption : (block : Option Block) → {n : Nat} →
    (Block.toJsonOption block).depth ≤ n → words.Holds block →
    Json.nullable (Block.decode layout n) (Block.toJsonOption block) = some block
  | none, _, _, _ => rfl
  | some ⟨params, body⟩, n, h, hw => by
    obtain ⟨m, rfl, dparams, dbody⟩ := exists_level_of_obj h
    have hread : Block.decode layout (m + 1)
        (.obj [("args", .ofNames params), ("body", Expr.toJsonOption body)])
          = some ⟨params, body⟩ := by
      simp [Block.decode, Json.names?_ofNames params dparams,
        Expr.nullable_toJsonOption body dbody (holds_block.1 (hw _ rfl))]
    exact congrArg (Option.map some) hread

theorem Param.decode_toJson : (param : Param) → {n : Nat} → param.toJson.depth ≤ n →
    words.Holds param → Param.decode layout n param.toJson = some param
  | ⟨name, default, restriction⟩, n, h, hw => by
    obtain ⟨m, rfl, -, ddefault, drestriction⟩ := exists_level_of_obj h
    obtain ⟨hdefault, hrestriction⟩ := holds_param.1 hw
    simp [Param.decode, Param.toJson, Json.text?,
      Expr.nullable_toJsonOption default ddefault hdefault,
      TypeExpr.nullable_ofOption restriction drestriction hrestriction]

theorem Param.decodeList_toJsonList : (params : List Param) → {n : Nat} →
    (Json.arr (Param.toJsonList params)).depth ≤ n → words.Holds params →
    Param.decodeList layout n (.arr (Param.toJsonList params)) = some params
  | params, n, h, hw => by
    obtain ⟨m, rfl, hitems⟩ := exists_level_of_arr h
    rw [Param.toJsonList_eq] at hitems ⊢
    exact Json.mapM_map_eq_some fun param hparam =>
      Param.decode_toJson param (hitems param.toJson (List.mem_map_of_mem hparam)) (hw param hparam)

theorem MethodDecl.decode_toJson : (method : MethodDecl) → {n : Nat} → method.toJson.depth ≤ n →
    words.Holds method → MethodDecl.decode layout n method.toJson = some method
  | ⟨name, params, body, blockParam, onSelf, span⟩, n, h, hw => by
    obtain ⟨m, rfl, -, dparams, dbody, dblockParam, -, dspan⟩ := exists_level_of_obj h
    obtain ⟨hparams, hbody, hblockParam⟩ := holds_method.1 hw
    have hread : Json.nullable (BlockParam.decode layout m)
        (.ofOption (blockParam.map BlockParam.toJson)) = some blockParam := by
      refine Json.nullable_ofOption (by simp [BlockParam.toJson]) fun block hblock => ?_
      have hsome : blockParam = some block := hblock
      rw [hsome] at dblockParam
      exact BlockParam.decode_toJson block dblockParam (hblockParam block hblock)
    simp [MethodDecl.decode, MethodDecl.toJson, Json.text?, Json.bool?, hread,
      Param.decodeList_toJsonList params dparams hparams,
        Expr.nullable_toJsonOption body dbody hbody,
      Span.decode_toJson span dspan]

theorem ClassDecl.decode_toJson : (cls : ClassDecl) → {n : Nat} → cls.toJson.depth ≤ n →
    words.Holds cls → ClassDecl.decode layout n cls.toJson = some cls
  | ⟨name, superclass, isAbstract, typeVars, body⟩, n, h, hw => by
    obtain ⟨m, rfl, -, dsuperclass, -, dtypeVars, dbody⟩ := exists_level_of_obj h
    obtain ⟨hsuperclass, hbody⟩ := holds_class.1 hw
    simp [ClassDecl.decode, ClassDecl.toJson, Json.text?, Json.bool?,
      TypeExpr.nullable_ofOption superclass dsuperclass hsuperclass,
      Json.names?_ofNames typeVars dtypeVars, Expr.decodeList_toJsonList body dbody hbody]

end

end Expressions

/-! ## Programs -/

namespace Program

theorem decode_toJson {layout : Layout} {n : Nat} (hdepth : program.toJson.depth ≤ n)
    (hmentions : words.Holds program.mentions) :
    decode layout n program.toJson = some program := by
  obtain ⟨m, rfl, dexprs, -⟩ := exists_level_of_obj hdepth
  have hsource : Json.nullable Json.text? (.ofOption (program.source.map .text))
      = some program.source := Json.nullable_ofOption nofun fun _ _ => rfl
  simp [decode, toJson, hsource,
    Expr.decodeList_toJsonList program.exprs dexprs (holds_exprs.1 hmentions)]

theorem holds_mentions_of_ofJson? {j : Json} (h : ofJson? j = some program) :
    words.Holds program.mentions := holds_mentions_of_decode h

/-- A program is read back from what it is written as just when the types that it mentions are
numbered by words of 32 bits; then it is read back in either layout, to any depth that reaches the
bottom of it.  What is decoded, from any JSON value, is such a program. -/
theorem ofJson?_toJson_round_trip :
    (∀ program : Program,
      ofJson? program.toJson = some program ↔ ∀ type ∈ program.mentions, type.index < UInt32.size) ∧
    (∀ (layout : Layout) (n : Nat) (program : Program), program.toJson.depth ≤ n →
      (∀ type ∈ program.mentions, type.index < UInt32.size) →
      decode layout n program.toJson = some program) ∧
    ∀ (layout : Layout) (n : Nat) (j : Json),
      ((decode layout n j).bind fun program => ofJson? program.toJson) = decode layout n j := by
  refine ⟨fun program => ⟨holds_mentions_of_ofJson?, decode_toJson (Nat.le_refl _)⟩,
    fun layout n program => decode_toJson, fun layout n j => ?_⟩
  cases hread : decode layout n j with
  | none => rfl
  | some program => exact decode_toJson (Nat.le_refl _) (holds_mentions_of_decode hread)

/-- An assignment of a call with a block, on a value of the type of the given number. -/
def sizedBy (index : Nat) : Program :=
  ⟨[ .generated (.assign "x" (.generated (.call
      { receiver := some (.generated (.allocate (some (.resolved ⟨index⟩))))
        name := "each"
        args := [.generated (.int (-1))]
        block := some ⟨["y"], some (.generated .nil)⟩
        blockArg := none
        hasParens := true }))) ], some "main"⟩

theorem ofJson?_toJson_round_trip_sizedBy :
    ofJson? (sizedBy 13).toJson = some (sizedBy 13) ∧
      ofJson? (sizedBy 4294967296).toJson ≠ some (sizedBy 4294967296) ∧
      decode ⟨true⟩ Json.textLevels (sizedBy 13).toJson = some (sizedBy 13) :=
  ⟨(ofJson?_toJson_round_trip.1 _).2 (by decide),
    fun h => absurd ((ofJson?_toJson_round_trip.1 _).1 h) (by decide),
    ofJson?_toJson_round_trip.2.1 _ _ _ (by decide) (by decide)⟩

end Program

end Callsite
