import Callsite.Program.Yield
import Mathlib.Logic.Relation
import Mathlib.Order.Bounds.Basic

/-!
# Which yields count

The yields of an expression are the `yield`s that stand in it at any depth, outside of nested
methods, classes, libraries and function literals.  The scan finds the largest of them, but it
passes over the functions that are passed with `&`.
-/

namespace Callsite

/-- The expressions directly in a call.  A function passed with `&` is one of them just if the
flag is set. -/
def Call.parts (amp : Bool) (call : Call) : List Expr :=
  call.receiver.toList ++ call.args ++ (call.block.bind (·.body)).toList
    ++ if amp then call.blockArg.toList else []

/-- The expressions directly in an expression that yield to the same block. -/
def Form.parts (amp : Bool) : Form → List Expr
  | .yield args => args
  | .array items | .seq items => items
  | .assign _ value | .classOf value => [value]
  | .call c => c.parts amp
  | .branch test yes no => [test, yes, no]
  | _ => []

namespace Expr

/-- An expression stands somewhere in another one, or is that one. -/
abbrev Within (amp : Bool) : Expr → Expr → Prop :=
  Relation.ReflTransGen fun part e => part ∈ e.form.parts amp

/-- A `yield` of `n` values stands somewhere in an expression. -/
def Yields (amp : Bool) (e : Expr) (n : Nat) : Prop :=
  ∃ args span, Within amp ⟨.yield args, span⟩ e ∧ args.length = n

variable {amp : Bool} {e part : Expr} {es : List Expr} {n : Nat}

/-! ## What the scan finds -/

theorem mem_yieldAritiesOf : n ∈ yieldAritiesOf es ↔ ∃ e ∈ es, n ∈ e.yieldArities := by
  induction es with
  | nil => simp [yieldAritiesOf]
  | cons e es ih => simp [yieldAritiesOf, ih]

theorem mem_yieldAritiesOf? {e? : Option Expr} :
    n ∈ yieldAritiesOf? e? ↔ ∃ e ∈ e?.toList, n ∈ e.yieldArities := by
  cases e? <;> simp [yieldAritiesOf?]

theorem mem_yieldAritiesOf?_block {block : Option Block} : n ∈ Block.yieldAritiesOf? block ↔
    ∃ e ∈ (block.bind (·.body)).toList, n ∈ e.yieldArities := by
  rcases block with _ | ⟨params, body⟩
  · simp [Block.yieldAritiesOf?]
  · simp [Block.yieldAritiesOf?, mem_yieldAritiesOf?]

/-- The scan finds the expression itself, if it is a `yield`, and what it finds in the parts. -/
theorem mem_yieldArities_iff : n ∈ e.yieldArities ↔
    (∃ args span, e = ⟨.yield args, span⟩ ∧ args.length = n) ∨
      ∃ part ∈ e.form.parts false, n ∈ part.yieldArities := by
  obtain ⟨form, span⟩ := e
  cases form with
  | call call =>
    obtain ⟨receiver, name, args, block, blockArg, hasParens⟩ := call
    simp [yieldArities, Form.yieldArities, Call.yieldArities, Form.parts, Call.parts, or_and_right,
      exists_or, mem_yieldAritiesOf, mem_yieldAritiesOf?, mem_yieldAritiesOf?_block]
  | yield args =>
    simp [yieldArities, Form.yieldArities, Form.parts, mem_yieldAritiesOf, eq_comm]
  | _ => simp [yieldArities, Form.yieldArities, Form.parts, mem_yieldAritiesOf]

theorem sizeOf_lt_of_mem_parts (h : part ∈ e.form.parts amp) : sizeOf part < sizeOf e := by
  obtain ⟨form, span⟩ := e
  cases form with
  | yield items | array items | seq items =>
    have hlt : sizeOf part < sizeOf items := List.sizeOf_lt_of_mem h
    simp
    omega
  | assign target value | classOf value =>
    obtain rfl := List.mem_singleton.1 h
    simp
    omega
  | branch test yes no =>
    simp [Form.parts] at h
    grind
  | call call =>
    obtain ⟨receiver, name, args, block, blockArg, hasParens⟩ := call
    simp only [Form.parts, Call.parts, List.mem_append, Option.mem_toList] at h
    rcases h with ((h | h) | h) | h
    · cases h
      simp
      omega
    · have hlt := List.sizeOf_lt_of_mem h
      simp
      omega
    · obtain ⟨⟨params, body⟩, rfl, rfl⟩ := Option.bind_eq_some_iff.1 h
      simp
      omega
    · cases amp
      · cases h
      · cases Option.mem_toList.1 h
        simp
        omega
  | _ => cases h

theorem mem_yieldArities : n ∈ e.yieldArities ↔ e.Yields false n := by
  constructor
  · intro h
    induction hsize : sizeOf e using Nat.strong_induction_on generalizing e with
    | _ size ih =>
      rcases mem_yieldArities_iff.1 h with ⟨args, span, rfl, hlength⟩ | ⟨part, hpart, hmem⟩
      · exact ⟨args, span, .refl, hlength⟩
      · obtain ⟨args, span, hwithin, hlength⟩ :=
          ih _ (hsize ▸ sizeOf_lt_of_mem_parts hpart) hmem rfl
        exact ⟨args, span, hwithin.tail hpart, hlength⟩
  · rintro ⟨args, span, hwithin, hlength⟩
    induction hwithin with
    | refl => exact mem_yieldArities_iff.2 (.inl ⟨args, span, rfl, hlength⟩)
    | tail _ hpart ih => exact mem_yieldArities_iff.2 (.inr ⟨_, hpart, ih⟩)

/-! ## What it passes over -/

theorem mem_parts_true : part ∈ e.form.parts true ↔ part ∈ e.form.parts false ∨
    ∃ call span, e = ⟨.call call, span⟩ ∧ call.blockArg = some part := by
  obtain ⟨form, span⟩ := e
  cases form with
  | call call => simp [Form.parts, Call.parts, or_assoc]
  | _ => simp [Form.parts]

theorem Within.all (h : part.Within false e) : part.Within true e :=
  Relation.ReflTransGen.mono (fun _ _ hpart => mem_parts_true.2 (.inl hpart)) _ _ h

/-- A `yield` that the scan does not find stands in a function passed with `&`. -/
theorem yields_all_iff : e.Yields true n ↔ e.Yields false n ∨
    ∃ call span fn, Within false ⟨.call call, span⟩ e ∧ call.blockArg = some fn ∧
      fn.Yields true n := by
  constructor
  · rintro ⟨args, span, hwithin, hlength⟩
    induction hwithin with
    | refl => exact .inl ⟨args, span, .refl, hlength⟩
    | @tail part e hwithin hpart ih =>
      rcases mem_parts_true.1 hpart with hscanned | ⟨call, span', rfl, hpassed⟩
      · rcases ih with ⟨args, span, hyield, hlength⟩ | ⟨call, span, fn, hcall, hrest⟩
        · exact .inl ⟨args, span, hyield.tail hscanned, hlength⟩
        · exact .inr ⟨call, span, fn, hcall.tail hscanned, hrest⟩
      · exact .inr ⟨call, span', part, .refl, hpassed, args, span, hwithin, hlength⟩
  · rintro (⟨args, span, hyield, hlength⟩ | ⟨call, span, fn, hcall, hpassed, hyields⟩)
    · exact ⟨args, span, hyield.all, hlength⟩
    · obtain ⟨args, span', hyield, hlength⟩ := hyields
      have hfn : fn ∈ (⟨.call call, span⟩ : Expr).form.parts true :=
        mem_parts_true.2 (.inr ⟨call, span, rfl, hpassed⟩)
      exact ⟨args, span', (hyield.tail hfn).trans hcall.all, hlength⟩

/-- The scan finds the largest number of values that are yielded at once outside of what is
passed with `&`. -/
theorem maxYield_isGreatest (e : Expr) :
    (∀ n, e.maxYield = some n ↔ IsGreatest {n | e.Yields false n} n) ∧
      (e.maxYield = none ↔ ¬ ∃ n, e.Yields false n) ∧
      ∀ n, e.Yields true n ↔ e.Yields false n ∨
        ∃ call span fn, Within false ⟨.call call, span⟩ e ∧ call.blockArg = some fn ∧
          fn.Yields true n := by
  refine ⟨fun n => ?_, ?_, fun n => yields_all_iff⟩
  · simp only [maxYield, List.max?_eq_some_iff, mem_yieldArities]
    rfl
  · simp only [maxYield, List.max?_eq_none_iff, List.eq_nil_iff_forall_not_mem, mem_yieldArities,
      not_exists]

/-- The call `foo(&(yield 1))`. -/
def passedYield : Expr :=
  .generated (.call
    { Call.plain none "foo" [] with
      blockArg := some (.generated (.yield [.generated (.int 1)])) })

theorem maxYield_passes_over_passedYield :
    passedYield.Yields true 1 ∧ passedYield.maxYield = none := by
  refine ⟨⟨[.generated (.int 1)], .absent, .single ?_, rfl⟩, rfl⟩
  exact mem_parts_true.2 (.inr ⟨_, _, rfl, rfl⟩)

end Expr

end Callsite
