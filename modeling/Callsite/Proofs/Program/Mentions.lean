import Callsite.Program.Decoding
import Callsite.Proofs.Range.Programs

/-!
# What decoded programs mention

The number of a type is decoded as a word of 32 bits, and nothing else in a program is a number
of a type: whatever is decoded, from whichever layout and to whichever depth, mentions only types
that such words can number.
-/

namespace Callsite

open Json (Layout)

variable {α β : Type} {j : Json} {z : Sizes}

/-- As many types as a word of 32 bits can number. -/
def Sizes.words : Sizes := ⟨UInt32.size, 0, 0, 0, 0, 0⟩

/-! ## Fields and items -/

namespace Json

theorem mem_bind {o : Option α} {f : α → Option β} {b : β} : b ∈ o >>= f ↔ ∃ a, a ∈ o ∧ b ∈ f a :=
  Option.bind_eq_some_iff

theorem mem_pure {a b : α} : b ∈ (pure a : Option α) ↔ a = b :=
  Option.some_inj

variable {α : Type} {P : α → Prop} {decode : Json → Option α}

theorem forall_mem_nullable (h : ∀ j, ∀ a ∈ decode j, P a) :
    ∀ o ∈ nullable decode j, ∀ a ∈ o, P a := by
  intro o ho a ha
  cases j with
  | null =>
    cases ho
    cases ha
  | _ =>
    obtain ⟨b, hb, rfl⟩ := Option.map_eq_some_iff.1 ho
    obtain rfl := Option.some.inj ha
    exact h _ b hb

theorem forall_mem_mapM (h : ∀ j, ∀ a ∈ decode j, P a) {items : List Json} :
    ∀ l ∈ items.mapM decode, ∀ a ∈ l, P a := by
  induction items with
  | nil =>
    intro l hl
    cases hl
    simp
  | cons j items ih =>
    intro l hl
    simp only [List.mapM_cons, mem_bind, mem_pure] at hl
    obtain ⟨a, ha, rest, hrest, rfl⟩ := hl
    exact List.forall_mem_cons.2 ⟨h j a ha, ih rest hrest⟩

namespace Record

variable {r : Record} {name : String}

variable (h : ∀ j, ∀ a ∈ decode j, P a)
include h

theorem forall_mem_required : ∀ a ∈ r.required name decode, P a := by
  intro a ha
  obtain ⟨j, -, hj⟩ := Option.bind_eq_some_iff.1 ha
  exact h j a hj

theorem forall_mem_optional : ∀ o ∈ r.optional name decode, ∀ a ∈ o, P a := by
  intro o ho
  rw [optional] at ho
  split at ho
  · exact forall_mem_nullable h o ho
  · split at ho
    · cases ho
    · cases ho
      exact fun a ha => absurd ha (Option.not_mem_none a)

theorem forall_mem_defaulted {default : α} (hdefault : P default) :
    ∀ a ∈ r.defaulted name decode default, P a := by
  intro a ha
  rw [defaulted] at ha
  split at ha
  · exact h _ a ha
  · cases ha
    exact hdefault

end Record

end Json

theorem Sizes.holds_map [Ranged β] {o : Option α} {f : α → β} (h : ∀ a ∈ o, z.Holds (f a)) :
    z.Holds (o.map f) := by
  intro b hb
  obtain ⟨a, ha, rfl⟩ := Option.map_eq_some_iff.1 hb
  exact h a ha

theorem Sizes.holds_unit? [Ranged α] {a : α} (h : z.Holds a) (j : Json) :
    z.Holds (Json.unit? a j) := by
  cases j with
  | null => exact holds_some.2 h
  | _ => exact holds_none

open Json.Record Sizes
open Json (mem_bind mem_pure)

/-! ## Type expressions -/

section Decoders

variable {layout : Layout}

theorem TypeId.holds_decode (n : Nat) (j : Json) : words.Holds (TypeId.decode n j) := by
  intro type htype
  cases n with
  | zero => cases htype
  | succ n =>
    simp only [TypeId.decode, mem_bind, mem_pure] at htype
    obtain ⟨r, -, index, hindex, rfl⟩ := htype
    refine forall_mem_required (P := fun i => i < UInt32.size) (fun j i hi => ?_) index hindex
    simp only [Json.natBelow?, mem_bind, Option.mem_ite_none_right, Option.mem_some,
      Bool.and_eq_true, decide_eq_true_eq] at hi
    omega

namespace TypeExpr

theorem holds_decodePath (n : Nat) (j : Json) : words.Holds (decodePath layout n j) := by
  intro e he
  cases n with
  | zero => cases he
  | succ n =>
    simp only [decodePath, mem_bind, mem_pure] at he
    obtain ⟨r, -, names, -, global, -, rfl⟩ := he
    exact holds_path names global

mutual

theorem holds_decode : (n : Nat) → (j : Json) → words.Holds (decode layout n j)
  | 0, j => by
    rw [decode.eq_def]
    split
    · exact holds_some.2 holds_selfType
    · contradiction
    · exact holds_none
  | n + 1, j => by
    rw [decode.eq_def]
    split
    · exact holds_some.2 holds_selfType
    · next m tag contents hlevel =>
      obtain rfl := Nat.succ.inj hlevel
      split
      · exact holds_decodePath n contents
      · exact holds_decodeGeneric n contents
      · exact holds_decodeFunction n contents
      · exact holds_unit? holds_selfType contents
      · exact holds_map
          fun type htype => holds_resolved.2 (TypeId.holds_decode n contents type htype)
      · exact holds_none
    · exact holds_none

theorem holds_decodeGeneric : (n : Nat) → (j : Json) → words.Holds (decodeGeneric layout n j)
  | 0, j => holds_none
  | n + 1, j => by
    intro e he
    simp only [decodeGeneric, mem_bind, mem_pure] at he
    obtain ⟨r, -, head, hhead, args, hargs, rfl⟩ := he
    exact holds_generic.2 ⟨forall_mem_required (holds_decode n) head hhead,
      forall_mem_required (holds_decodeList n) args hargs⟩

theorem holds_decodeFunction : (n : Nat) → (j : Json) → words.Holds (decodeFunction layout n j)
  | 0, j => holds_none
  | n + 1, j => by
    intro e he
    simp only [decodeFunction, mem_bind, mem_pure] at he
    obtain ⟨r, -, inputs, hinputs, output, houtput, rfl⟩ := he
    exact holds_function.2 ⟨forall_mem_required (holds_decodeList n) inputs hinputs,
      forall_mem_optional (holds_decode n) output houtput⟩

theorem holds_decodeList : (n : Nat) → (j : Json) → words.Holds (decodeList layout n j)
  | 0, j => by
    rw [decodeList]
    · exact holds_none
    · nofun
  | n + 1, j => by
    rw [decodeList.eq_def]
    split
    · next m items hlevel =>
      obtain rfl := Nat.succ.inj hlevel
      exact Json.forall_mem_mapM (holds_decode n)
    · exact holds_none

end

theorem holds_decodePairs (n : Nat) (j : Json) : words.Holds (decodePairs layout n j) := by
  cases n with
  | zero => exact holds_none
  | succ n =>
    rw [decodePairs.eq_def]
    split
    · next m items hlevel =>
      refine Json.forall_mem_mapM fun j pair hpair => ?_
      rw [decodePair.eq_def] at hpair
      split at hpair
      · simp only [mem_bind, mem_pure] at hpair
        obtain ⟨name, -, type, htype, rfl⟩ := hpair
        exact holds_pair.2 ⟨holds_string name, holds_decode _ _ type htype⟩
      · cases hpair
    · exact holds_none

end TypeExpr

/-! ## Declarations -/

section

variable (n : Nat) (j : Json)

theorem BlockParam.holds_decode : words.Holds (BlockParam.decode layout n j) := by
  intro b hb
  cases n with
  | zero => cases hb
  | succ n =>
    simp only [BlockParam.decode, mem_bind, mem_pure] at hb
    obtain ⟨r, -, name, -, inputs, hinputs, output, houtput, rfl⟩ := hb
    have hheld := forall_mem_optional (TypeExpr.holds_decodeList n) inputs hinputs
    refine holds_blockParam.2 ⟨?_, forall_mem_optional (TypeExpr.holds_decode n) output houtput⟩
    cases inputs with
    | none => exact holds_nil
    | some types => exact hheld types rfl

theorem ForeignFunction.holds_decode :
    ∀ f ∈ ForeignFunction.decode layout n j, words.Holds f.params ∧ words.Holds f.result := by
  intro f hf
  cases n with
  | zero => cases hf
  | succ n =>
    simp only [ForeignFunction.decode, mem_bind, mem_pure] at hf
    obtain ⟨r, -, name, -, params, hparams, result, hresult, variadic, -, rfl⟩ := hf
    exact ⟨forall_mem_required (TypeExpr.holds_decodePairs n) params hparams,
      forall_mem_optional (TypeExpr.holds_decode n) result hresult⟩

theorem ForeignStruct.holds_decode :
    ∀ s ∈ ForeignStruct.decode layout n j, words.Holds s.fields := by
  intro s hs
  cases n with
  | zero => cases hs
  | succ n =>
    simp only [ForeignStruct.decode, mem_bind, mem_pure] at hs
    obtain ⟨r, -, name, -, fields, hfields, rfl⟩ := hs
    exact forall_mem_required (TypeExpr.holds_decodePairs n) fields hfields

theorem LibraryDecl.forall_mem_decodeFunctions :
    ∀ l ∈ LibraryDecl.decodeFunctions layout n j, ∀ f ∈ l,
      words.Holds f.params ∧ words.Holds f.result := by
  rw [LibraryDecl.decodeFunctions.eq_def]
  split
  · exact Json.forall_mem_mapM (ForeignFunction.holds_decode _)
  · exact fun l hl => absurd hl (Option.not_mem_none l)

theorem LibraryDecl.forall_mem_decodeStructs :
    ∀ l ∈ LibraryDecl.decodeStructs layout n j, ∀ s ∈ l, words.Holds s.fields := by
  rw [LibraryDecl.decodeStructs.eq_def]
  split
  · exact Json.forall_mem_mapM (ForeignStruct.holds_decode _)
  · exact fun l hl => absurd hl (Option.not_mem_none l)

theorem LibraryDecl.holds_decode : words.Holds (LibraryDecl.decode layout n j) := by
  intro d hd
  cases n with
  | zero => cases hd
  | succ n =>
    simp only [LibraryDecl.decode, mem_bind, mem_pure] at hd
    obtain ⟨r, -, name, -, functions, hfunctions, structs, hstructs, rfl⟩ := hd
    exact holds_library.2 ⟨forall_mem_required (forall_mem_decodeFunctions n) functions hfunctions,
      forall_mem_defaulted (forall_mem_decodeStructs n) (List.forall_mem_nil _) structs hstructs⟩

end

/-! ## Expressions -/

mutual

theorem Expr.holds_decode : (n : Nat) → (j : Json) → words.Holds (Expr.decode layout n j)
  | 0, j => holds_none
  | n + 1, j => by
    intro e he
    simp only [Expr.decode, mem_bind, mem_pure] at he
    obtain ⟨r, -, form, hform, span, -, rfl⟩ := he
    exact holds_form.2 (forall_mem_required (Form.holds_decode n) form hform)

theorem Expr.holds_decodeList : (n : Nat) → (j : Json) → words.Holds (Expr.decodeList layout n j)
  | 0, j => by
    rw [Expr.decodeList]
    · exact holds_none
    · nofun
  | n + 1, j => by
    rw [Expr.decodeList.eq_def]
    split
    · next m items hlevel =>
      obtain rfl := Nat.succ.inj hlevel
      exact Json.forall_mem_mapM (Expr.holds_decode n)
    · exact holds_none

theorem Form.holds_decode : (n : Nat) → (j : Json) → words.Holds (Form.decode layout n j)
  | 0, j => by
    rw [Form.decode.eq_def]
    split
    · exact holds_some.2 (holds_parts.2 trivial)
    · exact holds_some.2 (holds_parts.2 trivial)
    · contradiction
    · exact holds_none
  | n + 1, j => by
    rw [Form.decode.eq_def]
    split
    · exact holds_some.2 (holds_parts.2 trivial)
    · exact holds_some.2 (holds_parts.2 trivial)
    · next m tag contents hlevel =>
      obtain rfl := Nat.succ.inj hlevel
      -- Most forms without parts are read from one word.
      split <;> try exact holds_map fun _ _ => holds_parts.2 trivial
      · exact holds_unit? (holds_parts.2 trivial) contents
      · exact holds_map fun items h => holds_parts.2 (Expr.holds_decodeList n contents items h)
      · exact holds_unit? (holds_parts.2 trivial) contents
      · exact Form.holds_decodeAssign n contents
      · exact holds_map fun type h => holds_parts.2 (TypeExpr.holds_decode n contents type h)
      · exact holds_map fun call h => holds_parts.2 (Call.holds_decode n contents call h)
      · exact holds_map fun args h => holds_parts.2 (Expr.holds_decodeList n contents args h)
      · exact holds_map fun items h => holds_parts.2 (Expr.holds_decodeList n contents items h)
      · exact Form.holds_decodeBranch n contents
      · exact holds_map fun decl h => holds_parts.2 (MethodDecl.holds_decode n contents decl h)
      · exact holds_map fun decl h => holds_parts.2 (ClassDecl.holds_decode n contents decl h)
      · exact holds_map fun decl h => holds_parts.2 (LibraryDecl.holds_decode n contents decl h)
      · exact holds_map fun type h => holds_parts.2 (TypeExpr.holds_decode n contents type h)
      · exact holds_map fun type h =>
          holds_parts.2 (Json.forall_mem_nullable (TypeExpr.holds_decode n) type h)
      · exact Form.holds_decodeFunction n contents
      · exact holds_map fun value h => holds_parts.2 (Expr.holds_decode n contents value h)
      · exact holds_none
    · exact holds_none

theorem Form.holds_decodeAssign : (n : Nat) → (j : Json) →
    words.Holds (Form.decodeAssign layout n j)
  | 0, j => holds_none
  | n + 1, j => by
    intro form hform
    simp only [Form.decodeAssign, mem_bind, mem_pure] at hform
    obtain ⟨r, -, target, -, value, hvalue, rfl⟩ := hform
    exact holds_parts.2 (forall_mem_required (Expr.holds_decode n) value hvalue)

theorem Form.holds_decodeBranch : (n : Nat) → (j : Json) →
    words.Holds (Form.decodeBranch layout n j)
  | 0, j => holds_none
  | n + 1, j => by
    intro form hform
    simp only [Form.decodeBranch, mem_bind, mem_pure] at hform
    obtain ⟨r, -, test, htest, yes, hyes, no, hno, rfl⟩ := hform
    have hexpr := Expr.holds_decode n
    exact holds_parts.2 ⟨forall_mem_required hexpr test htest, forall_mem_required hexpr yes hyes,
      forall_mem_required hexpr no hno⟩

theorem Form.holds_decodeFunction : (n : Nat) → (j : Json) →
    words.Holds (Form.decodeFunction layout n j)
  | 0, j => holds_none
  | n + 1, j => by
    intro form hform
    simp only [Form.decodeFunction, mem_bind, mem_pure] at hform
    obtain ⟨r, -, params, hparams, body, hbody, rfl⟩ := hform
    exact holds_parts.2 ⟨forall_mem_required (Param.holds_decodeList n) params hparams,
      forall_mem_required (Expr.holds_decode n) body hbody⟩

theorem Call.holds_decode : (n : Nat) → (j : Json) → words.Holds (Call.decode layout n j)
  | 0, j => holds_none
  | n + 1, j => by
    intro call hcall
    simp only [Call.decode, mem_bind, mem_pure] at hcall
    obtain ⟨r, -, receiver, hreceiver, name, -, args, hargs, block, hblock, blockArg, hblockArg,
      hasParens, -, rfl⟩ := hcall
    exact holds_call.2 ⟨forall_mem_optional (Expr.holds_decode n) receiver hreceiver,
      forall_mem_required (Expr.holds_decodeList n) args hargs,
      forall_mem_optional (Block.holds_decode n) block hblock,
      forall_mem_optional (Expr.holds_decode n) blockArg hblockArg⟩

theorem Block.holds_decode : (n : Nat) → (j : Json) → words.Holds (Block.decode layout n j)
  | 0, j => holds_none
  | n + 1, j => by
    intro block hblock
    simp only [Block.decode, mem_bind, mem_pure] at hblock
    obtain ⟨r, -, params, -, body, hbody, rfl⟩ := hblock
    exact holds_block.2 (forall_mem_optional (Expr.holds_decode n) body hbody)

theorem Param.holds_decode : (n : Nat) → (j : Json) → words.Holds (Param.decode layout n j)
  | 0, j => holds_none
  | n + 1, j => by
    intro param hparam
    simp only [Param.decode, mem_bind, mem_pure] at hparam
    obtain ⟨r, -, name, -, default, hdefault, restriction, hrestriction, rfl⟩ := hparam
    exact holds_param.2 ⟨forall_mem_optional (Expr.holds_decode n) default hdefault,
      forall_mem_optional (TypeExpr.holds_decode n) restriction hrestriction⟩

theorem Param.holds_decodeList : (n : Nat) → (j : Json) → words.Holds (Param.decodeList layout n j)
  | 0, j => by
    rw [Param.decodeList]
    · exact holds_none
    · nofun
  | n + 1, j => by
    rw [Param.decodeList.eq_def]
    split
    · next m items hlevel =>
      obtain rfl := Nat.succ.inj hlevel
      exact Json.forall_mem_mapM (Param.holds_decode n)
    · exact holds_none

theorem MethodDecl.holds_decode : (n : Nat) → (j : Json) →
    words.Holds (MethodDecl.decode layout n j)
  | 0, j => holds_none
  | n + 1, j => by
    intro method hmethod
    simp only [MethodDecl.decode, mem_bind, mem_pure] at hmethod
    obtain ⟨r, -, name, -, params, hparams, body, hbody, block, hblock, onSelf, -, span, -, rfl⟩ :=
      hmethod
    exact holds_method.2 ⟨forall_mem_required (Param.holds_decodeList n) params hparams,
      forall_mem_optional (Expr.holds_decode n) body hbody,
      forall_mem_optional (BlockParam.holds_decode n) block hblock⟩

theorem ClassDecl.holds_decode : (n : Nat) → (j : Json) →
    words.Holds (ClassDecl.decode layout n j)
  | 0, j => holds_none
  | n + 1, j => by
    intro cls hcls
    simp only [ClassDecl.decode, mem_bind, mem_pure] at hcls
    obtain ⟨r, -, name, -, superclass, hsuperclass, isAbstract, -, typeVars, -, body, hbody, rfl⟩ :=
      hcls
    exact holds_class.2 ⟨forall_mem_optional (TypeExpr.holds_decode n) superclass hsuperclass,
      forall_mem_required (Expr.holds_decodeList n) body hbody⟩

end

/-- A decoded program mentions only types that a word of 32 bits can number. -/
theorem Program.holds_mentions_of_decode {n : Nat} {program : Program}
    (h : Program.decode layout n j = some program) : words.Holds program.mentions := by
  cases n with
  | zero => cases h
  | succ n =>
    have hmem : program ∈ Program.decode layout (n + 1) j := h
    simp only [Program.decode, mem_bind, mem_pure] at hmem
    obtain ⟨r, -, exprs, hexprs, source, -, rfl⟩ := hmem
    exact holds_exprs.2 (forall_mem_required (Expr.holds_decodeList n) exprs hexprs)

end Decoders

end Callsite
