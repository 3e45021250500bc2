import Callsite.Proofs.Range.Types
import Callsite.Proofs.Types.Widening

/-!
# Names in later tables

Matching adds hierarchies and unions to the table, and denoting a type adds applied generics and
functions.  What the names of a method mean does not change with them.
-/

namespace Callsite.TypeTable

open Sizes

variable {t t' : TypeTable} {owner type : TypeId} {names : List String} {global : Bool}

/-- A later table without new classes and libraries, in which nothing has changed. -/
structure Preserves (t t' : TypeTable) : Prop where
  size_le : t.size ≤ t'.size
  shape_eq : ∀ type, t.Known type → t'.shape type = t.shape type
  shape_new : ∀ type, ¬ t.Known type →
    (∀ info, t'.shape type ≠ .cls info) ∧ ∀ info, t'.shape type ≠ .library info
  constants_eq : t'.constants = t.constants

theorem Widens.preserves (h : t.Widens t') : t.Preserves t' where
  size_le := h.size_le
  shape_eq := h.shape_eq
  shape_new := by
    intro type hnew
    rcases h.shape_cases type with hsame | ⟨-, ⟨base, hshape⟩ | ⟨members, hshape⟩⟩
    · simp [hsame, shape_of_not_known hnew]
    · simp [hshape]
    · simp [hshape]
  constants_eq := h.constants_eq

/-- A metaclass of a hierarchy has its hierarchy in the table. -/
def Backs (t : TypeTable) (owner : TypeId) : Prop :=
  ∀ base, t.shape owner = .hierarchyMetaclass base → ∃ whole, t.shape whole = .hierarchy base

theorem Founded.known_instanceType (hf : t.Founded) (hk : t.Known type) :
    t.Known (t.instanceType type) := by
  have hbelow := hf.below type hk
  rw [instanceType]
  cases hshape : t.shape type with
  | metaclass instances =>
    rw [hshape] at hbelow
    exact hbelow.trans hk
  | hierarchyMetaclass base =>
    dsimp only
    cases hfind : t.find? (.hierarchy base) with
    | none => exact hf.known_of_hierarchyMetaclass hshape
    | some whole => exact known_of_find? hfind
  | _ => exact hk

namespace Preserves

theorem lookupPath_eq (h : t.Preserves t') (scope : TypeId) (names : List String) (global : Bool) :
    t'.lookupPath scope names global = t.lookupPath scope names global := by
  have hconstant : t'.constant? = t.constant? := by
    funext name
    rw [constant?, constant?, h.constants_eq]
  by_cases hk : t.Known scope
  · simp only [lookupPath, hconstant, h.shape_eq scope hk]
  · obtain ⟨hcls, hlibrary⟩ := h.shape_new scope hk
    simp only [lookupPath, hconstant, shape_of_not_known hk]

variable (h : t.Preserves t') (hf : t.Founded)
include h hf

theorem typeVarsWithin_eq {depth depth' : Nat} (hk : t.Known type) (hd : type.index < depth)
    (hd' : type.index < depth') : t'.typeVarsWithin depth' type = t.typeVarsWithin depth type := by
  induction depth generalizing type depth' with
  | zero => cases hd
  | succ depth ih =>
    obtain _ | depth' := depth'
    · cases hd'
    have hbelow := hf.below type hk
    rw [typeVarsWithin, typeVarsWithin, h.shape_eq type hk]
    cases hshape : t.shape type with
    | applied inner | metaclass inner =>
      rw [hshape] at hbelow
      have hlt : inner.index < type.index := hbelow
      exact ih (hlt.trans hk) (by omega) (by omega)
    | _ => rfl

theorem typeVars_eq (hk : t.Known type) : t'.typeVars type = t.typeVars type :=
  h.typeVarsWithin_eq hf hk (Nat.lt_succ_of_lt hk)
    (Nat.lt_succ_of_lt (hk.trans_le h.size_le))

end Preserves

/-- The names of an owner mean the same in a later table. -/
structure ReadsAlike (t t' : TypeTable) (owner : TypeId) : Prop where
  shape_eq : ∀ type, t.Known type → t'.shape type = t.shape type
  instanceType_eq : t'.instanceType owner = t.instanceType owner
  path_eq : ∀ names global, t'.lookupPath (t'.lookupScope owner) names global =
    t.lookupPath (t.lookupScope owner) names global
  typeArgument?_eq : ∀ name, t'.typeArgument? owner name = t.typeArgument? owner name
  meaning?_eq : ∀ name, t'.meaning? owner name = t.meaning? owner name

theorem ReadsAlike.refl (t : TypeTable) (owner : TypeId) : t.ReadsAlike t owner :=
  ⟨fun _ _ => rfl, rfl, fun _ _ => rfl, fun _ => rfl, fun _ => rfl⟩

theorem Preserves.readsAlike (h : t.Preserves t') (hf : t.Founded) (hk : t.Known owner)
    (hbacks : t.Backs owner) (hg : t.Grows t') : t.ReadsAlike t' owner := by
  have hinstance : t'.instanceType owner = t.instanceType owner := by
    rw [instanceType, instanceType, h.shape_eq owner hk]
    cases hshape : t.shape owner with
    | hierarchyMetaclass base =>
      obtain ⟨whole, hwhole⟩ := hbacks base hshape
      cases hfind : t.find? (.hierarchy base) with
      | none =>
        have hknown : t.Known whole := known_of_shape_ne (by simp [hwhole])
        exact absurd hwhole (find?_eq_none_iff.1 hfind whole hknown)
      | some found => simp [hg.find?_eq_some (by simp) (by simp) hfind, hfind]
    | _ => rfl
  have hki := hf.known_instanceType hk
  have hshape := h.shape_eq _ hki
  have hpath : ∀ names global, t'.lookupPath (t'.lookupScope owner) names global =
      t.lookupPath (t.lookupScope owner) names global := by
    intro names global
    rw [h.lookupPath_eq, lookupScope, lookupScope, hinstance, hshape]
  have hargument : ∀ name, t'.typeArgument? owner name = t.typeArgument? owner name := by
    intro name
    have hbelow := hf.below _ hki
    rw [typeArgument?, typeArgument?, hinstance, hshape]
    cases hs : t.shape (t.instanceType owner) with
    | applied generic args =>
      rw [hs] at hbelow
      simp only [h.typeVars_eq hf (hbelow.trans hki)]
    | _ => rfl
  refine ⟨h.shape_eq, hinstance, hpath, hargument, fun name => ?_⟩
  rw [meaning?, meaning?, hinstance, h.typeVars_eq hf hki, hargument, hpath]

section
variable (h : t.ReadsAlike t' owner)
include h

theorem ReadsAlike.genericHead?_eq (e : TypeExpr) :
    t'.genericHead? owner e = t.genericHead? owner e := by
  cases e with
  | path names global => exact h.path_eq names global
  | _ => rfl

/-- What a comparison finds is the same in a later table, and it binds types in range. -/
theorem ReadsAlike.agrees (hin : t.InRange) (e : TypeExpr) (actual : TypeId) (free : Bindings)
    (hactual : t.sizes.Holds actual) (hfree : t.sizes.Holds free) :
    t'.agrees owner e actual free = t.agrees owner e actual free ∧
      t.sizes.Holds (t.agrees owner e actual free).2 := by
  revert hactual hfree
  refine agrees.induct t owner
    (fun e actual free => t.sizes.Holds actual → t.sizes.Holds free →
      t'.agrees owner e actual free = t.agrees owner e actual free ∧
        t.sizes.Holds (t.agrees owner e actual free).2)
    (fun e actual free => t.sizes.Holds actual → t.sizes.Holds free →
      t'.agreesResult owner e actual free = t.agreesResult owner e actual free ∧
        t.sizes.Holds (t.agreesResult owner e actual free).2)
    (fun es actuals free => t.sizes.Holds actuals → t.sizes.Holds free →
      t'.agreesAll owner es actuals free = t.agreesAll owner es actuals free ∧
        t.sizes.Holds (t.agreesAll owner es actuals free).2)
    ?_ ?_ ?_ ?_ ?_ ?_ ?_ ?_ ?_ ?_ ?_ ?_ ?_ ?_ ?_ ?_ ?_ ?_ e actual free
  · intros
    simp_all [TypeTable.agrees]
  · intros
    simp_all [TypeTable.agrees, h.meaning?_eq]
  · intro name actual free hfree' hmeaning hactual hfree
    simp [TypeTable.agrees, hfree', h.meaning?_eq, hmeaning, hfree.insert name hactual]
  · intro names global actual free hsingle _ hfree
    rw [agrees.eq_2 _ _ _ _ _ _ hsingle, agrees.eq_2 _ _ _ _ _ _ hsingle, h.path_eq]
    exact ⟨rfl, hfree⟩
  · intros
    simp_all [TypeTable.agrees, h.instanceType_eq]
  · intros
    simp_all [TypeTable.agrees]
  · intro head args actual free generic generic' actuals hs hhead hsame ih hactual hfree
    rw [TypeTable.agrees, TypeTable.agrees, h.shape_eq actual hactual, h.genericHead?_eq]
    simp only [hs, hhead, if_pos hsame]
    exact ih (hin.holdsShape hs).2 hfree
  · intro head args actual free generic generic' actuals hs hhead hdiffer hactual hfree
    simp [TypeTable.agrees, h.shape_eq actual hactual, h.genericHead?_eq, hs, hhead, hdiffer, hfree]
  · intro head args actual free hother hactual hfree
    simp [TypeTable.agrees, h.shape_eq actual hactual, h.genericHead?_eq, hfree]
  · intro inputs output actual free actuals result hs hlength bound hinputs ih ihr hactual hfree
    obtain ⟨hsame, hbound⟩ := ih (hin.holdsShape hs).1 hfree
    rw [hinputs] at hsame hbound
    simp only [TypeTable.agrees, h.shape_eq actual hactual, hs, hlength, if_true, hsame, hinputs]
    exact ihr (hin.holdsShape hs).2 hbound
  · intro inputs output actual free actuals result hs hlength bound hinputs ih hactual hfree
    obtain ⟨hsame, hbound⟩ := ih (hin.holdsShape hs).1 hfree
    rw [hinputs] at hsame hbound
    simp [TypeTable.agrees, h.shape_eq actual hactual, hs, hlength, hsame, hinputs, hbound]
  · intro inputs output actual free actuals result hs hlength hactual hfree
    simp [TypeTable.agrees, h.shape_eq actual hactual, hs, hlength, hfree]
  · intro inputs output actual free hother hactual hfree
    simp [TypeTable.agrees, h.shape_eq actual hactual, hfree]
  · intro e es actual actuals free bound hfirst ih ihs hactuals hfree
    obtain ⟨hsame, hbound⟩ := ih (holds_cons.1 hactuals).1 hfree
    rw [hfirst] at hsame hbound
    simp only [agreesAll, hsame, hfirst]
    exact ihs (holds_cons.1 hactuals).2 hbound
  · intro e es actual actuals free bound hfirst ih hactuals hfree
    obtain ⟨hsame, hbound⟩ := ih (holds_cons.1 hactuals).1 hfree
    rw [hfirst] at hsame hbound
    simp [agreesAll, hsame, hfirst, hbound]
  · intro es actuals free hshort _ hfree
    simp [agreesAll, hfree]
  · exact fun _ _ _ hfree => ⟨rfl, hfree⟩
  · exact fun _ _ _ ih => ih

end

/-! ## Restrictions by the form they have -/

theorem singleName_eq_some {name : String}
    (h : (TypeExpr.path names global).singleName = some name) :
    names = [name] ∧ global = false := by
  rw [TypeExpr.singleName.eq_def] at h
  split at h
  next heq =>
    obtain ⟨rfl, rfl⟩ := TypeExpr.path.inj heq
    simpa using h
  next => simp at h

theorem restrictPart_variable (owner : TypeId) (name : String) (part : TypeId) (free : Bindings)
    (t : TypeTable) :
    restrictPart owner (.path [name] false) part free t =
      match free.get? name <|> t.meaning? owner name with
      | some type => (((narrowTo part type t).1, free), (narrowTo part type t).2)
      | none => ((some part, free.insert name part), t) := by
  rw [restrictPart, run_get_bind]
  simp only
  generalize (free.get? name <|> t.meaning? owner name) = found
  cases found with
  | none | some => rfl

theorem restrictPart_path (hsingle : (TypeExpr.path names global).singleName = none)
    (owner part : TypeId) (free : Bindings) (t : TypeTable) :
    restrictPart owner (.path names global) part free t =
      match t.lookupPath (t.lookupScope owner) names global with
      | some type => (((narrowTo part type t).1, free), (narrowTo part type t).2)
      | none => ((none, free), t) := by
  have hrun : ∀ found : Option TypeId,
      (match found with
        | some type => do pure (← narrowTo part type, free)
        | none => pure (none, free) : Build (Option TypeId × Bindings)) t =
      match found with
      | some type => (((narrowTo part type t).1, free), (narrowTo part type t).2)
      | none => ((none, free), t) := by
    intro found
    cases found with
    | none | some => rfl
  match names, global, hsingle with
  | [], _, _ => exact hrun _
  | [_], true, _ => exact hrun _
  | _ :: _ :: _, _, _ => exact hrun _

theorem isUnboundVariable_variable (t : TypeTable) (owner : TypeId) (name : String)
    (free : Bindings) :
    t.isUnboundVariable owner (.path [name] false) free =
      (free.get? name <|> t.meaning? owner name).isNone := by
  simp only [isUnboundVariable, TypeExpr.singleName, NameMap.contains]
  cases free.get? name with
  | none | some => simp

end Callsite.TypeTable
