import Callsite.Proofs.Matching.Acceptance
import Callsite.Proofs.NameMap

/-!
# Free type variables

A free variable is bound to the first type it meets and keeps it.  Inside an applied generic
or a function type the parts are compared one after another, so when a later part turns out
to differ, the variables of the parts before it are bound although the type is rejected, and
the next member of a union meets them.  Nothing else remains of a rejected type.
-/

namespace Callsite

variable {all early : List String} {params : List Param} {count : Nat}

mutual

/-- The names of which a type expression is made, apart from those of generic classes. -/
def TypeExpr.names : TypeExpr → List String
  | .path [name] false => [name]
  | .generic _ args => TypeExpr.namesAll args
  | .function inputs output => TypeExpr.namesAll inputs ++ TypeExpr.names? output
  | _ => []

def TypeExpr.namesAll : List TypeExpr → List String
  | [] => []
  | e :: es => e.names ++ TypeExpr.namesAll es

def TypeExpr.names? : Option TypeExpr → List String
  | none => []
  | some e => e.names

end

mutual

/-- The names that are compared before the last part of a type expression is. -/
def TypeExpr.earlyNames : TypeExpr → List String
  | .generic _ args => TypeExpr.earlyNamesAll args
  | .function inputs none => TypeExpr.earlyNamesAll inputs
  | .function inputs (some output) => TypeExpr.namesAll inputs ++ output.earlyNames
  | _ => []

def TypeExpr.earlyNamesAll : List TypeExpr → List String
  | [] => []
  | [e] => e.earlyNames
  | e :: next :: rest => e.names ++ TypeExpr.earlyNamesAll (next :: rest)

end

namespace TypeTable

variable {t t' : TypeTable} {z : Sizes} {owner part arg type : TypeId} {name : String}
variable {names others : List String} {restriction : TypeExpr} {free bound later : Bindings}
variable {members : List TypeId}

/-! ## Binding -/

/-- Names of the list that mean no type and are bound to none are bound one after another. -/
inductive Binds (t : TypeTable) (owner : TypeId) (names : List String) :
    Bindings → Bindings → Prop
  | refl (free : Bindings) : Binds t owner names free free
  | insert {free bound : Bindings} (name : String) (type : TypeId) (hmem : name ∈ names)
      (hfree : free.get? name = none) (hmeaning : t.meaning? owner name = none)
      (hrest : Binds t owner names (free.insert name type) bound) :
      Binds t owner names free bound

namespace Binds

variable (h : t.Binds owner names free bound)
include h

theorem trans (h' : t.Binds owner names bound later) : t.Binds owner names free later := by
  induction h with
  | refl => exact h'
  | insert name type hmem hfree hmeaning _ ih => exact .insert name type hmem hfree hmeaning (ih h')

theorem mono (hsubset : names ⊆ others) : t.Binds owner others free bound := by
  induction h with
  | refl => exact .refl _
  | insert name type hmem hfree hmeaning _ ih =>
    exact .insert name type (hsubset hmem) hfree hmeaning ih

/-- A name that has a type keeps it. -/
theorem get?_eq_some (hname : free.get? name = some type) : bound.get? name = some type := by
  induction h with
  | refl => exact hname
  | insert other type' _ hfree _ _ ih =>
    have hne : name ≠ other := by
      rintro rfl
      simp [hname] at hfree
    exact ih (by rwa [NameMap.get?_insert_of_ne _ type' hne])

/-- Only names of the list are bound, and only if they mean no type. -/
theorem of_get?_ne (hne : bound.get? name ≠ free.get? name) :
    name ∈ names ∧ t.meaning? owner name = none := by
  induction h with
  | refl => exact absurd rfl hne
  | insert other type' hmem _ hmeaning _ ih =>
    by_cases heq : name = other
    · subst heq
      exact ⟨hmem, hmeaning⟩
    · exact ih (by rwa [NameMap.get?_insert_of_ne _ type' heq])

theorem eq_of_settled
    (hsettled : ∀ name ∈ names, free.get? name ≠ none ∨ t.meaning? owner name ≠ none) :
    bound = free := by
  cases h with
  | refl => rfl
  | insert name type hmem hfree hmeaning => simpa [hfree, hmeaning] using hsettled name hmem

end Binds

/-! ## Agreement -/

/-- Bindings after a comparison: names of the expression are bound, and if it does not agree,
only such as stand before its last part. -/
structure BindsIn (t : TypeTable) (owner : TypeId) (all early : List String) (free : Bindings)
    (outcome : Bool × Bindings) : Prop where
  binds : t.Binds owner all free outcome.2
  early : outcome.1 = false → t.Binds owner early free outcome.2

theorem BindsIn.refl (same : Bool) : t.BindsIn owner all early free (same, free) :=
  ⟨.refl free, fun _ => .refl free⟩

/-- A part that agrees is followed by the next. -/
theorem BindsIn.andThen {all' early' : List String} {outcome : Bool × Bindings}
    (h : t.BindsIn owner all early free (true, bound))
    (h' : t.BindsIn owner all' early' bound outcome) :
    t.BindsIn owner (all ++ all') (all ++ early') free outcome where
  binds := (h.binds.mono (by simp)).trans (h'.binds.mono (by simp))
  early := fun hreject => (h.binds.mono (by simp)).trans ((h'.early hreject).mono (by simp))

theorem BindsIn.stop (h : t.BindsIn owner all early free (false, bound))
    (all' early' : List String) :
    t.BindsIn owner (all ++ all') (all ++ early') free (false, bound) :=
  ⟨h.binds.mono (by simp), fun _ => h.binds.mono (by simp)⟩

mutual

theorem agrees_bindsIn (t : TypeTable) (owner : TypeId) :
    ∀ (e : TypeExpr) (actual : TypeId) (free : Bindings),
      t.BindsIn owner e.names e.earlyNames free (t.agrees owner e actual free)
  | .path names global, actual, free => by
    match names, global with
    | [name], false =>
      rw [agrees]
      split
      next => exact .refl _
      next hfree =>
        split
        next => exact .refl _
        next hmeaning =>
          refine ⟨.insert name actual ?_ hfree hmeaning (.refl _), by simp⟩
          simp [TypeExpr.names]
    | [], global =>
      rw [agrees]
      · exact .refl _
      · simp
    | [name], true =>
      rw [agrees]
      · exact .refl _
      · simp
    | name :: next :: rest, global =>
      rw [agrees]
      · exact .refl _
      · simp
  | .selfType, actual, free => .refl _
  | .resolved type, actual, free => .refl _
  | .generic head args, actual, free => by
    rw [agrees]
    split
    next generic generic' actuals _ _ =>
      split
      next => exact agreesAll_bindsIn t owner args actuals free
      next => exact .refl _
    next => exact .refl _
  | .function inputs output, actual, free => by
    rw [agrees]
    split
    next actuals result _ =>
      split
      next =>
        have hinputs := agreesAll_bindsIn t owner inputs actuals free
        rcases hrun : t.agreesAll owner inputs actuals free with ⟨_ | _, bound⟩
        · rw [hrun] at hinputs
          match output with
          | none =>
            exact ⟨by simpa [TypeExpr.names, TypeExpr.names?] using hinputs.binds, hinputs.early⟩
          | some e => exact hinputs.stop _ _
        · rw [hrun] at hinputs
          match output with
          | none =>
            simp only [agreesResult]
            exact ⟨by simpa [TypeExpr.names, TypeExpr.names?] using hinputs.binds, by simp⟩
          | some e =>
            exact hinputs.andThen (agrees_bindsIn t owner e result bound)
      next => exact .refl _
    next => exact .refl _

theorem agreesAll_bindsIn (t : TypeTable) (owner : TypeId) :
    ∀ (es : List TypeExpr) (actuals : List TypeId) (free : Bindings),
      t.BindsIn owner (TypeExpr.namesAll es) (TypeExpr.earlyNamesAll es) free
        (t.agreesAll owner es actuals free)
  | [], actuals, free => by
    rw [agreesAll]
    · exact .refl _
    · simp
  | e :: es, [], free => by
    rw [agreesAll]
    · exact .refl _
    · simp
  | e :: es, actual :: actuals, free => by
    have hfirst := agrees_bindsIn t owner e actual free
    rw [agreesAll]
    rcases hrun : t.agrees owner e actual free with ⟨_ | _, bound⟩
    · rw [hrun] at hfirst
      match es with
      | [] => exact ⟨by simpa [TypeExpr.namesAll] using hfirst.binds, hfirst.early⟩
      | next :: rest => exact hfirst.stop _ _
    · rw [hrun] at hfirst
      match es with
      | [] =>
        simp only [agreesAll]
        exact ⟨by simpa [TypeExpr.namesAll] using hfirst.binds, by simp⟩
      | next :: rest =>
        exact hfirst.andThen (agreesAll_bindsIn t owner (next :: rest) actuals bound)

end

/-! ## Nothing else remains -/

variable {target : TypeId}

theorem narrowPart_of_none (h : (narrowPart part target t).1 = none) :
    narrowPart part target t = (none, t) := by
  rcases narrowPart_same_or_makes part target t with hsame | ⟨cls, -, hrun⟩
  · exact Prod.ext h hsame
  · simp [hrun] at h

theorem narrowMembers_of_nil (h : (narrowMembers target members t).1 = []) :
    narrowMembers target members t = ([], t) := by
  induction members with
  | nil => rfl
  | cons member rest ih =>
    rw [narrowMembers_cons] at h ⊢
    obtain ⟨hfirst, hrest⟩ := List.append_eq_nil_iff.1 h
    rw [narrowPart_of_none (Option.toList_eq_nil_iff.1 hfirst)] at hrest ⊢
    simp [ih hrest]

theorem unionOfKept_of_none (members : List TypeId) (h : (unionOfKept members t).1 = none) :
    members = [] := by
  by_contra hne
  simp [unionOfKept_of_ne_nil hne] at h

theorem narrowTo_of_none (h : (narrowTo arg target t).1 = none) :
    narrowTo arg target t = (none, t) := by
  by_cases hunion : ∃ members, t.shape arg = .union members
  · obtain ⟨members, hshape⟩ := hunion
    by_cases heq : arg = target
    · simp [narrowTo, heq] at h
    rw [narrowTo_of_union hshape heq] at h ⊢
    rw [narrowMembers_of_nil (unionOfKept_of_none _ h)]
    rfl
  · rw [narrowTo_of_part fun members hshape => hunion ⟨members, hshape⟩] at h ⊢
    exact narrowPart_of_none h

/-- What restricting a type leaves behind: bindings as after a comparison, and the table as it
was when the type is rejected. -/
structure Leaves (t : TypeTable) (owner : TypeId) (restriction : TypeExpr) (free : Bindings)
    (run : (Option TypeId × Bindings) × TypeTable) : Prop where
  bindsIn :
    t.BindsIn owner restriction.names restriction.earlyNames free (run.1.1.isSome, run.1.2)
  table_eq : run.1.1 = none → run.2 = t

theorem Leaves.narrowTo (part target : TypeId) :
    t.Leaves owner restriction free
      (((narrowTo part target t).1, free), (narrowTo part target t).2) where
  bindsIn := .refl _
  table_eq := fun hnone => by rw [narrowTo_of_none hnone]

theorem Leaves.agrees (hnames : t.BindsIn owner restriction.names restriction.earlyNames free
      (t.agrees owner restriction part free)) :
    t.Leaves owner restriction free
      ((if (t.agrees owner restriction part free).1 then some part else none,
        (t.agrees owner restriction part free).2), t) where
  bindsIn := by
    have hsome : (if (t.agrees owner restriction part free).1 then some part else none).isSome =
        (t.agrees owner restriction part free).1 := by
      cases (t.agrees owner restriction part free).1 with
      | true | false => rfl
    rw [hsome]
    exact hnames
  table_eq := fun _ => rfl

theorem restrictPart_leaves (owner : TypeId) (restriction : TypeExpr) (part : TypeId)
    (free : Bindings) (t : TypeTable) :
    t.Leaves owner restriction free (restrictPart owner restriction part free t) := by
  cases restriction with
  | path names global =>
    cases hsingle : (TypeExpr.path names global).singleName with
    | some name =>
      obtain ⟨rfl, rfl⟩ := singleName_eq_some hsingle
      rw [restrictPart_variable]
      split
      next type _ => exact .narrowTo part type
      next hnone =>
        obtain ⟨hfree, hmeaning⟩ : free.get? name = none ∧ t.meaning? owner name = none := by
          simpa using hnone
        refine ⟨⟨.insert name part ?_ hfree hmeaning (.refl _), by simp⟩, by simp⟩
        simp [TypeExpr.names]
    | none =>
      rw [restrictPart_path hsingle]
      split
      next type _ => exact .narrowTo part type
      next => exact ⟨.refl _, fun _ => rfl⟩
  | selfType => exact .narrowTo part (t.instanceType owner)
  | resolved type => exact .narrowTo part type
  | generic | function => exact .agrees (agrees_bindsIn t owner _ part free)

theorem restrictMembers_cons (owner : TypeId) (restriction : TypeExpr) (member : TypeId)
    (rest : List TypeId) (free : Bindings) (t : TypeTable) :
    restrictMembers owner restriction (member :: rest) free t =
      let first := restrictPart owner restriction member free t
      let others := restrictMembers owner restriction rest first.1.2 first.2
      ((first.1.1.toList ++ others.1.1, others.1.2), others.2) := rfl

theorem restrictMembers_get?_eq_some (members : List TypeId) (hname : free.get? name = some type)
    (t : TypeTable) :
    (restrictMembers owner restriction members free t).1.2.get? name = some type := by
  induction members generalizing free t with
  | nil => exact hname
  | cons member rest ih =>
    have hfirst := (restrictPart_leaves owner restriction member free t).bindsIn.binds
    exact ih (hfirst.get?_eq_some hname) _

/-- If every member is rejected, only names that were compared early are bound. -/
theorem restrictMembers_of_nil (h : (restrictMembers owner restriction members free t).1.1 = []) :
    t.Binds owner restriction.earlyNames free
        (restrictMembers owner restriction members free t).1.2 ∧
      (restrictMembers owner restriction members free t).2 = t := by
  induction members generalizing free with
  | nil => exact ⟨.refl free, rfl⟩
  | cons member rest ih =>
    have hfirst := restrictPart_leaves owner restriction member free t
    rw [restrictMembers_cons] at h ⊢
    rcases hrun : restrictPart owner restriction member free t with ⟨⟨_ | kept, bound⟩, t1⟩
    · rw [hrun] at hfirst h
      obtain rfl : t1 = t := hfirst.table_eq rfl
      obtain ⟨hbinds, htable⟩ := ih h
      exact ⟨(hfirst.bindsIn.early rfl).trans hbinds, htable⟩
    · simp [hrun] at h

/-- Members that are rejected do not get in the way of the others. -/
theorem restrictMembers_ne_nil_iff (hsettled : ∀ name ∈ restriction.earlyNames,
      free.get? name ≠ none ∨ t.meaning? owner name ≠ none) :
    (restrictMembers owner restriction members free t).1.1 ≠ [] ↔
      ∃ member ∈ members, (restrictPart owner restriction member free t).1.1.isSome = true := by
  induction members with
  | nil => simp [restrictMembers]
  | cons member rest ih =>
    have hfirst := restrictPart_leaves owner restriction member free t
    rw [restrictMembers_cons, List.exists_mem_cons_iff]
    rcases hrun : restrictPart owner restriction member free t with ⟨⟨_ | kept, bound⟩, t1⟩
    · rw [hrun] at hfirst
      obtain rfl : t1 = t := hfirst.table_eq rfl
      obtain rfl : bound = free := (hfirst.bindsIn.early rfl).eq_of_settled hsettled
      simpa using ih
    · simp

/-- A variable that is not bound takes what it meets. -/
theorem restrictPart_of_isUnboundVariable (h : t.isUnboundVariable owner restriction free = true) :
    (restrictPart owner restriction part free t).1.1 = some part := by
  cases restriction with
  | path names global =>
    cases hsingle : (TypeExpr.path names global).singleName with
    | some name =>
      obtain ⟨rfl, rfl⟩ := singleName_eq_some hsingle
      rw [isUnboundVariable_variable, Option.isNone_iff_eq_none] at h
      rw [restrictPart_variable, h]
    | none => simp [isUnboundVariable, hsingle] at h
  | _ => simp [isUnboundVariable, TypeExpr.singleName] at h

/-! ## Restricting an argument -/

theorem restrict_of_part (h : t.isUnboundVariable owner restriction free = true ∨
      ∀ members, t.shape arg ≠ .union members) :
    restrict owner restriction arg free t = restrictPart owner restriction arg free t := by
  rw [restrict, run_get_bind]
  split
  next => rfl
  next hbound =>
    have hpart := h.resolve_left hbound
    cases hshape : t.shape arg with
    | union members => exact absurd hshape (hpart members)
    | _ => rfl

theorem restrict_of_union (hbound : t.isUnboundVariable owner restriction free = false)
    (hshape : t.shape arg = .union members) :
    restrict owner restriction arg free t =
      let run := restrictMembers owner restriction members free t
      (((unionOfKept run.1.1 run.2).1, run.1.2), (unionOfKept run.1.1 run.2).2) := by
  rw [restrict, run_get_bind, hbound, hshape]
  rfl

theorem restrict_cases (t : TypeTable) (owner : TypeId) (restriction : TypeExpr) (arg : TypeId)
    (free : Bindings) :
    restrict owner restriction arg free t = restrictPart owner restriction arg free t ∨
      ∃ members, t.isUnboundVariable owner restriction free = false ∧
        t.shape arg = .union members := by
  by_cases hvariable : t.isUnboundVariable owner restriction free = true
  · exact Or.inl (restrict_of_part (Or.inl hvariable))
  by_cases hunion : ∃ members, t.shape arg = .union members
  · obtain ⟨members, hshape⟩ := hunion
    exact Or.inr ⟨members, by simpa using hvariable, hshape⟩
  · exact Or.inl (restrict_of_part (Or.inr fun members hshape => hunion ⟨members, hshape⟩))

theorem restrict_get?_eq_some (arg : TypeId) (hname : free.get? name = some type) (t : TypeTable) :
    (restrict owner restriction arg free t).1.2.get? name = some type := by
  rcases restrict_cases t owner restriction arg free with hrun | ⟨members, hbound, hshape⟩
  · rw [hrun]
    exact (restrictPart_leaves owner restriction arg free t).bindsIn.binds.get?_eq_some hname
  · rw [restrict_of_union hbound hshape]
    exact restrictMembers_get?_eq_some members hname t

theorem restrict_of_none (hnone : (restrict owner restriction arg free t).1.1 = none) :
    t.Binds owner restriction.earlyNames free (restrict owner restriction arg free t).1.2 ∧
      (restrict owner restriction arg free t).2 = t := by
  rcases restrict_cases t owner restriction arg free with hrun | ⟨members, hbound, hshape⟩
  · have hleaves := restrictPart_leaves owner restriction arg free t
    rw [hrun] at hnone ⊢
    exact ⟨hleaves.bindsIn.early (by simp [hnone]), hleaves.table_eq hnone⟩
  · rw [restrict_of_union hbound hshape] at hnone ⊢
    have hnil := unionOfKept_of_none _ hnone
    obtain ⟨hbinds, htable⟩ := restrictMembers_of_nil hnil
    refine ⟨hbinds, ?_⟩
    simp only [hnil]
    exact htable

theorem restrict_union_isSome_iff (h : t.Regular) (hshape : t.shape arg = .union members)
    (hsettled : ∀ name ∈ restriction.earlyNames,
      free.get? name ≠ none ∨ t.meaning? owner name ≠ none) :
    (restrict owner restriction arg free t).1.1.isSome = true ↔
      ∃ member ∈ members, (restrict owner restriction member free t).1.1.isSome = true := by
  have hnormal := h.normal arg members hshape
  have hmember : ∀ member ∈ members, restrict owner restriction member free t =
      restrictPart owner restriction member free t := fun member hmem =>
    restrict_of_part (Or.inr (hnormal.ne_union member hmem))
  by_cases hvariable : t.isUnboundVariable owner restriction free = true
  · rw [restrict_of_part (Or.inl hvariable), restrictPart_of_isUnboundVariable hvariable]
    obtain ⟨first, others, rfl⟩ := List.exists_cons_of_length_pos
      (Nat.zero_lt_two.trans_le hnormal.two_le_length)
    refine iff_of_true rfl ⟨first, by simp, ?_⟩
    rw [hmember first (by simp), restrictPart_of_isUnboundVariable hvariable, Option.isSome_some]
  · have hkept : ∀ (kept : List TypeId) (t1 : TypeTable),
        (unionOfKept kept t1).1.isSome = true ↔ kept ≠ [] := by
      intro kept t1
      cases kept with
      | nil => simp [unionOfKept]
      | cons first others => simp [unionOfKept_of_ne_nil]
    rw [restrict_of_union (by simpa using hvariable) hshape, hkept,
      restrictMembers_ne_nil_iff hsettled]
    exact exists_congr fun member => and_congr_right fun hmem => by rw [hmember member hmem]

/-- A restriction never changes the type that a name is bound to.  If it rejects the argument,
the table stays as it was, and the only names bound are free variables that stand before the
last part of an applied generic or a function type.  Without unbound variables there, a
rejected argument binds nothing, and a union is accepted if and only if one of its members
is. -/
theorem restrict_leaves (hr : t.Reached) (owner : TypeId) (restriction : TypeExpr) (arg : TypeId)
    (free : Bindings) :
    let run := restrict owner restriction arg free t
    (∀ name type, free.get? name = some type → run.1.2.get? name = some type) ∧
    (run.1.1 = none → run.2 = t ∧
      ∀ name, run.1.2.get? name ≠ free.get? name →
        name ∈ restriction.earlyNames ∧ t.meaning? owner name = none) ∧
    ((∀ name ∈ restriction.earlyNames, free.get? name ≠ none ∨ t.meaning? owner name ≠ none) →
      (run.1.1 = none → run.1.2 = free) ∧
      ∀ members, t.shape arg = .union members →
        (run.1.1.isSome = true ↔
          ∃ member ∈ members, (restrict owner restriction member free t).1.1.isSome = true)) := by
  refine ⟨fun name type hname => restrict_get?_eq_some arg hname t, fun hnone => ?_, ?_⟩
  · obtain ⟨hbinds, htable⟩ := restrict_of_none hnone
    exact ⟨htable, fun name hne => hbinds.of_get?_ne hne⟩
  · intro hsettled
    exact ⟨fun hnone => (restrict_of_none hnone).1.eq_of_settled hsettled,
      fun members hshape => restrict_union_isSome_iff hr.regular hshape hsettled⟩

/-- The class `⟨14⟩` of pairs, `⟨15⟩` for `Pair(String, Char)`, `⟨16⟩` for `Pair(Int32, Int32)`,
and the union `⟨17⟩` of the two. -/
def pairs : TypeTable :=
  (unionOf [⟨15⟩, ⟨16⟩] (apply ⟨14⟩ [.int32, .int32]
    (apply ⟨14⟩ [.string, .char] (declareClass "Pair" none false ["A", "B"] standard).2).2).2).2

theorem pairs_reached : pairs.Reached :=
  .unionOf
    (.apply (.apply (.declareClass .standard "Pair" none false ["A", "B"] (by simp))
      (by decide +kernel) _) (by decide +kernel) _)
    (by decide +kernel)

def pairOf (first second : String) : TypeExpr :=
  .generic (.named "Pair") [.named first, .named second]

theorem restrict_leaves_pairs :
    pairs.Reached ∧
      (∀ name ∈ (pairOf "Int32" "T").earlyNames, pairs.meaning? .program name ≠ none) ∧
      (restrict .program (pairOf "Int32" "T") ⟨15⟩ .empty pairs).1 = (none, .empty) ∧
      (restrict .program (pairOf "Int32" "T") ⟨17⟩ .empty pairs).1.1.isSome = true := by
  have hsettled : ∀ name ∈ (pairOf "Int32" "T").earlyNames,
      pairs.meaning? .program name ≠ none := by decide +kernel
  have hrejects : (restrict .program (pairOf "Int32" "T") ⟨15⟩ .empty pairs).1.1 = none := by
    decide +kernel
  have haccepts : (restrict .program (pairOf "Int32" "T") ⟨16⟩ .empty pairs).1.1.isSome = true := by
    decide +kernel
  obtain ⟨-, -, hpart⟩ := restrict_leaves pairs_reached .program (pairOf "Int32" "T") ⟨15⟩ .empty
  obtain ⟨-, -, hunion⟩ := restrict_leaves pairs_reached .program (pairOf "Int32" "T") ⟨17⟩ .empty
  have hnothing := (hpart fun name hmem => .inr (hsettled name hmem)).1 hrejects
  have hmember := (hunion fun name hmem => .inr (hsettled name hmem)).2 [⟨15⟩, ⟨16⟩]
    (by decide +kernel)
  exact ⟨pairs_reached, hsettled, Prod.ext hrejects hnothing, hmember.2 ⟨⟨16⟩, by simp, haccepts⟩⟩

/-- `Pair(T, Int32)` rejects `Pair(String, Char)` and yet binds `T`, and so rejects the union with
`Pair(Int32, Int32)`, which it accepts alone. -/
theorem restrict_binds_rejected_pairs :
    (restrict .program (pairOf "T" "Int32") ⟨15⟩ .empty pairs).1 =
        (none, .insert .empty "T" .string) ∧
      (restrict .program (pairOf "T" "Int32") ⟨16⟩ .empty pairs).1.1 = some ⟨16⟩ ∧
      (restrict .program (pairOf "T" "Int32") ⟨17⟩ .empty pairs).1.1 = none := by
  decide +kernel

/-! ## One variable for all arguments -/

/-- No member of a union is narrowed to the union. -/
theorem narrowTo_member {member : TypeId} (h : t.Regular) (hshape : t.shape type = .union members)
    (hmem : member ∈ members) : narrowTo member type t = (none, t) := by
  have hnormal := h.normal type members hshape
  obtain ⟨hk, hbelow⟩ := h.founded.below_of_shape hshape (by simp)
  have hne : member ≠ type := by
    rintro rfl
    exact Nat.lt_irrefl _ (hbelow member hmem)
  have hnoReturn : t.shape member ≠ .noReturn := fun hshape' =>
    hnormal.ne_noReturn member hmem (h.eq_noReturn ((hbelow member hmem).trans hk) hshape')
  have hasks : t.targetClass? type = none := by rw [targetClass?, hshape]
  rw [narrowTo_of_part (hnormal.ne_union member hmem)]
  cases hmember : t.shape member with
  | noReturn => exact absurd hmember hnoReturn
  | _ => simp [narrowPart, hne, hmember, hasks, hshape]

/-- A bound variable accepts the type it is bound to, unless that is a union. -/
theorem restrict_of_bound (h : t.Regular) (hbound : free.get? name = some type) :
    restrict owner (.path [name] false) type free t =
      ((if t.isUnion type = true then none else some type, free), t) := by
  have hvariable : t.isUnboundVariable owner (.path [name] false) free = false := by
    simp [isUnboundVariable_variable, hbound]
  have hpart : ∀ part, restrictPart owner (.path [name] false) part free t =
      (((narrowTo part type t).1, free), (narrowTo part type t).2) := by
    simp [restrictPart_variable, hbound]
  rw [isUnion]
  cases hshape : t.shape type with
  | union members =>
    have hmembers : ∀ rest, (∀ member ∈ rest, member ∈ members) →
        restrictMembers owner (.path [name] false) rest free t = (([], free), t) := by
      intro rest hrest
      induction rest with
      | nil => rfl
      | cons member rest ih =>
        rw [restrictMembers_cons, hpart, narrowTo_member h hshape (hrest member (by simp))]
        simp [ih (List.forall_mem_cons.1 hrest).2]
    rw [restrict_of_union hvariable hshape, hmembers members fun _ hmem => hmem]
    rfl
  | _ =>
    rw [restrict_of_part (Or.inr (by simp [hshape])), hpart]
    simp [narrowTo]

theorem restrictArgs_of_bound (h : t.Regular) (hbound : free.get? name = some type)
    (hparams : params.map (·.restriction) = List.replicate count (some (.path [name] false))) :
    restrictArgs owner params (List.replicate count type) free t =
      ((if 0 < count ∧ t.isUnion type = true then none else some (List.replicate count type), free),
        t) := by
  induction count generalizing params with
  | zero =>
    obtain rfl : params = [] := by simpa using hparams
    rfl
  | succ count ih =>
    obtain ⟨param, rest, rfl, hparam, hrest⟩ := List.map_eq_cons_iff.1 hparams
    rw [List.replicate_succ, restrictArgs_cons, restrictParam, hparam]
    simp only [restrict_of_bound h hbound]
    cases hunion : t.isUnion type with
    | true => simp
    | false => simp [ih hrest, hunion]

/-- A method whose parameters are all restricted by the same free variable binds it to the type
of its arguments and takes them as they are.  Only a union is not taken by a second parameter,
since there its members are compared with it one by one. -/
theorem matchMethod_variable {count : Nat} {id : MethodId} (hr : t.Reached)
    (hmeaning : t.meaning? owner name = none)
    (hparams : (t.method id).decl.params.map (·.restriction) =
      List.replicate count (some (.path [name] false)))
    (hcount : 0 < count)
    (type : TypeId) :
    matchMethod id owner (List.replicate count type) t =
      (if 2 ≤ count ∧ t.isUnion type = true then none
        else some
          ⟨id, owner, List.replicate count type, .insert .empty name type, .direct⟩, t) := by
  obtain _ | count := count
  · exact absurd hcount (Nat.lt_irrefl 0)
  obtain ⟨param, rest, hsplit, hparam, hrest⟩ := List.map_eq_cons_iff.1 hparams
  have hunbound : (NameMap.get? (.empty : Bindings) name <|> t.meaning? owner name) = none := by
    simp [hmeaning, NameMap.get?, NameMap.empty]
  have hfirst : restrictParam owner param type .empty t =
      ((some type, .insert .empty name type), t) := by
    rw [restrictParam, hparam]
    simp only
    rw [restrict_of_part
      (Or.inl (by rw [isUnboundVariable_variable, hunbound, Option.isNone_none])),
      restrictPart_variable, hunbound]
  have hothers :
      restrictArgs owner rest (List.replicate count type) (.insert .empty name type) t = _ :=
    restrictArgs_of_bound hr.regular (NameMap.get?_insert_self _ _ _) hrest
  have hagain : 2 ≤ count + 1 ↔ 0 < count := Nat.succ_le_succ_iff
  rw [matchMethod_eq, hsplit, List.replicate_succ, restrictArgs_cons, hfirst]
  simp only [hothers, hagain]
  by_cases hrejects : 0 < count ∧ t.isUnion type = true
  · simp [hrejects]
  · simp [hrejects]

/-- The method `⟨18⟩`, `same(a : T, b : T)` at top level, and the union `⟨14⟩` of `Int32` and
`String`. -/
def sameTwice : TypeTable :=
  (register .program
    ⟨"same", [⟨"a", none, some (.named "T")⟩, ⟨"b", none, some (.named "T")⟩], none, none, false,
      .absent⟩ .user
    (unionOf [.int32, .string] standard).2).2

theorem matchMethod_variable_sameTwice :
    sameTwice.Reached ∧ sameTwice.meaning? .program "T" = none ∧
      (sameTwice.method ⟨18⟩).decl.params.map (·.restriction) =
        List.replicate 2 (some (.path ["T"] false)) ∧
      matchMethod ⟨18⟩ .program [.int32, .int32] sameTwice =
        (some ⟨⟨18⟩, .program, [.int32, .int32], .insert .empty "T" .int32, .direct⟩,
          sameTwice) := by
  have hr : sameTwice.Reached := .register (.unionOf .standard (by decide +kernel)) _ _ _
  have hmeaning : sameTwice.meaning? .program "T" = none := by decide +kernel
  have hparams : (sameTwice.method ⟨18⟩).decl.params.map (·.restriction) =
      List.replicate 2 (some (.path ["T"] false)) := by
    decide +kernel
  have hpart : sameTwice.isUnion .int32 = false := by decide +kernel
  have hmatch := matchMethod_variable hr hmeaning hparams (by decide) .int32
  rw [hpart] at hmatch
  exact ⟨hr, hmeaning, hparams, hmatch⟩

/-- `same` does not take the union of `Int32` and `String` twice. -/
theorem matchMethod_not_union_sameTwice :
    sameTwice.shape ⟨14⟩ = .union [.int32, .string] ∧
      (matchMethod ⟨18⟩ .program [⟨14⟩, ⟨14⟩] sameTwice).1 = none := by
  decide +kernel

end TypeTable

end Callsite
