import Callsite.Proofs.Matching.Narrowing
import Callsite.Proofs.Matching.Reading

/-!
# What a method accepts

A restriction that names a class accepts the concrete types that descend from it, and
restricting an argument keeps exactly those.  So a method takes a tuple of concrete
types if and only if the argument types it is matched with include the tuple.
-/

namespace Callsite.TypeTable

variable {t t' : TypeTable} {owner type target part arg c : TypeId} {info : ClassInfo}
  {param : Param}
variable {restriction : TypeExpr} {types members args tuple : List TypeId} {params : List Param}

/-! ## Names that mean a class -/

/-- A regular table of classes in which `owner` has methods of its own, not those of a
hierarchy. -/
structure Matchable (t : TypeTable) (owner : TypeId) : Prop where
  regular : t.Regular
  overClasses : t.OverClasses
  known : t.Known owner
  not_hierarchy : t.isHierarchy owner = false

/-- The restriction is a path that means a class to the methods of `owner`, and no type
parameter of it. -/
def NamesClass (t : TypeTable) (owner : TypeId) (restriction : TypeExpr) (target : TypeId) : Prop :=
  ∃ names global, restriction = .path names global ∧
    t.lookupPath (t.lookupScope owner) names global = some target ∧
    (∃ info, t.shape target = .cls info) ∧
    ∀ name, restriction.singleName = some name → name ∉ t.typeVars (t.instanceType owner)

theorem Widens.matchable (h : t.Widens t') (hr : t'.Regular) (hm : t.Matchable owner) :
    t'.Matchable owner where
  regular := hr
  overClasses := h.overClasses hm.overClasses
  known := h.known hm.known
  not_hierarchy := by
    rw [isHierarchy, h.shape_eq owner hm.known]
    exact hm.not_hierarchy

namespace Matchable

variable (hm : t.Matchable owner)
include hm

theorem readsAlike (h : t.Widens t') : t.ReadsAlike t' owner := by
  refine h.preserves.readsAlike hm.regular.founded hm.known (fun base hshape => ?_) h.grows
  simpa [isHierarchy, hshape] using hm.not_hierarchy

end Matchable

section

variable (hn : t.NamesClass owner restriction target)
include hn

theorem NamesClass.widens (hm : t.Matchable owner) (h : t.Widens t') :
    t'.NamesClass owner restriction target := by
  obtain ⟨names, global, hpath, hlookup, ⟨info, hshape⟩, hvars⟩ := hn
  refine ⟨names, global, hpath, ?_, ⟨info, (h.shape_cls_iff info).2 hshape⟩, ?_⟩
  · rw [(hm.readsAlike h).path_eq]
    exact hlookup
  · have hf := hm.regular.founded
    rw [(hm.readsAlike h).instanceType_eq,
      h.preserves.typeVars_eq hf (hf.known_instanceType hm.known)]
    exact hvars

theorem NamesClass.isClass : t.isClass target = true := by
  obtain ⟨-, -, -, -, ⟨info, hshape⟩, -⟩ := hn
  exact isClass_of_shape hshape

theorem NamesClass.meaning?_eq {name : String} (hname : restriction.singleName = some name) :
    t.meaning? owner name = some target := by
  obtain ⟨names, global, rfl, hlookup, -, hvars⟩ := hn
  have hnot : (t.typeVars (t.instanceType owner)).contains name = false := by
    simpa using hvars name hname
  rw [meaning?, hnot]
  simp only [TypeExpr.singleName] at hname
  split at hname
  next only heq =>
    cases hname
    cases heq
    exact hlookup
  next => simp at hname

end

/-! ## Restricting an argument -/

theorem NamesClass.isUnboundVariable_eq (hn : t.NamesClass owner restriction target)
    (free : Bindings) : t.isUnboundVariable owner restriction free = false := by
  rw [isUnboundVariable]
  cases hname : restriction.singleName with
  | none => rfl
  | some name => simp [hn.meaning?_eq hname]

/-- A part is narrowed to the class that is named. -/
theorem restrictPart_eq (hn : t.NamesClass owner restriction target)
    (hunion : ∀ members, t.shape part ≠ .union members) :
    restrictPart owner restriction part .empty t =
      (((narrowPart part target t).1, .empty), (narrowPart part target t).2) := by
  have hmeaning :
      ∀ name, restriction.singleName = some name → t.meaning? owner name = some target :=
    fun _ hname => hn.meaning?_eq hname
  obtain ⟨names, global, rfl, hlookup, -⟩ := hn
  rw [← narrowTo_of_part hunion]
  match names, global with
  | [name], false =>
    simp [restrictPart, NameMap.get?, NameMap.empty, hmeaning name rfl]
  | [], _ | [_], true | _ :: _ :: _, _ => simp [restrictPart, hlookup]

theorem restrictMembers_eq (hm : t.Matchable owner) (hn : t.NamesClass owner restriction target)
    (hmembers : ∀ member ∈ members, t.IsPart member) :
    restrictMembers owner restriction members .empty t =
      (((narrowMembers target members t).1, .empty), (narrowMembers target members t).2) := by
  induction members generalizing t with
  | nil => rfl
  | cons member rest ih =>
    obtain ⟨⟨hk, hnoReturn, hunion⟩, hrest⟩ := List.forall_mem_cons.1 hmembers
    have hkeeps := narrowPart_keeps hm.regular hm.overClasses hn.isClass hk hnoReturn
    have hwidens := hkeeps.widens
    have hlater := ih (hwidens.matchable hkeeps.regular hm) (hn.widens hm hwidens)
      fun part hpart => hwidens.isPart (hrest part hpart)
    rw [restrictMembers, run_bind, restrictPart_eq hn hunion]
    simp only [run_bind, hlater]
    rfl

section

variable (hm : t.Matchable owner) (harg : t.IsArgument arg)
  (hn : t.NamesClass owner restriction target)
include hm harg hn

/-- A restriction that names a class narrows the argument to it. -/
theorem restrict_eq_narrowTo : restrict owner restriction arg .empty t =
      (((narrowTo arg target t).1, .empty), (narrowTo arg target t).2) := by
  by_cases hunion : ∃ members, t.shape arg = .union members
  · obtain ⟨members, hshape⟩ := hunion
    have hspread : t.spread arg = members := by rw [spread, hshape]
    have hmembers := restrictMembers_eq hm hn fun member (hmember : member ∈ members) =>
      harg.of_mem_spread hm.regular (hspread ▸ hmember)
    rw [narrowTo_of_union hshape (ne_of_union_of_isClass hshape hn.isClass), restrict, run_get_bind,
      hn.isUnboundVariable_eq, hshape]
    simp only [Bool.false_eq_true, if_false, run_bind, hmembers]
    rfl
  · have hpart := not_exists.1 hunion
    rw [narrowTo_of_part hpart, ← restrictPart_eq hn hpart]
    simp [restrict, hn.isUnboundVariable_eq]

theorem restrict_restricts : let run := restrict owner restriction arg .empty t
    run.1.2 = .empty ∧ t.Restricts arg (t.isSubclass · target) run.1.1 run.2 := by
  rw [restrict_eq_narrowTo hm harg hn]
  exact ⟨rfl, narrowTo_restricts hm.regular hm.overClasses harg hn.isClass⟩

end

/-- A concrete type is kept as it is or rejected. -/
theorem restrict_of_isExact (hn : t.NamesClass owner restriction target)
    (hexact : (t.shape c).isExact = true) :
    restrict owner restriction c .empty t =
      ((if t.isSubclass c target then some c else none, .empty), t) := by
  have hunion : ∀ members, t.shape c ≠ .union members := by
    intro members hshape
    simp [hshape, Shape.isExact] at hexact
  have hrun :
      restrict owner restriction c .empty t = restrictPart owner restriction c .empty t := by
    simp [restrict, hn.isUnboundVariable_eq]
  rw [hrun, restrictPart_eq hn hunion, narrowPart_of_plain hn.isClass]
  · intro base hshape
    simp [hshape, Shape.isExact] at hexact
  · intro hshape
    simp [hshape, Shape.isExact] at hexact

/-! ## Restricting all arguments -/

/-- Restrict an argument by the parameter it is passed to. -/
def restrictParam (owner : TypeId) (param : Param) (arg : TypeId) (free : Bindings) :
    Build (Option TypeId × Bindings) :=
  match param.restriction with
  | none => pure (some arg, free)
  | some restriction => restrict owner restriction arg free

/-- Whether a parameter takes a concrete type: its restriction, if it has one, means a class
that the type descends from. -/
def acceptsArg (t : TypeTable) (owner : TypeId) (param : Param) (c : TypeId) : Bool :=
  match param.restriction with
  | none => true
  | some (.path names global) =>
    (t.lookupPath (t.lookupScope owner) names global).any (t.isSubclass c)
  | some _ => false

/-- Whether parameters take concrete types one by one. -/
def takes (t : TypeTable) (owner : TypeId) : List Param → List TypeId → Bool
  | param :: params, c :: rest => t.acceptsArg owner param c && t.takes owner params rest
  | _, _ => true

/-- Every restriction of the parameters means a class. -/
def ClassParams (t : TypeTable) (owner : TypeId) (params : List Param) : Prop :=
  ∀ param ∈ params, ∀ restriction, param.restriction = some restriction →
    ∃ target, t.NamesClass owner restriction target

theorem ClassParams.widens (h : t.ClassParams owner params) (hm : t.Matchable owner)
    (hwidens : t.Widens t') : t'.ClassParams owner params := by
  intro param hparam restriction hrestriction
  obtain ⟨target, hn⟩ := h param hparam restriction hrestriction
  exact ⟨target, hn.widens hm hwidens⟩

theorem NamesClass.acceptsArg_eq (hn : t.NamesClass owner restriction target)
    (hparam : param.restriction = some restriction) (c : TypeId) :
    t.acceptsArg owner param c = t.isSubclass c target := by
  obtain ⟨names, global, rfl, hlookup, -⟩ := hn
  simp [acceptsArg, hparam, hlookup]

theorem restrictParam_restricts (hm : t.Matchable owner) (harg : t.IsArgument arg)
    (hparam : ∀ restriction, param.restriction = some restriction →
      ∃ target, t.NamesClass owner restriction target) :
    let run := restrictParam owner param arg .empty t
    run.1.2 = .empty ∧ t.Restricts arg (t.acceptsArg owner param) run.1.1 run.2 := by
  rw [restrictParam]
  cases hrestriction : param.restriction with
  | none =>
    refine ⟨rfl, .refl t, hm.regular, ?_, fun c hconcrete => ?_⟩
    · intro k hk
      cases hk
      exact harg.known
    · simpa [acceptsArg, hrestriction] using hconcrete
  | some restriction =>
    obtain ⟨target, hn⟩ := hparam restriction hrestriction
    have haccepts : t.acceptsArg owner param = (t.isSubclass · target) := by
      funext c
      exact hn.acceptsArg_eq hrestriction c
    rw [haccepts]
    exact restrict_restricts hm harg hn

theorem restrictParam_of_isExact (hparam : ∀ restriction, param.restriction = some restriction →
      ∃ target, t.NamesClass owner restriction target) (hexact : (t.shape c).isExact = true) :
    restrictParam owner param c .empty t =
      ((if t.acceptsArg owner param c then some c else none, .empty), t) := by
  rw [restrictParam]
  cases hrestriction : param.restriction with
  | none => simp [acceptsArg, hrestriction]
  | some restriction =>
    obtain ⟨target, hn⟩ := hparam restriction hrestriction
    rw [hn.acceptsArg_eq hrestriction]
    exact restrict_of_isExact hn hexact

theorem restrictArgs_cons (owner : TypeId) (param : Param) (params : List Param) (arg : TypeId)
    (args : List TypeId) (free : Bindings) (t : TypeTable) :
    restrictArgs owner (param :: params) (arg :: args) free t =
      match restrictParam owner param arg free t with
      | ((none, bound), t1) => ((none, bound), t1)
      | ((some type, bound), t1) =>
        (((restrictArgs owner params args bound t1).1.1.map (type :: ·),
          (restrictArgs owner params args bound t1).1.2),
            (restrictArgs owner params args bound t1).2) := by
  rw [restrictArgs, restrictParam]
  cases param.restriction with
  | none => rfl
  | some restriction =>
    simp only [run_bind]
    rcases restrict owner restriction arg free t with ⟨⟨_ | type, bound⟩, t1⟩ <;> rfl

theorem matchMethod_eq (method : MethodId) (owner : TypeId) (args : List TypeId) (t : TypeTable) :
    matchMethod method owner args t =
      let run := restrictArgs owner (t.method method).decl.params args .empty t
      (run.1.1.map fun types => ⟨method, owner, types, run.1.2, .direct⟩, run.2) := rfl

theorem ClassParams.takes_eq (hp : t.ClassParams owner params) (hm : t.Matchable owner)
    (h : t.Widens t') (tuple : List TypeId) :
    t'.takes owner params tuple = t.takes owner params tuple := by
  induction params generalizing tuple with
  | nil => rfl
  | cons param params ih =>
    cases tuple with
    | nil => rfl
    | cons c rest =>
      have hfirst : t'.acceptsArg owner param c = t.acceptsArg owner param c := by
        cases hrestriction : param.restriction with
        | none => simp [acceptsArg, hrestriction]
        | some restriction =>
          obtain ⟨target, hn⟩ := hp param List.mem_cons_self restriction hrestriction
          rw [hn.acceptsArg_eq hrestriction, (hn.widens hm h).acceptsArg_eq hrestriction]
          rw [Bool.eq_iff_iff, isSubclass_iff, isSubclass_iff]
          exact h.mem_ancestors_iff hm.regular.founded hn.isClass
      have hrest := ih (List.forall_mem_cons.1 hp).2 rest
      rw [takes, takes, hfirst, hrest]

def IsTuple (t : TypeTable) : List TypeId → List TypeId → Prop :=
  List.Forall₂ fun type c => c ∈ t.concreteTypes type

theorem Widens.isTuple_iff (h : t.Widens t') (hf : t.Founded) (hf' : t'.Founded)
    (hk : ∀ type ∈ types, t.Known type) : t'.IsTuple types tuple ↔ t.IsTuple types tuple := by
  rw [IsTuple, IsTuple]
  induction types generalizing tuple with
  | nil => simp
  | cons type types ih =>
    have hfirst := fun c => h.mem_concreteTypes_iff (c := c) hf hf' (hk type List.mem_cons_self)
    have hrest : ∀ type' ∈ types, t.Known type' := (List.forall_mem_cons.1 hk).2
    cases tuple with
    | nil => simp
    | cons c rest => rw [List.forall₂_cons, List.forall₂_cons, hfirst c, ih hrest]

/-- What is left of a list of arguments has exactly the tuples that are taken. -/
structure Selects (t : TypeTable) (args : List TypeId) (taken : List TypeId → Bool)
    (kept : Option (List TypeId)) (t' : TypeTable) : Prop where
  widens : t.Widens t'
  regular : t'.Regular
  known : ∀ types, kept = some types → ∀ type ∈ types, t'.Known type
  isTuple_iff :
    ∀ tuple, t.IsTuple args tuple →
      ((∃ types, kept = some types ∧ t'.IsTuple types tuple) ↔ taken tuple = true)

theorem restrictArgs_selects (hm : t.Matchable owner) (hargs : ∀ arg ∈ args, t.IsArgument arg)
    (hp : t.ClassParams owner params) (hlength : args.length ≤ params.length) :
    let run := restrictArgs owner params args .empty t
    run.1.2 = .empty ∧ t.Selects args (t.takes owner params) run.1.1 run.2 := by
  induction params generalizing t args with
  | nil =>
    obtain rfl : args = [] := List.eq_nil_of_length_eq_zero (Nat.le_zero.1 hlength)
    refine ⟨rfl, .refl t, hm.regular, by simp [restrictArgs], fun tuple htuple => ?_⟩
    simpa [restrictArgs, takes] using htuple
  | cons param params ih =>
    cases args with
    | nil =>
      refine ⟨rfl, .refl t, hm.regular, by simp [restrictArgs], fun tuple htuple => ?_⟩
      obtain rfl : tuple = [] := by simpa [IsTuple] using htuple
      simpa [restrictArgs, takes] using htuple
    | cons arg args =>
      have harg := hargs arg List.mem_cons_self
      have hfirst := restrictParam_restricts hm harg (hp param List.mem_cons_self)
      rw [restrictArgs_cons]
      rcases hrun : restrictParam owner param arg .empty t with ⟨⟨first, bound⟩, t1⟩
      rw [hrun] at hfirst
      obtain ⟨rfl, hfirst⟩ := hfirst
      have hwidens := hfirst.widens
      have htail : t.ClassParams owner params := (List.forall_mem_cons.1 hp).2
      have hargsKnown : ∀ arg' ∈ args, t.IsArgument arg' := (List.forall_mem_cons.1 hargs).2
      have hsplit : ∀ tuple, t.IsTuple (arg :: args) tuple →
          ∃ c rest, c ∈ t.concreteTypes arg ∧ t.IsTuple args rest ∧ tuple = c :: rest :=
        fun tuple htuple => List.forall₂_cons_left_iff.1 htuple
      cases first with
      | none =>
        refine ⟨rfl, hwidens, hfirst.regular, by simp, fun tuple htuple => ?_⟩
        obtain ⟨c, rest, hc, -, rfl⟩ := hsplit tuple htuple
        have hreject := hfirst.mem_iff c hc
        simpa [takes] using fun haccepts => absurd (hreject.2 haccepts) (by simp)
      | some type =>
        obtain ⟨hfree, hlater⟩ := ih (hwidens.matchable hfirst.regular hm)
          (fun arg' harg' => hwidens.isArgument (hargsKnown arg' harg'))
          (htail.widens hm hwidens) (Nat.le_of_succ_le_succ hlength)
        have htype := hlater.widens.known (hfirst.known type rfl)
        refine ⟨hfree, hwidens.trans hlater.widens, hlater.regular, ?_, fun tuple htuple => ?_⟩
        · intro types htypes
          obtain ⟨others, hothers, rfl⟩ := Option.map_eq_some_iff.1 htypes
          exact List.forall_mem_cons.2 ⟨htype, hlater.known others hothers⟩
        · obtain ⟨c, rest, hc, hrest, rfl⟩ := hsplit tuple htuple
          have haccepts := hfirst.mem_iff c hc
          have htakes := hlater.isTuple_iff rest ((hwidens.isTuple_iff hm.regular.founded
            hfirst.regular.founded fun arg' harg' => (hargsKnown arg' harg').known).2 hrest)
          rw [htail.takes_eq hm hwidens] at htakes
          rw [takes, Bool.and_eq_true, ← haccepts, ← htakes]
          have hmem := hlater.widens.mem_concreteTypes_iff (c := c) hfirst.regular.founded
            hlater.regular.founded (hfirst.known type rfl)
          constructor
          · rintro ⟨types, htypes, htuple⟩
            obtain ⟨others, hothers, rfl⟩ := Option.map_eq_some_iff.1 htypes
            obtain ⟨hc', hrest'⟩ := List.forall₂_cons.1 htuple
            exact ⟨⟨type, rfl, hmem.1 hc'⟩, others, hothers, hrest'⟩
          · rintro ⟨⟨k, hk, hc'⟩, others, hothers, hrest'⟩
            cases hk
            exact ⟨type :: others, Option.map_eq_some_iff.2 ⟨others, hothers, rfl⟩,
              List.forall₂_cons.2 ⟨hmem.2 hc', hrest'⟩⟩

/-- Concrete arguments are all kept as they are, or rejected. -/
theorem restrictArgs_of_isExact (hp : t.ClassParams owner params)
    (hexact : ∀ c ∈ tuple, (t.shape c).isExact = true) (hlength : tuple.length ≤ params.length) :
    restrictArgs owner params tuple .empty t =
      ((if t.takes owner params tuple then some tuple else none, .empty), t) := by
  induction params generalizing tuple with
  | nil =>
    obtain rfl : tuple = [] := List.eq_nil_of_length_eq_zero (Nat.le_zero.1 hlength)
    rfl
  | cons param params ih =>
    cases tuple with
    | nil => rfl
    | cons c rest =>
      have hrest := ih (List.forall_mem_cons.1 hp).2
        (List.forall_mem_cons.1 hexact).2 (Nat.le_of_succ_le_succ hlength)
      rw [restrictArgs_cons, restrictParam_of_isExact (hp param List.mem_cons_self)
        (hexact c List.mem_cons_self), takes]
      cases t.acceptsArg owner param c with
      | false => rfl
      | true =>
        simp only [if_true, Bool.true_and, hrest]
        cases t.takes owner params rest <;> rfl

end Callsite.TypeTable
