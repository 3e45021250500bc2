import Callsite.Proofs.Matching.Reading
import Callsite.Proofs.Types.Derived

/-!
# Matching in growing tables

Narrowing, restriction and overload resolution add hierarchies and unions to the table, and
nothing else.  Whatever holds of tables and is kept by joining types is kept by them, and once
they have been done they give the same in every wider table.  A match has the owner it was looked
up on, and a method without default values is matched only when every parameter gets an argument.
-/

namespace Callsite

open Sizes

variable {d : MethodDecl} {count given : Nat} {members types args : List TypeId}
variable {t t' t'' : TypeTable} {owner type base : TypeId}

/-- Whether some parameter may be left out. -/
def MethodDecl.hasDefaults (d : MethodDecl) : Bool :=
  d.params.any fun param => param.default.isSome

theorem MethodDecl.requiredParams_of_no_defaults (h : d.hasDefaults = false) :
    d.requiredParams = d.params.length := by
  rw [requiredParams, List.countP_eq_length]
  intro param hparam
  have hnone := List.any_eq_false.1 h param hparam
  simpa using hnone

theorem MethodDecl.length_of_acceptsArity (hdefaults : d.hasDefaults = false)
    (h : d.acceptsArity count = true) : d.params.length = count := by
  simp only [acceptsArity, requiredParams_of_no_defaults hdefaults, Bool.and_eq_true,
    decide_eq_true_eq] at h
  exact Nat.le_antisymm h.1 h.2

/-- A match for a call with `given` arguments, `typed` of which have a type. -/
structure Match.Fits (t : TypeTable) (typed given : Nat) (m : Match) : Prop where
  known : m.method.index < t.methods.size
  length_eq : m.args.length = typed
  arity :
    (t.method m.method).decl.hasDefaults = false →
      (t.method m.method).decl.params.length = typed ∨
        (t.method m.method).decl.params.length = given

theorem Match.Fits.grows {t t' : TypeTable} {typed : Nat} {m : Match} (h : m.Fits t typed given)
    (hg : t.Grows t') : m.Fits t' typed given := by
  refine ⟨h.known.trans_le hg.methods_le, h.length_eq, ?_⟩
  rw [hg.method m.method h.known]
  exact h.arity

namespace TypeTable

/-- A property of tables that joining types of the table keeps. -/
structure KeptByJoins (C : TypeTable → Prop) : Prop where
  known_base : ∀ {t type base}, C t → t.shape type = .hierarchy base → t.Known base
  known_members : ∀ {t type members}, C t → t.shape type = .union members →
    ∀ member ∈ members, t.Known member
  hierarchy : ∀ {t base}, C t → t.Known base → C (hierarchy base t).2
  unionOf : ∀ {t types}, C t → (∀ type ∈ types, t.Known type) →
    C (unionOf types t).2 ∧ (unionOf types t).2.Known (unionOf types t).1

end TypeTable

open TypeTable

/-- A computation adds hierarchies and unions to a table, keeps a property of the table and ends
with `Q`.  If `K` holds, it does the same once more in every table that these are added to. -/
structure Joining {α : Type} (C : TypeTable → Prop) (K : Prop) (x : Build α) (t : TypeTable)
    (Q : α → TypeTable → Prop) : Prop where
  widens : t.Widens (x t).2
  kept : C (x t).2
  post : Q (x t).1 (x t).2
  again : K → ∀ t', (x t).2.Widens t' → x t' = ((x t).1, t')

namespace Joining

variable {α β : Type} {C : TypeTable → Prop} {K K' : Prop} {x : Build α} {f : α → Build β}
variable {Q Q' : α → TypeTable → Prop} {R : β → TypeTable → Prop}

theorem pure {a : α} (ht : C t) (h : Q a t) : Joining C K (Pure.pure a) t Q :=
  ⟨.refl t, ht, h, fun _ _ _ => rfl⟩

theorem bind (hx : Joining C K x t Q)
    (hf : ∀ a t', t.Widens t' → C t' → Q a t' → Joining C K (f a) t' R) :
    Joining C K (x >>= f) t R := by
  have hrest := hf _ _ hx.widens hx.kept hx.post
  refine ⟨hx.widens.trans hrest.widens, hrest.kept, hrest.post, fun hk t' h => ?_⟩
  rw [run_bind, hx.again hk t' (hrest.widens.trans h)]
  exact hrest.again hk t' h

theorem get_bind {f : TypeTable → Build β} (hx : Joining C K (f t) t R)
    (hread : K → ∀ t', t.Widens t' → f t' = f t) : Joining C K (MonadState.get >>= f) t R where
  widens := hx.widens
  kept := hx.kept
  post := hx.post
  again := fun hk t' h => by
    rw [run_get_bind, hread hk t' (hx.widens.trans h)]
    exact hx.again hk t' h

theorem mono (hx : Joining C K x t Q) (hk : K' → K) (h : ∀ a t', t.Widens t' → Q a t' → Q' a t') :
    Joining C K' x t Q' :=
  ⟨hx.widens, hx.kept, h _ _ hx.widens hx.post, fun h' => hx.again (hk h')⟩

theorem when (hx : Joining C K x t Q) (hk : K' → K) : Joining C K' x t Q :=
  hx.mono hk fun _ _ _ h => h

theorem map {g : α → β} (hx : Joining C K x t Q) (h : ∀ a t', Q a t' → R (g a) t') :
    Joining C K (g <$> x) t R :=
  hx.bind fun a t' _ ht' ha => pure ht' (h a t' ha)

theorem extends_ (hx : Joining Founded K x t Q) : t.Extends (x t).2 :=
  ⟨hx.widens.grows, fun _ info => (hx.widens.shape_cls_iff info).1, fun _ => hx.kept⟩

end Joining

namespace TypeTable
variable {C : TypeTable → Prop} {members types : List TypeId}

theorem known_of_targetClass? {target cls : TypeId}
    (hbase : ∀ {type base}, t.shape type = .hierarchy base → t.Known base)
    (h : t.targetClass? target = some cls) : t.Known cls := by
  rw [targetClass?] at h
  split at h
  next info hshape =>
    cases h
    exact known_of_shape_ne (by simp [hshape])
  next generic args hshape =>
    cases h
    exact known_of_shape_ne (by simp [hshape])
  next base hshape =>
    cases h
    exact hbase hshape
  next => simp at h

/-- What is kept of a type in the table is in the table. -/
def KeepsKnown (t : TypeTable) (type : TypeId) (kept : Option TypeId) (t' : TypeTable) : Prop :=
  t.Known type → ∀ part, kept = some part → t'.Known part

theorem keepsKnown_some_self : t.KeepsKnown type (some type) t := by
  intro hk part hpart
  cases hpart
  exact hk

theorem keepsKnown_none : t.KeepsKnown type none t := by
  intro _ part hpart
  simp at hpart

theorem keepsKnown_ite {c : Prop} [Decidable c] :
    t.KeepsKnown type (if c then some type else none) t := by
  split
  · exact keepsKnown_some_self
  · exact keepsKnown_none

section

variable (hC : KeptByJoins C) (ht : C t)
include hC ht

theorem hierarchy_joining (hk : t.Known base) :
    Joining C True (hierarchy base) t fun type t' => t'.Known type where
  widens := hierarchy_widens base
  kept := hC.hierarchy ht hk
  post := known_of_find? (hierarchy_builds hk).2
  again := fun _ _ h =>
    intern_of_find? (h.grows.find?_eq_some (by simp) (by simp) (hierarchy_builds hk).2)

theorem unionOf_joining (hk : ∀ type ∈ types, t.Known type) :
    Joining C (C ≤ Founded) (unionOf types) t fun type t' => t'.Known type where
  widens := unionOf_widens types t
  kept := (hC.unionOf ht hk).1
  post := (hC.unionOf ht hk).2
  again := fun hf _ h => unionOf_again (hf t ht) hk h.grows

theorem narrowPart_joining (part target : TypeId) :
    Joining C (C ≤ Founded ∧ t.Known part ∧ t.Known target) (narrowPart part target) t
      (t.KeepsKnown part) := by
  refine .get_bind ?_ ?_
  · split
    · exact .pure ht keepsKnown_some_self
    split
    next base _ =>
      split
      next => exact .pure ht keepsKnown_none
      next cls hcls =>
        split
        · exact .pure ht keepsKnown_some_self
        split
        · refine ((hierarchy_joining hC ht (known_of_targetClass? (hC.known_base ht) hcls)).mono
            (fun _ => trivial) fun _ _ _ h => h).map ?_
          rintro merged t' hk _ part ⟨⟩
          exact hk
        · exact .pure ht keepsKnown_none
    next =>
      split
      · exact .pure ht keepsKnown_ite
      · exact .pure ht keepsKnown_ite
      · exact .pure ht keepsKnown_none
    next =>
      split
      · exact .pure ht keepsKnown_ite
      · exact .pure ht keepsKnown_ite
      · exact .pure ht keepsKnown_none
    next => exact .pure ht keepsKnown_some_self
    next =>
      split
      next => exact .pure ht keepsKnown_none
      next => exact .pure ht keepsKnown_ite
  · rintro ⟨hf, hpart, htarget⟩ t' h
    have hf := hf t ht
    have hsub : ∀ {a}, t.Known a → t'.isSubclass a = t.isSubclass a :=
      fun hk => funext fun b => h.grows.isSubclass_eq hf hk b
    simp only [targetClass?, h.shape_eq part hpart, h.shape_eq target htarget]
    have hbelow := hf.below part hpart
    cases hs : t.shape part with
    | hierarchy base =>
      rw [hs] at hbelow
      cases htt : t.shape target with
      | hierarchy cls =>
        simp only [hsub (hbelow.trans hpart), hsub (hf.known_of_hierarchy htt)]
      | _ => simp only [hsub (hbelow.trans hpart), hsub htarget]
    | metaclass cls | hierarchyMetaclass cls =>
      rw [hs] at hbelow
      simp only [hsub (hbelow.trans hpart)]
    | _ => simp only [hsub hpart]

theorem unionOfKept_joining {kept : List TypeId} (hk : ∀ part ∈ kept, t.Known part) :
    Joining C (C ≤ Founded) (unionOfKept kept) t fun union t' =>
      ∀ type, union = some type → t'.Known type := by
  cases kept with
  | nil => exact .pure ht (by simp)
  | cons part kept =>
    refine (unionOf_joining hC ht hk).map ?_
    rintro type t' hknown _ ⟨⟩
    exact hknown

theorem narrowMembers_joining (target : TypeId) (hk : ∀ member ∈ members, t.Known member) :
    Joining C (C ≤ Founded ∧ t.Known target) (narrowMembers target members) t fun kept t' =>
      ∀ part ∈ kept, t'.Known part := by
  induction members generalizing t with
  | nil => exact .pure ht (by simp)
  | cons member rest ih =>
    obtain ⟨hmember, hrest⟩ := List.forall_mem_cons.1 hk
    refine ((narrowPart_joining hC ht member target).when fun h => ⟨h.1, hmember, h.2⟩).bind
      fun kept t1 h1 ht1 hkept => ?_
    refine ((ih ht1 fun other h => h1.known (hrest other h)).when
      fun h => ⟨h.1, h1.known h.2⟩).bind fun others t2 h2 ht2 hothers => ?_
    refine .pure ht2 (List.forall_mem_append.2 ⟨fun part hpart => ?_, hothers⟩)
    exact h2.known (hkept hmember part (by simpa using hpart))

theorem narrowTo_joining (arg target : TypeId) :
    Joining C (C ≤ Founded ∧ t.Known arg ∧ t.Known target) (narrowTo arg target) t
      (t.KeepsKnown arg) := by
  unfold narrowTo
  split
  · exact .pure ht keepsKnown_some_self
  refine .get_bind ?_ fun hk t' h => ?_
  · split
    next members hshape =>
      refine ((narrowMembers_joining hC ht target (hC.known_members ht hshape)).when
        fun h => ⟨h.1, h.2.2⟩).bind fun kept t1 h1 ht1 hkept => ?_
      exact (unionOfKept_joining hC ht1 hkept).mono And.left fun _ _ _ hknown _ => hknown
    next => exact narrowPart_joining hC ht arg target
  · simp only [h.shape_eq arg hk.2.1]

end

theorem Widens.sizes_le (h : t.Widens t') : t.sizes ≤ t'.sizes :=
  { le_refl t.sizes with
    types := h.size_le
    methods := (congrArg MethodTable.size h.methods_eq.symm).le }

theorem Widens.backs (h : t.Widens t') (hk : t.Known owner) (hb : t.Backs owner) :
    t'.Backs owner := by
  intro base hshape
  rw [h.shape_eq owner hk] at hshape
  obtain ⟨whole, hwhole⟩ := hb base hshape
  exact ⟨whole, h.shape_hierarchy hwhole⟩

/-- All that restrictions of `owner` are read from is in the table, and stays there. -/
structure Readable (C : TypeTable → Prop) (t : TypeTable) (owner : TypeId)
    (free : Bindings) : Prop where
  founded : C ≤ Founded
  inRange : C ≤ InRange
  backs : t.Backs owner
  known : t.Known owner
  free : t.sizes.Holds free

theorem Readable.later {free bound : Bindings} (h : Readable C t owner free) (hw : t.Widens t')
    (hbound : t'.sizes.Holds bound) : Readable C t' owner bound :=
  ⟨h.founded, h.inRange, hw.backs h.known h.backs, hw.known h.known, hbound⟩

theorem Readable.readsAlike {free : Bindings} (h : Readable C t owner free) (ht : C t)
    (hw : t.Widens t') : t.ReadsAlike t' owner :=
  hw.preserves.readsAlike (h.founded t ht) h.known h.backs hw.grows

/-- What is left of a type in the table, and what names are bound to, is in the table. -/
structure Retains (C : TypeTable → Prop) (t : TypeTable) (part : TypeId)
    (free : Bindings) (kept : Option TypeId × Bindings) (t' : TypeTable) : Prop where
  known : t.KeepsKnown part kept.1 t'
  free : C ≤ InRange → t.Known part → t.sizes.Holds free → t'.sizes.Holds kept.2

section

variable (hC : KeptByJoins C) (ht : C t) (owner : TypeId) (restriction : TypeExpr)
include hC ht

theorem restrictPart_joining (part : TypeId) (free : Bindings) :
    Joining C (Readable C t owner free ∧ t.sizes.Holds restriction ∧ t.Known part)
      (restrictPart owner restriction part free) t (Retains C t part free) := by
  have hnarrow : ∀ target, (C ≤ InRange → t.sizes.Holds restriction → t.Known owner →
      t.sizes.Holds free → t.Known target) →
      Joining C (Readable C t owner free ∧ t.sizes.Holds restriction ∧ t.Known part)
        (do pure (← narrowTo part target, free)) t (Retains C t part free) := by
    intro target htarget
    refine ((narrowTo_joining hC ht part target).when fun ⟨h, hr, hk⟩ =>
      ⟨h.founded, hk, htarget h.inRange hr h.known h.free⟩).bind fun kept t1 h1 ht1 hkept => ?_
    exact .pure ht1 ⟨hkept, fun _ _ hfree => hfree.mono (h1.sizes_le)⟩
  have hkeep : ∀ {kept}, t.KeepsKnown part kept t → Retains C t part free (kept, free) t :=
    fun hkept => ⟨hkept, fun _ _ hfree => hfree⟩
  have hagrees : ∀ e, Retains C t part free (if (t.agrees owner e part free).1 then some part
      else none, (t.agrees owner e part free).2) t := fun e =>
    ⟨keepsKnown_ite, fun hin hk hfree =>
      ((ReadsAlike.refl t owner).agrees (hin t ht) e part free hk hfree).2⟩
  refine .get_bind ?_ ?_
  · split
    next name =>
      split
      next type htype =>
        refine hnarrow type fun hin _ _ hfree => ?_
        exact ((hfree.get? name).orElse ((hin t ht).holds_meaning? owner name)) type htype
      next =>
        refine .pure ht ⟨keepsKnown_some_self, fun _ hk hfree => ?_⟩
        exact hfree.insert name (holds_iff_known.2 hk)
    next names global _ =>
      split
      next type htype =>
        exact hnarrow type fun hin _ _ _ => (hin t ht).holds_lookupPath _ _ _ type htype
      next => exact .pure ht (hkeep keepsKnown_none)
    next => exact hnarrow _ fun hin _ hk _ => (hin t ht).holds_instanceType hk
    next type => exact hnarrow type fun _ hr _ _ => holds_resolved.1 hr
    next head args => exact .pure ht (hagrees (.generic head args))
    next inputs output => exact .pure ht (hagrees (.function inputs output))
  · rintro ⟨h, -, hk⟩ t' hw
    have hreads := h.readsAlike ht hw
    simp only [hreads.meaning?_eq, hreads.path_eq, hreads.instanceType_eq,
      (hreads.agrees (h.inRange t ht) _ part free hk h.free).1]

theorem restrictMembers_joining (free : Bindings) (hk : ∀ member ∈ members, t.Known member) :
    Joining C (Readable C t owner free ∧ t.sizes.Holds restriction)
      (restrictMembers owner restriction members free) t fun kept t' =>
        (∀ part ∈ kept.1, t'.Known part) ∧
          (C ≤ InRange → t.sizes.Holds free → t'.sizes.Holds kept.2) := by
  induction members generalizing t free with
  | nil => exact .pure ht ⟨by simp, fun _ hfree => hfree⟩
  | cons member rest ih =>
    obtain ⟨hmember, hrest⟩ := List.forall_mem_cons.1 hk
    refine ((restrictPart_joining hC ht owner restriction member free).when
      fun h => ⟨h.1, h.2, hmember⟩).bind fun kept t1 h1 ht1 hkept => ?_
    refine ((ih ht1 kept.2 fun other h => h1.known (hrest other h)).when fun h =>
      ⟨h.1.later h1 (hkept.free h.1.inRange hmember h.1.free), h.2.mono (h1.sizes_le)⟩).bind ?_
    intro others t2 h2 ht2 hothers
    refine .pure ht2 ⟨List.forall_mem_append.2 ⟨fun part hpart => ?_, hothers.1⟩,
      fun hin hbound => ?_⟩
    · exact h2.known (hkept.known hmember part (by simpa using hpart))
    · exact hothers.2 hin (hkept.free hin hmember hbound)

theorem restrict_joining (arg : TypeId) (free : Bindings) :
    Joining C (Readable C t owner free ∧ t.sizes.Holds restriction ∧ t.Known arg)
      (restrict owner restriction arg free) t (Retains C t arg free) := by
  refine .get_bind ?_ ?_
  · have hpart := restrictPart_joining hC ht owner restriction arg free
    split
    · exact hpart
    split
    next members hshape =>
      refine ((restrictMembers_joining hC ht owner restriction free
        (hC.known_members ht hshape)).when
        fun h => ⟨h.1, h.2.1⟩).bind fun kept t1 h1 ht1 hkept => ?_
      refine ((unionOfKept_joining hC ht1 hkept.1).when fun h => h.1.founded).bind ?_
      intro union t2 h2 ht2 hknown
      exact .pure ht2 ⟨fun _ => hknown, fun hin _ hfree => (hkept.2 hin hfree).mono (h2.sizes_le)⟩
    next => exact hpart
  · rintro ⟨h, -, hk⟩ t' hw
    have hreads := h.readsAlike ht hw
    have hunbound : t'.isUnboundVariable owner restriction free =
        t.isUnboundVariable owner restriction free := by
      simp only [isUnboundVariable, hreads.meaning?_eq]
    rw [hunbound, hw.shape_eq arg hk]

end

/-- What is left of arguments in the table is in the table, one type for each parameter. -/
structure RetainsAll (C : TypeTable → Prop) (t : TypeTable) (count : Nat)
    (args : List TypeId) (free : Bindings) (kept : Option (List TypeId) × Bindings)
    (t' : TypeTable) : Prop where
  length_eq : ∀ types, kept.1 = some types → types.length = min count args.length
  known : (∀ arg ∈ args, t.Known arg) → ∀ types, kept.1 = some types → ∀ type ∈ types, t'.Known type
  free : C ≤ InRange → (∀ arg ∈ args, t.Known arg) → t.sizes.Holds free →
    t'.sizes.Holds kept.2

theorem restrictArgs_joining (hC : KeptByJoins C) (ht : C t) (owner : TypeId) (params : List Param)
    (args : List TypeId) (free : Bindings) :
    Joining C (Readable C t owner free ∧ t.sizes.Holds params ∧ ∀ arg ∈ args, t.Known arg)
      (restrictArgs owner params args free) t (RetainsAll C t params.length args free) := by
  induction params generalizing t args free with
  | nil => exact .pure ht ⟨by simp, by simp, fun _ _ h => h⟩
  | cons param params ih =>
    cases args with
    | nil => exact .pure ht ⟨by simp, by simp, fun _ _ h => h⟩
    | cons arg args =>
      have hrest :
          ∀ type bound t1, t.Widens t1 → C t1 → Retains C t arg free (some type, bound) t1 →
          Joining C (Readable C t owner free ∧ t.sizes.Holds (param :: params) ∧
              ∀ arg' ∈ arg :: args, t.Known arg')
            (restrictArgs owner params args bound >>= fun rest =>
              pure (rest.1.map (type :: ·), rest.2)) t1
            (RetainsAll C t (params.length + 1) (arg :: args) free) := by
        intro type bound t1 h1 ht1 hretains
        have hks : (∀ arg' ∈ arg :: args, t.Known arg') → ∀ arg' ∈ args, t1.Known arg' :=
          fun hk arg' h' => h1.known (hk arg' (List.mem_cons_of_mem arg h'))
        refine ((ih ht1 args bound).when fun ⟨h, hparams, hk⟩ =>
          ⟨h.later h1 (hretains.free h.inRange (hk arg List.mem_cons_self) h.free),
            (holds_cons.1 hparams).2.mono (h1.sizes_le), hks hk⟩).bind ?_
        intro rest t2 h2 ht2 hlater
        refine .pure ht2 ⟨fun types htypes => ?_, fun hk types htypes => ?_, fun hin hk hfree => ?_⟩
        · obtain ⟨others, hothers, rfl⟩ := Option.map_eq_some_iff.1 htypes
          simp [hlater.length_eq others hothers, Nat.succ_min_succ]
        · obtain ⟨others, hothers, rfl⟩ := Option.map_eq_some_iff.1 htypes
          exact List.forall_mem_cons.2
            ⟨h2.known (hretains.known (hk arg List.mem_cons_self) type rfl),
            hlater.known (hks hk) others hothers⟩
        · exact hlater.free hin (hks hk) (hretains.free hin (hk arg List.mem_cons_self) hfree)
      unfold restrictArgs
      cases hr : param.restriction with
      | none => exact hrest arg free t (.refl t) ht ⟨keepsKnown_some_self, fun _ _ h => h⟩
      | some restriction =>
        have hparam : t.sizes.Holds (param :: params) → t.sizes.Holds restriction :=
          fun hparams => (holds_param.1 (holds_cons.1 hparams).1).2 restriction hr
        refine ((restrict_joining hC ht owner restriction arg free).when fun ⟨h, hparams, hk⟩ =>
          ⟨h, hparam hparams, hk arg List.mem_cons_self⟩).bind fun first t1 h1 ht1 hfirst => ?_
        obtain ⟨_ | type, bound⟩ := first
        · refine .pure ht1 ⟨by simp, by simp, fun hin hk hfree => ?_⟩
          exact hfirst.free hin (hk arg List.mem_cons_self) hfree
        · exact hrest type bound t1 h1 ht1 hfirst


/-- A match that was found in the table `t` for arguments in the table. -/
structure Serves (C : TypeTable → Prop) (t : TypeTable) (owner : TypeId)
    (args : List TypeId) (m : Match) (t' : TypeTable) : Prop where
  owner_eq : m.owner = owner
  length_eq : m.args.length = min (t'.method m.method).decl.params.length args.length
  known : (∀ arg ∈ args, t.Known arg) → ∀ type ∈ m.args, t'.Known type
  free : C ≤ InRange → (∀ arg ∈ args, t.Known arg) → t'.sizes.Holds m.free

theorem Serves.later {t'' : TypeTable} {args : List TypeId} {m : Match}
    (h : Serves C t owner args m t') (hw : t'.Widens t'') : Serves C t owner args m t'' where
  owner_eq := h.owner_eq
  length_eq := by rw [hw.method_eq, h.length_eq]
  known := fun hk type htype => hw.known (h.known hk type htype)
  free := fun hin hk => (h.free hin hk).mono (hw.sizes_le)

theorem Serves.earlier {t'' : TypeTable} {args : List TypeId} {m : Match}
    (h : Serves C t' owner args m t'') (hw : t.Widens t') : Serves C t owner args m t'' where
  owner_eq := h.owner_eq
  length_eq := h.length_eq
  known := fun hk => h.known fun arg harg => hw.known (hk arg harg)
  free := fun hin hk => h.free hin fun arg harg => hw.known (hk arg harg)

section
variable (hC : KeptByJoins C) (ht : C t) (owner : TypeId) (args : List TypeId)
include hC ht

theorem matchMethod_joining (method : MethodId) :
    Joining C (Readable C t owner .empty ∧ ∀ arg ∈ args, t.Known arg)
      (matchMethod method owner args) t fun found t' =>
        ∀ m, found = some m → m.method = method ∧ Serves C t owner args m t' := by
  refine .get_bind ?_ fun _ t' hw => by simp only [hw.method_eq]
  refine ((restrictArgs_joining hC ht owner _ args .empty).when fun ⟨h, hk⟩ =>
    ⟨h, (holds_method.1 ((h.inRange t ht).methods method).2.1).1, hk⟩).bind ?_
  intro restricted t1 h1 ht1 hretains
  refine .pure ht1 fun m hm => ?_
  obtain ⟨types, htypes, rfl⟩ := Option.map_eq_some_iff.1 hm
  refine ⟨rfl, rfl, ?_, fun hk => hretains.known hk types htypes, fun hin hk => ?_⟩
  · rw [h1.method_eq]
    exact hretains.length_eq types htypes
  · exact hretains.free hin hk holds_emptyMap

theorem collectMatches_joining (candidates : List MethodId) (cover : Cover) :
    Joining C False (collectMatches owner args candidates cover) t fun found t' =>
      ∀ m ∈ found.1, m.method ∈ candidates ∧ Serves C t owner args m t' := by
  induction candidates generalizing t cover with
  | nil => exact .pure ht (by simp)
  | cons candidate rest ih =>
    unfold collectMatches
    split
    · exact .pure ht (by simp)
    refine ((matchMethod_joining hC ht owner args candidate).when False.elim).bind ?_
    intro found t1 h1 ht1 hfound
    split
    next =>
      refine (ih ht1 cover).mono id fun _ _ _ hothers m hm => ?_
      exact ⟨List.mem_cons_of_mem candidate (hothers m hm).1, (hothers m hm).2.earlier h1⟩
    next m0 =>
      refine .get_bind ((ih ht1 _).bind fun others t2 h2 ht2 hothers => .pure ht2 ?_) False.elim
      intro m hm
      have hcases : m = m0 ∨ m ∈ others.1 := by
        split at hm
        · exact List.mem_cons.1 hm
        · exact Or.inr hm
      rcases hcases with rfl | hmem
      · obtain ⟨rfl, hserves⟩ := hfound m rfl
        exact ⟨List.mem_cons_self, hserves.later h2⟩
      · exact ⟨List.mem_cons_of_mem candidate (hothers m hmem).1, (hothers m hmem).2.earlier h1⟩

theorem lookupMatches_joining (name : String) (hasBlock : Bool) :
    Joining C False (lookupMatches owner name args hasBlock) t fun set t' => ∀ m ∈ set.found,
      m.method ∈ t.fittingMethods owner name args.length hasBlock ∧
        Serves C t owner args m t' :=
  .get_bind ((collectMatches_joining hC ht owner args _ _).bind fun _ _ _ ht1 hfound =>
    .pure ht1 hfound) False.elim

end
/-! ## Lookup in founded tables -/

theorem Founded.keptByJoins : KeptByJoins Founded where
  known_base := fun hf hshape => hf.known_of_hierarchy hshape
  known_members := fun hf hshape => hf.known_of_mem_union hshape
  hierarchy := fun hf hk => (hierarchy_builds hk).1.founded hf
  unionOf := fun hf hk => ⟨(unionOf_builds hf hk).1.founded hf, (unionOf_builds hf hk).2⟩

/-- What a type answers to is the own method of some type. -/
theorem own_of_mem_methodsNamed {owner : TypeId} {name : String} {id : MethodId}
    (h : id ∈ t.methodsNamed owner name) : ∃ type, id ∈ t.methods.own type name := by
  have hown : ∀ chain : List TypeId, id ∈ chain.flatMap (t.methods.own · name) →
      ∃ type, id ∈ t.methods.own type name := by
    intro chain hchain
    obtain ⟨type, -, hid⟩ := List.mem_flatMap.1 hchain
    exact ⟨type, hid⟩
  rw [methodsNamed] at h
  split at h
  next => simp at h
  next nearest above _ =>
    rcases List.mem_append.1 h with h | h
    · exact ⟨nearest, h⟩
    · split at h
      · exact hown above (List.mem_filter.1 h).1
      · exact hown above h

/-- The matches found by lookup fit any call that passes the arguments. -/
theorem lookupMatches_builds (hf : t.Founded) (owner : TypeId) (name : String)
    (args : List TypeId) (hasBlock : Bool) (given : Nat) :
    Builds (lookupMatches owner name args hasBlock) t fun set t' =>
      ∀ m ∈ set.found, m.owner = owner ∧ m.Fits t' args.length given := by
  have hjoining := lookupMatches_joining Founded.keptByJoins hf owner args name hasBlock
  refine ⟨hjoining.extends_, fun m hm => ?_⟩
  obtain ⟨hmem, hserves⟩ := hjoining.post m hm
  obtain ⟨hnamed, haccepts⟩ := List.mem_filter.1 hmem
  obtain ⟨type, hown⟩ := own_of_mem_methodsNamed hnamed
  simp only [Method.accepts, Bool.and_eq_true] at haccepts
  have harity := haccepts.1
  simp only [MethodDecl.acceptsArity, Bool.and_eq_true, decide_eq_true_eq] at harity
  have hfits : m.Fits t args.length given :=
    ⟨hf.slots m.method (List.mem_filter.1 hown).1,
      by rw [hserves.length_eq, hjoining.widens.method_eq, Nat.min_eq_right harity.2],
      fun hdefaults => Or.inl (MethodDecl.length_of_acceptsArity hdefaults haccepts.1)⟩
  exact ⟨hserves.owner_eq, hfits.grows hjoining.widens.grows⟩

/-! ## Generated methods -/

theorem length_params_constructorDecl (count : Nat) (params : List Param)
    (allocated : Option TypeExpr) :
    (constructorDecl count params allocated).params.length = count := by
  simp [constructorDecl, MethodDecl.generated, argNames]

theorem length_params_forwarderDecl (name : String) (count : Nat) :
    (forwarderDecl name count).params.length = count := by
  simp [forwarderDecl, MethodDecl.generated, argNames]

theorem constructorFor_builds {init : Match} (metaType cls : TypeId)
    (hcount : init.args.length = count) :
    Builds (constructorFor metaType cls count init) t fun m t' =>
      m.owner = metaType ∧ m.Fits t' count given := by
  refine Builds.get_bind ?_
  refine (register_builds metaType _ .constructor).bind fun method t1 _ hmethod => ?_
  refine Builds.pure ⟨rfl, hmethod.1, hcount, fun _ => Or.inl ?_⟩
  rw [hmethod.2]
  exact length_params_constructorDecl _ _ _

end TypeTable

end Callsite
