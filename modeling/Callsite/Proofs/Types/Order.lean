import Callsite.Proofs.Types.Join

/-!
# The order of types

A type lies under another one when that absorbs all of its parts.  Inference joins
types while the table grows, so the order and joins are taken in a table together with
all later ones.
-/

namespace Callsite.TypeTable

variable {t t' : TypeTable} {u v w x : TypeId} {types : List TypeId}

/-- The type `u` lies under `w`, in this table and in later ones. -/
def Under (t : TypeTable) (u w : TypeId) : Prop :=
  ∀ t', t.Widens t' → t'.Regular → t'.AbsorbsAll (t'.parts w) (t'.parts u)

/-- The type `u` is the join of the given ones, in this table and in later ones. -/
def Joins (t : TypeTable) (types : List TypeId) (u : TypeId) : Prop :=
  ∀ t', t.Widens t' → t'.Regular → t'.IsJoin types u

namespace Under

theorem later (h : t.Under u w) (hwidens : t.Widens t') : t'.Under u w :=
  fun t'' hlater hregular => h t'' (hwidens.trans hlater) hregular

theorem refl (t : TypeTable) (u : TypeId) : t.Under u u :=
  fun t' _ _ => .refl t' _

theorem trans (h : t.Under u v) (h' : t.Under v w) (hc : t.OverClasses) (hk : t.Known u) :
    t.Under u w := by
  intro t' hwidens hregular
  have hparts : ∀ part ∈ t'.parts u, t'.Known part :=
    fun part hpart => hregular.founded.known_of_mem_parts (hwidens.known hk) hpart
  exact (h' t' hwidens hregular).trans (h t' hwidens hregular) hregular.founded
    (hwidens.overClasses hc) hparts

/-- Types that lie under each other are the same. -/
theorem antisymm (h : t.Under u v) (h' : t.Under v u) (hregular : t.Regular) (hc : t.OverClasses)
    (hu : t.Known u) (hv : t.Known v) : u = v := by
  have hparts : ∀ part ∈ t.parts v, t.Known part :=
    fun part hpart => hregular.founded.known_of_mem_parts hv hpart
  have hjoin : t.IsJoin [u] v := by
    refine ⟨hv, ?_, fun normal hknown hapart habsorbs => ?_⟩
    · simpa using h t (.refl t) hregular
    · exact (habsorbs u (by simp)).trans (h' t (.refl t) hregular) hregular.founded hc hparts
  exact (IsJoin.self hu).unique hjoin hregular hc fun _ => Iff.rfl

end Under

namespace Joins

theorem later (h : t.Joins types u) (hwidens : t.Widens t') : t'.Joins types u :=
  fun t'' hlater hregular => h t'' (hwidens.trans hlater) hregular

theorem under (h : t.Joins types u) (hx : x ∈ types) : t.Under x u :=
  fun t' hwidens hregular => (h t' hwidens hregular).absorbs x hx

theorem least (h : t.Joins types u) (hw : t.Known w) (hunder : ∀ x ∈ types, t.Under x w) :
    t.Under u w := by
  intro t' hwidens hregular
  have hparts : ∀ part ∈ t'.parts w, t'.Known part :=
    fun part hpart => hregular.founded.known_of_mem_parts (hwidens.known hw) hpart
  exact (h t' hwidens hregular).least (t'.parts w) hparts (hregular.parts_apart w)
    fun x hx => hunder x hx t' hwidens hregular

end Joins

theorem Regular.unionOf_joins (h : t.Regular) (hc : t.OverClasses)
    (hk : ∀ type ∈ types, t.Known type) :
    (TypeTable.unionOf types t).2.Joins types (TypeTable.unionOf types t).1 :=
  fun _ hwidens hregular => h.unionOf_isJoin hk hwidens.grows hregular
    ((unionOf_widens types t).trans hwidens |>.overClasses hc)

end Callsite.TypeTable
