import Callsite.Proofs.Range.Building
import Callsite.Proofs.Types.Matching

/-!
# Matches in range

Narrowing, restrictions and overload resolution find only types and methods in the table.
-/

namespace Callsite

variable {t : TypeTable} {arg owner : TypeId} {args : List TypeId} {free : Bindings}

open Sizes

namespace Sizes

instance : Ranged Match where
  Within z m := z.Holds m.method ∧ z.Holds m.owner ∧ z.Holds m.args ∧ z.Holds m.free
  mono hz h := ⟨h.1.mono hz, h.2.1.mono hz, h.2.2.1.mono hz, h.2.2.2.mono hz⟩

instance : Ranged MatchSet where
  Within z m := z.Holds m.found
  mono hz h := Holds.mono h hz

end Sizes

namespace TypeTable

open Build (Ranges)

variable {z : Sizes}

theorem InRange.keptByJoins : KeptByJoins InRange where
  known_base := fun {t type base} h hshape => by
    have hholds := h.shapes type
    rw [hshape] at hholds
    exact hholds
  known_members := fun {t type members} h hshape => by
    have hholds := h.shapes type
    rw [hshape] at hholds
    exact hholds
  hierarchy := fun {t base} h hk => by
    have hbase : t.sizes.Holds base := hk
    exact (hierarchy_ranges hbase t h (le_refl _)).2.1
  unionOf := fun {t types} h hk => by
    have htypes : t.sizes.Holds types := hk
    obtain ⟨-, hin, hunion⟩ := unionOf_ranges htypes t h (le_refl _)
    exact ⟨hin, hunion⟩

theorem restrict_ranges (owner : TypeId) (restriction : TypeExpr) (harg : z.Holds arg)
    (hfree : z.Holds free) : Ranges z (restrict owner restriction arg free) := by
  intro t ht hz
  have hjoining := restrict_joining InRange.keptByJoins ht owner restriction arg free
  refine ⟨hjoining.widens.sizes_le, hjoining.kept, ?_, ?_⟩
  · exact hjoining.post.known (harg.mono hz)
  · exact hjoining.post.free (le_refl _) (harg.mono hz) (hfree.mono hz)

theorem lookupMatches_ranges (name : String) (hasBlock : Bool) (howner : z.Holds owner)
    (hargs : z.Holds args) : Ranges z (lookupMatches owner name args hasBlock) := by
  intro t ht hz
  have hjoining := lookupMatches_joining InRange.keptByJoins ht owner args name hasBlock
  have hle := hjoining.widens.sizes_le
  refine ⟨hle, hjoining.kept, fun m hm => ?_⟩
  obtain ⟨hmem, hserves⟩ := hjoining.post m hm
  have hmethod := ht.holds_fittingMethods owner name args.length hasBlock m.method hmem
  exact ⟨hmethod.mono hle, hserves.owner_eq ▸ howner.mono (le_trans hz hle),
    hserves.known (hargs.mono hz), hserves.free (le_refl _) (hargs.mono hz)⟩

theorem constructorFor_ranges {metaType cls : TypeId} (count : Nat) {init : Match}
    (hmeta : z.Holds metaType) (hcls : z.Holds cls) (hinit : z.Holds init) :
    Ranges z (constructorFor metaType cls count init) := by
  refine .get_bind fun t ht hz => ?_
  have hparams := (holds_method.1 (ht.methods init.method).2.1).1
  have hallocation : t.sizes.Holds (t.allocation? cls init.free) := by
    unfold allocation?
    dsimp only
    split
    · exact holds_none
    · refine holds_some.2 (holds_generic.2 ⟨holds_resolved.2 (hcls.mono hz), ?_⟩)
      intro e he
      obtain ⟨name, -, rfl⟩ := List.mem_map.1 he
      exact holds_path _ _
  refine .bind (register_ranges _ (hmeta.mono hz) (holds_constructorDecl hparams hallocation)) ?_
  intro z' method hz' hmethod
  have hz := le_trans hz hz'
  exact .pure ⟨hmethod, hmeta.mono hz, (hinit.mono hz).2.2.1, (hinit.mono hz).2.2.2⟩

end TypeTable

end Callsite
