import Callsite.Proofs.Engine.Foreign

/-!
# Looking for matches by moves

Only the table of types changes while the matches of a call are looked for, and every match
accepts as many arguments as the call passes.
-/

namespace Callsite

open TypeTable

variable {selfType : Option TypeId}

variable {s : Session} {A : Agenda} {O : Set CallId} {call : CallId} {owner : TypeId} {typed : Nat}

/-- Matches for a call on an owner, where `typed` arguments have a type.  Without a receiver they
may be methods of the program instead. -/
def MatchSet.Fits (s : Session) (call : CallId) (owner : TypeId) (typed : Nat) (set : MatchSet) :
    Prop :=
  ∀ m ∈ set.found,
    ((s.call call).receiver ≠ none → m.owner = owner) ∧
      m.Fits s.types typed (s.call call).args.length

/-- Matches that were looked for from the session `s`, which has changed only its types since. -/
structure MatchSet.FoundFrom (s : Session) (call : CallId) (owner : TypeId) (typed : Nat)
    (set : MatchSet) (s' : Session) : Prop where
  retyped : ∃ t, s' = { s with types := t } ∧ s.types.Extends t
  fits : set.Fits s' call owner typed

/-- All arguments of a call that passes the type of `self` on have a type. -/
def Session.PassesSelf (s : Session) (call : CallId) (selfType : Option TypeId) : Prop :=
  selfType.isSome = true →
    (s.call call).receiver = none ∧ ∀ arg ∈ (s.call call).argNodes, s.typeOf arg ≠ none

theorem Session.Before.passesSelf {s' : Session} (hb : s.Before s') (hcall : s.HasCall call)
    (h : s.PassesSelf call selfType) : s'.PassesSelf call selfType := by
  intro hself
  obtain ⟨hreceiver, htyped⟩ := h hself
  have hlater := hb.call call hcall
  refine ⟨hlater.receiver.trans hreceiver, fun arg harg => hb.flow.typed arg (htyped arg ?_)⟩
  rwa [CallSite.argNodes, ← hlater.args hreceiver]

theorem Session.length_argTypes_le (s : Session) (call : CallId) :
    (s.argTypes call).length ≤ (s.call call).args.length := by
  refine (List.length_filterMap_le _ _).trans ?_
  exact (List.length_map _).le

theorem Session.PassesSelf.length_argTypes (h : s.PassesSelf call selfType)
    (hself : selfType.isSome = true) : (s.argTypes call).length = (s.call call).args.length := by
  have htyped := (h hself).2
  have hall : (s.argTypes call).length = (s.call call).argNodes.length := by
    rw [Session.argTypes, List.length_filterMap_eq_countP, List.countP_eq_length]
    exact fun arg harg => Option.isSome_iff_ne_none.2 (htyped arg harg)
  exact hall.trans (List.length_map _)

theorem Match.Fits.suits {m : Match} (h : m.Fits s.types typed (s.call call).args.length)
    (hle : typed ≤ (s.call call).args.length)
    (heq : selfType.isSome = true → typed = (s.call call).args.length) :
    m.Suits s call selfType where
  arity := fun block => {
    known := h.known
    le := fun homit => by
      rcases h.arity homit with hlength | hlength
      · exact (h.length_eq.trans hlength.symm).le
      · exact (h.length_eq.le).trans (hlength ▸ hle)
    eq_of_super := fun homit hself => by
      rcases h.arity homit with hlength | hlength
      · exact h.length_eq.trans hlength.symm
      · exact (h.length_eq.trans (heq hself)).trans hlength.symm }
  passed := fun hdefaults => by
    rcases h.arity hdefaults with hlength | hlength
    · exact hlength ▸ hle
    · exact hlength.le

theorem MatchSet.Fits.grows {set : MatchSet} {t : TypeTable}
    (h : set.Fits s call owner typed) (hg : s.types.Grows t) :
    set.Fits { s with types := t } call owner typed :=
  fun m hm => ⟨(h m hm).1, (h m hm).2.grows hg⟩

theorem MatchSet.FoundFrom.after {s' : Session} {set : MatchSet} {t : TypeTable}
    (h : set.FoundFrom { s with types := t } call owner typed s') (hext : s.types.Extends t) :
    set.FoundFrom s call owner typed s' := by
  obtain ⟨⟨t', rfl, hext'⟩, hfits⟩ := h
  exact ⟨⟨t', rfl, hext.trans hext'⟩, hfits⟩

namespace Infer

theorem failUnresolved_leads {α : Type} {A' : Agenda} {Q : α → Session → Prop} (owner : TypeId)
    (name : String) (found : MatchSet) : Leads O (failUnresolved call owner name found) s A A' Q :=
  Leads.get_bind (Leads.throw _)

variable (hs : s.Tended A)
include hs

theorem lookupMatches_leads (owner : TypeId) (name : String) (args : List TypeId) (hasBlock : Bool)
    (given : Nat) :
    Leads O (build (lookupMatches owner name args hasBlock)) s A A fun found s' =>
      ∃ t, s' = { s with types := t } ∧ s.types.Extends t ∧
        ∀ m ∈ found.found, m.owner = owner ∧ m.Fits t args.length given :=
  build_leads hs (lookupMatches_builds hs.types owner name args hasBlock given)

theorem defineConstructors_leads (metaType : TypeId) (args : List TypeId) :
    Leads O (defineConstructors call metaType args) s A A
      (MatchSet.FoundFrom s call metaType args.length) := by
  refine Leads.get_bind ?_
  dsimp only
  refine (lookupMatches_leads hs _ "initialize" args _ 0).next hs
    fun inits s1 h1 hs1 ⟨t1, heq1, hext1, hinits⟩ => ?_
  subst heq1
  have hallocator : Leads O (do
      let method ← build (register metaType allocatorDecl .constructor)
      pure (MatchSet.complete [⟨method, metaType, [], .empty, .constructor⟩] metaType))
      { s with types := t1 } A A (MatchSet.FoundFrom s call metaType 0) := by
    refine (build_leads hs1 (register_builds _ _ _)).bind
      fun method s2 _ ⟨t2, heq2, hext2, hknown, hdecl⟩ => ?_
    subst heq2
    refine .pure ⟨⟨t2, rfl, hext1.trans hext2⟩, fun m hm => ⟨fun _ => ?_, ?_⟩⟩
    · rw [List.mem_singleton.1 hm]
    · rw [List.mem_singleton.1 hm]
      refine ⟨hknown, rfl, fun _ => Or.inl ?_⟩
      rw [hdecl]
      rfl
  split
  next =>
    refine (build_leads hs1 (Builds.mapM (P := fun m t => m.owner = metaType ∧
      m.Fits t args.length (s.call call).args.length) ?_ inits.found fun init hinit t _ => ?_)).bind
      fun found s2 _ ⟨t2, heq2, hext2, hfound⟩ => ?_
    · exact fun m t t' hext hm => ⟨hm.1, hm.2.grows hext.grows⟩
    · exact constructorFor_builds _ _ (hinits init hinit).2.length_eq
    · subst heq2
      exact .pure ⟨⟨t2, rfl, hext1.trans hext2⟩,
        fun m hm => ⟨fun _ => (hfound m hm).1, (hfound m hm).2⟩⟩
  next =>
    refine Leads.get_bind ?_
    split
    next => exact Leads.get_bind (.throw _)
    next =>
      split
      next => exact .fail_bind _ _
      next hargs =>
        obtain rfl : args = [] := by simpa using hargs
        exact hallocator

theorem defineForwarder_leads (owner : TypeId) (name : String) (args : List TypeId) :
    Leads O (defineForwarder call owner name args) s A A
      (MatchSet.FoundFrom s call owner args.length) := by
  refine Leads.get_bind ?_
  refine (build_leads hs (register_builds _ _ _)).bind
    fun method s1 _ ⟨t1, heq1, hext1, hknown, hdecl⟩ => ?_
  subst heq1
  refine .pure ⟨⟨t1, rfl, hext1⟩, fun m hm => ?_⟩
  rw [List.mem_singleton.1 hm]
  refine ⟨fun _ => rfl, hknown, rfl, fun _ => Or.inr ?_⟩
  rw [hdecl]
  exact length_params_forwarderDecl _ _

theorem fallbackMatches_leads {own : MatchSet} (name : String) (args : List TypeId)
    (hown : own.Fits s call owner args.length) :
    Leads O (fallbackMatches call owner name args own) s A A
      (MatchSet.FoundFrom s call owner args.length) := by
  refine Leads.get_bind ?_
  refine (lookupMatches_leads hs _ name args _ (s.call call).args.length).bind
    fun program s1 h1 ⟨t1, heq1, hext1, hprogram⟩ => .get_bind ?_
  subst heq1
  split
  next =>
    exact (defineForwarder_leads (h1.tended hs) owner name args).post
      fun _ _ _ hfound => hfound.after hext1
  next =>
    split
    next hreceiver =>
      have hnone : (s.call call).receiver = none := by
        simp only [Bool.and_eq_true, Option.isNone_iff_eq_none] at hreceiver
        exact hreceiver.1
      exact .pure ⟨⟨t1, rfl, hext1⟩, fun m hm => ⟨fun h => absurd hnone h, (hprogram m hm).2⟩⟩
    next => exact .pure ⟨⟨t1, rfl, hext1⟩, hown.grows hext1.grows⟩

theorem findMatches_leads (owner : TypeId) (name : String) :
    Leads O (findMatches call owner name) s A A
      (MatchSet.FoundFrom s call owner (s.argTypes call).length) := by
  refine Leads.get_bind ?_
  refine (lookupMatches_leads hs owner name (s.argTypes call) _ (s.call call).args.length).next hs
    fun own s1 h1 hs1 ⟨t1, heq1, hext1, hown⟩ => ?_
  subst heq1
  have hfits : own.Fits { s with types := t1 } call owner (s.argTypes call).length :=
    fun m hm => ⟨fun _ => (hown m hm).1, (hown m hm).2⟩
  split
  next => exact .pure ⟨⟨t1, rfl, hext1⟩, hfits⟩
  next =>
    refine Leads.get_bind ?_
    split
    next =>
      exact (defineConstructors_leads hs1 owner _).post fun _ _ _ hfound => hfound.after hext1
    next =>
      split
      next =>
        exact (fallbackMatches_leads hs1 name _ hfits).post fun _ _ _ hfound => hfound.after hext1
      next => exact .pure ⟨⟨t1, rfl, hext1⟩, hfits⟩

end Infer

end Callsite
