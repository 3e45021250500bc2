import Callsite.Proofs.Run.Effects

/-!
# Sessions and their agendas

What a session owes to its agenda: a call that is not on the agenda has been resolved for the
types of its inputs, apart from calls with a converted argument, and what a lock stands for is
the case.  Every move keeps this, so that a computation finds what it has locked as it left it.
-/

namespace Callsite

variable {key : InstanceKey} {id : InstanceId} {a b : Session × Agenda} {lock : Lock}

variable {s s' : Session} {A A' : Agenda} {O : Set CallId} {call : CallId} {node : NodeId}

/-! ## Calls that are not on the agenda -/

namespace Session

/-- Calls that are not on the agenda have been resolved for the types of their inputs. -/
def CallsCurrent (s : Session) (listed : Set CallId) : Prop :=
  ∀ call, s.HasCall call → call ∉ listed → s.IsCurrent call

theorem IsCurrent.later (h : s.IsCurrent call) (hb : s.Before s') (hcall : s.HasCall call)
    (hargs : (s'.call call).args = (s.call call).args)
    (hsignature : (s'.call call).signature = (s.call call).signature ∨
      (s'.call call).signature = s'.inputTypes? call)
    (htypes : ∀ input ∈ (s.call call).inputs, s'.typeOf input = s.typeOf input) :
    s'.IsCurrent call := by
  have hinputTypes := inputTypes?_congr (hb.inputs_eq hcall hargs) htypes
  rcases h with hconversions | hlibrary | hnone | ⟨hout, hdead | hsigned⟩
  · exact Or.inl (hb.conversions_ne hcall hconversions)
  · refine Or.inr (Or.inl (hb.onLibrary hcall (fun receiver hreceiver => ?_) hlibrary))
    exact htypes receiver (CallSite.mem_inputs.2 (Or.inr (Or.inl hreceiver)))
  · exact Or.inr (Or.inr (Or.inl (hinputTypes.trans hnone)))
  · refine Or.inr (Or.inr (Or.inr ⟨mt (hb.hasOut_iff hcall).1 hout, Or.inl ?_⟩))
    obtain ⟨node, hnode, htype⟩ := hdead
    refine ⟨node, by rwa [CallSite.argNodes, hargs], ?_⟩
    rw [htypes node (CallSite.mem_inputs.2 (Or.inl (List.mem_map.1 hnode))), htype]
  · refine Or.inr (Or.inr (Or.inr ⟨mt (hb.hasOut_iff hcall).1 hout, Or.inr ?_⟩))
    rcases hsignature with hsame | hlater
    · rw [hsame, hsigned, hinputTypes]
    · exact hlater

end Session

open Session

/-- A call leaves the agenda when it has been resolved for the types of its inputs, and has been
signed for them unless its arguments are being converted. -/
theorem Move.listed_or_current (h : Move O (s, A) (s', A')) (hlisted : call ∈ A.calls) :
    call ∈ A'.calls ∨ s'.IsCurrent call ∧ (call ∉ A.converting → s'.IsSigned call) := by
  cases h with
  | wait h => exact Or.inl (h.calls hlisted)
  | assign | kill => exact Or.inl (Or.inl hlisted)
  | call | forget => exact Or.inl (Or.inr hlisted)
  | @current _ _ other h hsigned =>
    by_cases heq : call = other
    · exact Or.inr (heq ▸ ⟨h, hsigned⟩)
    · exact Or.inl ⟨hlisted, heq⟩
  | @reopen _ _ opened signature _ hopened hsignature hout =>
    by_cases heq : call = opened
    · subst heq
      have hsigned : ((s.reopened call signature).call call).signature
          = (s.reopened call signature).inputTypes? call := by
        rw [inputTypes?_reopened hopened, hsignature, s.call_reopened hopened]
      refine Or.inr ⟨Or.inr (Or.inr (Or.inr ⟨?_, Or.inr hsigned⟩)),
        fun _ => Or.inr (Or.inr hsigned)⟩
      exact mt ((reopened_before call signature).hasOut_iff hopened).1 hout
    · exact Or.inl ⟨hlisted, heq⟩
  | _ => exact Or.inl hlisted

/-- Every move keeps the calls that are not on the agenda resolved for the types of their
inputs. -/
theorem Move.callsCurrent (h : Move O (s, A) (s', A')) (hs : s.Sound)
    (hc : s.CallsCurrent A.calls) : s'.CallsCurrent A'.calls := by
  intro call hcall hoff
  have hb := h.before
  by_contra hnot
  have hkept : s.HasCall call → (s'.call call).args = (s.call call).args →
      ((s'.call call).signature = (s.call call).signature ∨
        (s'.call call).signature = s'.inputTypes? call) → False := by
    intro hold hargs hsignature
    have hcurrent : s.IsCurrent call :=
      hc call hold fun hlisted => (h.listed_or_current hlisted).elim hoff (hnot ·.1)
    have hnil : (s.call call).conversions = [] := by
      by_contra hne
      exact hnot (Or.inl (hb.conversions_ne hold hne))
    -- The call observes its inputs: it would be on the agenda if one had another type.
    refine hnot (hcurrent.later hb hold hargs hsignature fun input hinput => ?_)
    have hnode := (hs.calls call hold).inputs input hinput
    refine (h.typeOf_or_lists hs hnode).resolve_right fun hlists => hoff ?_
    exact hlists.calls call (hs.observed hold hnil hinput)
  cases h.callStep hcall with
  | made _ _ hlisted | forgotten _ _ _ _ hlisted => exact hoff hlisted
  | kept hold _ hargs hsignature | resolved hold _ hargs hsignature
  | resolvedForeign hold _ hargs hsignature => exact hkept hold hargs (Or.inl hsignature)
  | reopened _ _ hsignature hout =>
    exact hnot (Or.inr (Or.inr (Or.inr ⟨hout, Or.inr hsignature⟩)))
  | converted _ _ _ hconversions => exact hnot (Or.inl hconversions)
  | signed _ hold _ hargs hsignature => exact hkept hold hargs (Or.inr hsignature)

/-! ## Nodes in use -/

/-- A call takes no locked node into use. -/
theorem Move.uses (h : Move O (s, A) (s', A')) (huses : (s'.call call).Uses node) :
    (s.call call).Uses node ∨ .node node ∉ A.locks := by
  have hsite := h.site call
  generalize s'.call call = site at hsite huses
  cases hsite with
  | made _ _ _ hconversions hfree hpending =>
    rcases huses with hinput | ⟨conversion, hconversion, -⟩ | hbody
    · exact Or.inr (hfree node hinput)
    · exact absurd (hconversions ▸ hconversion) List.not_mem_nil
    · obtain ⟨block, hblock, hvisit⟩ := Option.bind_eq_some_iff.1 hbody
      rw [hpending block hblock] at hvisit
      simp [Visit.node?] at hvisit
  | block _ _ _ hpending =>
    refine Or.inl (huses.imp_right fun hrest => Or.inl (hrest.resolve_right ?_))
    simp [hpending, Visit.node?]
  | begin =>
    refine Or.inl (huses.imp_right fun hrest => Or.inl (hrest.resolve_right fun hbody => ?_))
    obtain ⟨block, hblock, hvisit⟩ := Option.bind_eq_some_iff.1 hbody
    obtain ⟨block, -, rfl⟩ := Option.map_eq_some_iff.1 hblock
    simp [Visit.node?] at hvisit
  | @finish body hfree =>
    by_cases heq : body = node
    · exact Or.inr (heq ▸ hfree)
    refine Or.inl (huses.imp_right fun hrest => Or.inl (hrest.resolve_right fun hbody => ?_))
    obtain ⟨block, hblock, hvisit⟩ := Option.bind_eq_some_iff.1 hbody
    obtain ⟨block, -, rfl⟩ := Option.map_eq_some_iff.1 hblock
    exact heq (Option.some.inj hvisit)
  | @converted source new index kind _ _ hfree _ hsource =>
    by_cases hnew : new = node
    · exact Or.inr (hnew ▸ hfree)
    by_cases hold : source = node
    · exact Or.inr (hold ▸ hsource)
    left
    rcases huses with hinput | ⟨conversion, hconversion, heq⟩ | hbody
    · refine Or.inl (CallSite.mem_inputs.2 ((CallSite.mem_inputs.1 hinput).imp_left ?_))
      rintro ⟨arg, harg, rfl⟩
      rcases Session.Sound.mem_modify_node harg with hgiven | ⟨heq, -⟩
      · exact ⟨arg, hgiven, rfl⟩
      · exact absurd heq.symm hnew
    · rcases List.mem_append.1 hconversion with hmem | hmem
      · exact Or.inr (Or.inl ⟨conversion, hmem, heq⟩)
      · obtain rfl := List.mem_singleton.1 hmem
        exact absurd heq hold
    · exact Or.inr (Or.inr hbody)
  | _ => exact Or.inl huses

/-- No variable is bound to a locked node. -/
theorem Move.variables {scope : ScopeId} {entry : String × NodeId} (h : Move O (s, A) (s', A'))
    (hentry : entry ∈ (s'.scope scope).vars.entries) :
    entry ∈ (s.scope scope).vars.entries ∨ .node entry.2 ∉ A.locks := by
  cases h with
  | scope new _ hfree =>
    rw [scope_withScope] at hentry
    split at hentry
    · exact Or.inr (hfree entry hentry)
    · exact Or.inl hentry
  | bind changed name _ hfree =>
    rw [scope_withVar] at hentry
    split at hentry
    · rcases NameMap.mem_insert hentry with rfl | hold
      · exact Or.inr hfree
      · exact Or.inl hold
    · exact Or.inl hentry
  | _ => exact Or.inl hentry

/-! ## What is locked -/

section

variable (h : Move O (s, A) (s', A'))
include h

theorem Move.loose (hlock : .node node ∈ A.locks) (hloose : s.IsLoose node) : s'.IsLoose node where
  has := h.before.hasNode hloose.has
  unused := fun call huses => (h.uses huses).elim (hloose.unused call) (· hlock)
  unbound := by
    rintro scope entry hentry rfl
    rcases h.variables hentry with hold | hfree
    · exact hloose.unbound scope entry hold rfl
    · exact hfree hlock

/-- An argument is replaced by a node only if no call counts on being given it once. -/
theorem Move.argument {i : Nat} {arg : Argument} (hcall : s.HasCall call)
    (harg : (s'.call call).args[i]? = some arg) :
    (∃ old, (s.call call).args[i]? = some old ∧ arg.node = old.node) ∨
      ∀ index, .source call index arg.node ∉ A.locks := by
  have hsite := h.site call
  generalize s'.call call = site at hsite harg
  cases hsite with
  | made hnew => exact absurd hcall hnew
  | converted index kind _ _ _ hsources =>
    obtain ⟨old, hold, -, ⟨-, hnew⟩ | ⟨-, hkept⟩⟩ := Session.Sound.getElem?_modify_node harg
    · exact Or.inr fun index => hnew ▸ hsources index
    · exact Or.inl ⟨old, hold, hkept⟩
  | _ => exact Or.inl ⟨arg, harg, rfl⟩

theorem Move.apart {index : Nat} (hcall : s.HasCall call)
    (hlock : .source call index node ∈ A.locks) (hapart : (s.call call).Apart index node) :
    (s'.call call).Apart index node where
  args := by
    rintro i arg harg hne rfl
    rcases h.argument hcall harg with ⟨old, hold, hkept⟩ | hfree
    · exact hapart.args i old hold hne hkept.symm
    · exact hfree index hlock
  receiver := by
    rw [(h.before.call call hcall).receiver]
    exact hapart.receiver
  blockArg := by
    rw [(h.before.call call hcall).blockArg]
    exact hapart.blockArg

/-- Nobody else looks at a block that is being looked at. -/
theorem Move.visiting (hlock : .visit call ∈ A'.locks) (hcall : s.HasCall call)
    (hblockArg : (s.call call).blockArg = none)
    (hstarted : (s.call call).block.map (·.visit) = some .started) :
    (s'.call call).block.map (·.visit) = some .started := by
  have hsite := h.site call
  generalize s'.call call = site at hsite ⊢
  cases hsite with
  | made hnew => exact absurd hcall hnew
  | block _ _ hpassed => exact absurd hblockArg hpassed
  | begin hpending => exact absurd (hpending.symm.trans hstarted) (by simp)
  | finish _ _ hdropped => exact absurd hlock hdropped
  | _ => exact hstarted

/-- An instance is entered into the cache by the computation that made it. -/
theorem Move.cached (hfind : s'.cache.find? key = some id) :
    s.cache.find? key = some id ∨ .inst id ∈ A.locks ∧ .inst id ∉ A'.locks := by
  cases h with
  | enter request entered _ _ _ hlocked =>
    rw [InstanceCache.find?_insert] at hfind
    split at hfind
    · cases hfind
      exact Or.inr ⟨hlocked, fun hmem => hmem.2 rfl⟩
    · exact Or.inl hfind
  | _ => exact Or.inl hfind

/-- An instance that is not locked is not locked later. -/
theorem Move.unlocked (hid : s.HasInstance id) (hfree : .inst id ∉ A.locks) :
    .inst id ∉ A'.locks := by
  cases h with
  | wait h => exact fun hlock => hfree (h.locks hlock)
  | lock _ hinst => exact fun hlock => hlock.elim (fun heq => hinst id heq.symm) hfree
  | make inst =>
    rintro (heq | hlock)
    · obtain rfl := Lock.inst.inj heq
      exact Nat.lt_irrefl _ hid
    · exact hfree hlock
  | finish | enter => exact fun hlock => hfree hlock.1
  | _ => exact hfree

end

/-- An instance that is not locked gets no further key. -/
theorem Evolves.cached (h : Evolves a b) (hid : a.1.HasInstance id) (hfree : .inst id ∉ a.2.locks)
    (hfind : b.1.cache.find? key = some id) : a.1.cache.find? key = some id := by
  induction h using Relation.ReflTransGen.head_induction_on with
  | refl => exact hfind
  | head hstep _ ih =>
    obtain ⟨O, hmove⟩ := hstep
    have hlater := ih (hmove.before.hasInstance hid) (hmove.unlocked hid hfree)
    exact (hmove.cached hlater).resolve_right fun hlocked => hfree hlocked.1

theorem Move.resolved (h : Move O (s, A) (s', A')) (hid : id ∈ (s'.call call).resolved) :
    id ∈ (s.call call).resolved ∨ .inst id ∉ A.locks := by
  have hsite := h.site call
  generalize s'.call call = site at hsite hid
  cases hsite with
  | made _ htargets =>
    rw [CallSite.resolved, htargets] at hid
    cases hid
  | reopened => cases hid
  | resolved hfree => exact Or.inr (hfree id hid)
  | _ => exact Or.inl hid

/-- A lock was there before, or what it stands for is the case when it is added. -/
theorem Move.locked (h : Move O (s, A) (s', A')) (hs : s.Sound) (hlock : lock ∈ A'.locks) :
    lock ∈ A.locks ∨ lock.Holds s' := by
  cases h with
  | wait h => exact Or.inl (h.locks hlock)
  | lock hholds =>
    rcases hlock with rfl | hold
    · exact Or.inr hholds
    · exact Or.inl hold
  | make inst =>
    rcases hlock with rfl | hold
    · refine Or.inr ⟨?_, fun key hfind => ?_, fun call hid => ?_⟩
      · simp [hasInstance_withInstance]
      · obtain ⟨_, -, hserves, -⟩ := hs.cache key _ hfind
        exact Nat.lt_irrefl _ hserves.has
      · have hcall : s.HasCall call := by
          by_contra hnot
          change _ ∈ (s.call call).resolved at hid
          rw [s.call_of_not_hasCall hnot] at hid
          cases hid
        exact Nat.lt_irrefl _ ((hs.calls call hcall).targets _ hid)
    · exact Or.inl hold
  | finish | enter => exact Or.inl hlock.1
  | _ => exact Or.inl hlock

/-- What a lock stands for goes on to be the case until the lock is dropped. -/
theorem Move.holds (h : Move O (s, A) (s', A')) (hbefore : lock ∈ A.locks)
    (hafter : lock ∈ A'.locks) (hholds : lock.Holds s) : lock.Holds s' := by
  have hb := h.before
  cases lock with
  | node node => exact h.loose hbefore hholds
  | source call index node =>
    obtain ⟨hcall, hnode, hapart⟩ := hholds
    exact ⟨hb.hasCall hcall, hb.hasNode hnode, h.apart hcall hbefore hapart⟩
  | visit call =>
    obtain ⟨hcall, hblockArg, hstarted⟩ := hholds
    refine ⟨hb.hasCall hcall, ?_, h.visiting hafter hcall hblockArg hstarted⟩
    rw [(hb.call call hcall).blockArg, hblockArg]
  | inst id =>
    obtain ⟨hinstance, hcache, hresolved⟩ := hholds
    refine ⟨hb.hasInstance hinstance, fun key hfind => ?_, fun call hid => ?_⟩
    · exact (h.cached hfind).elim (hcache key) fun hentered => hentered.2 hafter
    · exact (h.resolved hid).elim (hresolved call) (· hbefore)

/-! ## Sessions that are looked after -/

/-- A session is sound, and what its agenda says of it is the case. -/
structure Session.Tended (s : Session) (A : Agenda) : Prop extends s.Sound where
  current : s.CallsCurrent A.calls
  locks : ∀ lock ∈ A.locks, lock.Holds s

/-- A call that has been resolved for the types of its inputs need not be on the agenda. -/
theorem Session.Tended.dropCall (hs : s.Tended A) (h : s.IsCurrent call) :
    s.Tended (A.dropCall call) where
  toSound := hs.toSound
  current := by
    intro other ho hoff
    by_cases heq : other = call
    · exact heq ▸ h
    · exact hs.current other ho fun hlisted => hoff ⟨hlisted, heq⟩
  locks := hs.locks

theorem Move.tended (h : Move O (s, A) (s', A')) (hs : s.Tended A) : s'.Tended A' where
  toSound := h.sound hs.toSound
  current := h.callsCurrent hs.toSound hs.current
  locks := by
    intro lock hlock
    rcases h.locked hs.toSound hlock with hold | hholds
    · exact h.holds hold hlock (hs.locks lock hold)
    · exact hholds

theorem Evolves.tended (h : Evolves a b) (ha : a.1.Tended a.2) : b.1.Tended b.2 :=
  h.keeps (P := Session.Tended) (fun hmove => hmove.tended) ha

end Callsite
