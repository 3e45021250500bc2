import Callsite.Proofs.Run.Tended

/-!
# What computations lead to

A computation that ends leads from one session and agenda to another by moves, and
in between keeps the calls that are being resolved elsewhere.  The rules of this
module put such facts together along the structure of a computation.
-/

namespace Callsite

/-! ## Calls that are being resolved -/

/-- A call that had no targets has none yet: its arguments are the same, a body of its block that
is held to a type keeps it, and unless it has to be resolved again it watches all that it watched,
where no class has appeared unnoticed. -/
structure Session.Stays (s : Session) (A : Agenda) (s' : Session) (A' : Agenda) (call : CallId) :
    Prop where
  targets : (s.call call).targets = none
  args : (s'.call call).args = (s.call call).args
  deferred : (s.call call).deferred = true → (s'.call call).deferred = true
  held :
    (s.call call).blockArg = none → ∀ node type, s.HoldsBody call node type →
      s'.HoldsBody call node type
  signature :
    (s'.call call).signature ≠ none → (s'.call call).signature = (s.call call).signature
  watched :
    (s'.call call).signature ≠ none → ∀ base, (call, base) ∈ s.watch.pairs →
      (call, base) ∈ s'.watch.pairs
  noticed :
    (s'.call call).signature ≠ none → ∀ base, (call, base) ∈ s.watch.pairs →
      ∀ cls, s'.types.Realizes base cls → s.types.Realizes base cls ∨ (call, base, cls) ∈ A'.gaps
  gaps :
    (s'.call call).signature ≠ none → ∀ base, (call, base) ∈ s.watch.pairs →
      ∀ cls, (call, base, cls) ∈ A.gaps → (call, base, cls) ∈ A'.gaps

/-- Calls without targets stay as they are, apart from those in `O`. -/
def Keeps (O : Set CallId) (a b : Session × Agenda) : Prop :=
  ∀ call, a.1.HasCall call → call ∉ O → (b.1.call call).targets = none →
    a.1.Stays a.2 b.1 b.2 call

variable {s s' s'' : Session} {A A' A'' : Agenda} {O O' : Set CallId} {call : CallId}

namespace Session.Stays

theorem refl (h : (s.call call).targets = none) : s.Stays A s A call where
  targets := h
  args := rfl
  deferred := id
  held := fun _ _ _ => id
  signature := fun _ => rfl
  watched := fun _ _ => id
  noticed := fun _ _ _ _ => Or.inl
  gaps := fun _ _ _ _ => id

theorem trans (h : s.Stays A s' A' call) (h' : s'.Stays A' s'' A'' call)
    (hblockArg : (s'.call call).blockArg = (s.call call).blockArg) : s.Stays A s'' A'' call := by
  have hsigned : (s''.call call).signature ≠ none → (s'.call call).signature ≠ none :=
    fun hne heq => hne ((h'.signature hne).trans heq)
  constructor
  case targets => exact h.targets
  case args => exact h'.args.trans h.args
  case deferred => exact fun hdeferred => h'.deferred (h.deferred hdeferred)
  case held =>
    intro hplain node type hheld
    exact h'.held (hblockArg.trans hplain) node type (h.held hplain node type hheld)
  case signature => exact fun hne => (h'.signature hne).trans (h.signature (hsigned hne))
  case watched =>
    intro hne base hbase
    exact h'.watched hne base (h.watched (hsigned hne) base hbase)
  case noticed =>
    intro hne base hbase cls hcls
    have hbase' := h.watched (hsigned hne) base hbase
    rcases h'.noticed hne base hbase' cls hcls with hcls' | hgap
    · exact (h.noticed (hsigned hne) base hbase cls hcls').imp_right (h'.gaps hne base hbase' cls)
    · exact Or.inr hgap
  case gaps =>
    intro hne base hbase cls hgap
    have hbase' := h.watched (hsigned hne) base hbase
    exact h'.gaps hne base hbase' cls (h.gaps (hsigned hne) base hbase cls hgap)

end Session.Stays

/-- Every move keeps the calls that it does not resolve. -/
theorem Move.keeps (hs : s.Sound) (h : Move O (s, A) (s', A')) : Keeps O (s, A) (s', A') := by
  intro call hcall hO hnone
  have hwatched : ∀ base, (call, base) ∈ s.watch.pairs → (call, base) ∈ s'.watch.pairs :=
    fun base hbase => (h.watched hbase).resolve_right fun hopen => hO hopen.1
  have hstays : (s'.call call).targets = (s.call call).targets →
      (s'.call call).args = (s.call call).args →
      ((s'.call call).signature ≠ none → (s'.call call).signature = (s.call call).signature) →
      s.Stays A s' A' call := by
    intro htargets hargs hsignature
    constructor
    case targets => exact htargets.symm.trans hnone
    case args => exact hargs
    case deferred => exact h.deferred hcall fun hopen => absurd hopen hO
    case held =>
      exact fun hplain node type => h.holdsBody hs hcall (fun hopen => absurd hopen hO) hplain
    case signature => exact hsignature
    case watched => exact fun _ => hwatched
    case noticed => exact fun _ base hbase cls => h.noticed hs hbase
    case gaps => exact fun hsigned base hbase cls => h.gap_stays hcall hbase hsigned
  cases h.callStep (h.before.hasCall hcall) with
  | made hnew => exact absurd hcall hnew
  | kept _ htargets hargs hsignature => exact hstays htargets hargs fun _ => hsignature
  | forgotten _ htargets hargs hsignature =>
    exact hstays htargets hargs fun hsigned => absurd hsignature hsigned
  | reopened hopen | converted hopen | signed hopen => exact absurd hopen hO
  | resolved _ htargets | resolvedForeign _ htargets =>
    exact absurd (htargets.symm.trans hnone) (by simp)

/-! ## Episodes -/

/-- One session and agenda lead to another, and only the calls in `O` need not stay. -/
structure Episode (O : Set CallId) (a b : Session × Agenda) : Prop where
  evolves : Evolves a b
  keeps : Keeps O a b

namespace Episode

theorem refl (a : Session × Agenda) : Episode O a a where
  evolves := .refl
  keeps := fun _ _ _ => .refl

theorem of_move (hs : s.Tended A) (h : Move O (s, A) (s', A')) : Episode O (s, A) (s', A') where
  evolves := .single ⟨O, h⟩
  keeps := h.keeps hs.toSound

variable (h : Episode O (s, A) (s', A'))
include h

theorem before : s.Before s' :=
  h.evolves.before

theorem tended (hs : s.Tended A) : s'.Tended A' :=
  h.evolves.tended hs

theorem trans (h' : Episode O (s', A') (s'', A'')) : Episode O (s, A) (s'', A'') where
  evolves := h.evolves.trans h'.evolves
  keeps := by
    intro call hc hO hnone
    have hstays := h'.keeps call (h.before.hasCall hc) hO hnone
    exact (h.keeps call hc hO hstays.targets).trans hstays (h.before.call call hc).blockArg

theorem mono (hO : O ⊆ O') : Episode O' (s, A) (s', A') where
  evolves := h.evolves
  keeps := fun call hc hnot => h.keeps call hc fun hmem => hnot (hO hmem)

theorem wait (hs : s.Tended A) (hA : A' ≤ A'') : Episode O (s, A) (s', A'') :=
  h.trans (.of_move (h.tended hs) (.wait hA))

/-- A call that has targets has some in the end. -/
theorem targets_ne_none (hcall : s.HasCall call) (hO : call ∉ O)
    (hne : (s.call call).targets ≠ none) : (s'.call call).targets ≠ none :=
  fun hnone => hne (h.keeps call hcall hO hnone).targets

end Episode

/-! ## Computations -/

/-- A computation from a session ends after an episode with a result as described, or fails
after some moves. -/
def Leads {α : Type} (O : Set CallId) (x : Infer α) (s : Session) (A A' : Agenda)
    (Q : α → Session → Prop) : Prop :=
  match x s with
  | .ok a s' => Episode O (s, A) (s', A') ∧ Q a s'
  | .error _ s' => Evolves (s, A) (s', .all)

namespace Leads

variable {α β : Type} {x y : Infer α} {f : α → Infer β} {Q Q' : α → Session → Prop}
  {R : β → Session → Prop}

theorem ok_iff {a : α} (hrun : x s = .ok a s') :
    Leads O x s A A' Q ↔ Episode O (s, A) (s', A') ∧ Q a s' := by
  rw [Leads, hrun]

theorem error_iff {halt : Halt} (hrun : x s = .error halt s') :
    Leads O x s A A' Q ↔ Evolves (s, A) (s', .all) := by
  rw [Leads, hrun]

theorem pure {a : α} (h : Q a s) : Leads O (Pure.pure a) s A A Q :=
  ⟨.refl _, h⟩

theorem throw (halt : Halt) : Leads O (MonadExcept.throw halt) s A A' Q :=
  .single ⟨O, .wait A.le_all⟩

theorem fail (cause : Cause) (span : Span) : Leads O (Infer.fail cause span) s A A' Q :=
  throw _

theorem fail_bind (cause : Cause) (span : Span) :
    Leads O ((Infer.fail cause span : Infer α) >>= f) s A A' R :=
  throw _

theorem ok {a : α} (hrun : x s = .ok a s') (h : Episode O (s, A) (s', A')) (hQ : Q a s') :
    Leads O x s A A' Q :=
  (ok_iff hrun).2 ⟨h, hQ⟩

/-- After an episode that leads to the start of the rest, the computation is the rest. -/
theorem of_run {y : Infer α} (hrun : x s = y s') (h : Episode O (s, A) (s', A'))
    (hy : Leads O y s' A' A'' Q) : Leads O x s A A'' Q := by
  cases hend : y s' with
  | ok a t =>
    obtain ⟨hepisode, hQ⟩ := (ok_iff hend).1 hy
    exact ok (hrun.trans hend) (h.trans hepisode) hQ
  | error halt t =>
    have hevolves := (error_iff hend).1 hy
    exact (error_iff (hrun.trans hend)).2 (h.evolves.trans hevolves)

theorem step {a : α} (hrun : x s = .ok a s') (h : Episode O (s, A) (s', A'))
    (hf : Leads O (f a) s' A' A'' R) : Leads O (x >>= f) s A A'' R :=
  of_run (by simp [Bind.bind, EStateM.bind, hrun]) h hf

/-- A first step that is one move. -/
theorem move {a : α} (hs : s.Tended A) (hmove : Move O (s, A) (s', A')) (hrun : x s = .ok a s')
    (hf : s'.Tended A' → s.Before s' → Leads O (f a) s' A' A'' R) : Leads O (x >>= f) s A A'' R :=
  step hrun (.of_move hs hmove) (hf (hmove.tended hs) hmove.before)

/-- A first part that keeps more calls than the whole. -/
theorem bind_within (hx : Leads O' x s A A' Q) (hO : O' ⊆ O)
    (hf : ∀ a s', Episode O' (s, A) (s', A') → Q a s' → Leads O (f a) s' A' A'' R) :
    Leads O (x >>= f) s A A'' R := by
  cases hrun : x s with
  | ok a s' =>
    obtain ⟨hepisode, hQ⟩ := (ok_iff hrun).1 hx
    exact step hrun (hepisode.mono hO) (hf a s' hepisode hQ)
  | error halt s' =>
    have hbind : (x >>= f) s = .error halt s' := by simp [Bind.bind, EStateM.bind, hrun]
    exact (error_iff hbind).2 ((error_iff hrun).1 hx)

theorem bind (hx : Leads O x s A A' Q)
    (hf : ∀ a s', Episode O (s, A) (s', A') → Q a s' → Leads O (f a) s' A' A'' R) :
    Leads O (x >>= f) s A A'' R :=
  hx.bind_within subset_rfl hf

/-- The session after a first part is tended like the one before. -/
theorem next (hx : Leads O x s A A' Q) (hs : s.Tended A)
    (hf : ∀ a s', Episode O (s, A) (s', A') → s'.Tended A' → Q a s' →
      Leads O (f a) s' A' A'' R) : Leads O (x >>= f) s A A'' R :=
  hx.bind fun a s' hepisode => hf a s' hepisode (hepisode.tended hs)

theorem get_bind {f : Session → Infer β} (h : Leads O (f s) s A A' R) :
    Leads O (MonadState.get >>= f) s A A' R :=
  h

/-- A first part that is run under a condition. -/
theorem when_bind {c : Prop} [Decidable c] {y : Infer PUnit} {rest : Infer β} {P : Session → Prop}
    (hy : c → Leads O y s A A fun _ s' => P s') (hskip : ¬ c → P s)
    (hrest : ∀ s', Episode O (s, A) (s', A) → P s' → Leads O rest s' A A' R) :
    Leads O (if c then y >>= fun _ => rest else rest) s A A' R := by
  split
  next hc => exact (hy hc).bind fun _ => hrest
  next hc => exact hrest s (.refl _) (hskip hc)

/-- A computation between two moves, of which the second one is made after a failure too. -/
theorem enclosed (s1 : Session) (leave : Session → Session) (hs : s.Tended A)
    (henter : Move O (s, A) (s1, A)) (hleave : ∀ s' B, Move O (s', B) (leave s', B))
    (hok : ∀ a s', x s1 = .ok a s' → y s = .ok a (leave s'))
    (herror : ∀ halt s', x s1 = .error halt s' → y s = .error halt (leave s'))
    (hx : s1.Tended A → s.Before s1 → Leads O x s1 A A' fun a s' => Q a (leave s')) :
    Leads O y s A A' Q := by
  have hfirst : Episode O (s, A) (s1, A) := .of_move hs henter
  have hs1 := hfirst.tended hs
  have hmiddle := hx hs1 hfirst.before
  cases hrun : x s1 with
  | ok a s2 =>
    obtain ⟨hepisode, hQ⟩ := (ok_iff hrun).1 hmiddle
    have hlast : Episode O (s2, A') (leave s2, A') :=
      .of_move (hepisode.tended hs1) (hleave s2 A')
    exact ok (hok a s2 hrun) ((hfirst.trans hepisode).trans hlast) hQ
  | error halt s2 =>
    have hevolves := (error_iff hrun).1 hmiddle
    exact (error_iff (herror halt s2 hrun)).2
      ((hfirst.evolves.trans hevolves).tail ⟨O, hleave s2 .all⟩)

section

variable (hx : Leads O x s A A' Q)
include hx

/-- The rules below change what is said of an end that is no failure. -/
theorem of_end (h : ∀ a s', Episode O (s, A) (s', A') → Q a s' →
      Episode O' (s, A) (s', A'') ∧ Q' a s') : Leads O' x s A A'' Q' := by
  cases hrun : x s with
  | ok a s' =>
    obtain ⟨hepisode, hQ⟩ := (ok_iff hrun).1 hx
    exact (ok_iff hrun).2 (h a s' hepisode hQ)
  | error halt s' => exact (error_iff hrun).2 ((error_iff hrun).1 hx)

theorem post (h : ∀ a s', Episode O (s, A) (s', A') → Q a s' → Q' a s') : Leads O x s A A' Q' :=
  hx.of_end fun a s' hepisode hQ => ⟨hepisode, h a s' hepisode hQ⟩

theorem mono (hO : O ⊆ O') : Leads O' x s A A' Q :=
  hx.of_end fun _ _ hepisode hQ => ⟨hepisode.mono hO, hQ⟩

theorem wait (hs : s.Tended A) (hA : A' ≤ A'') : Leads O x s A A'' Q :=
  hx.of_end fun _ _ hepisode hQ => ⟨hepisode.wait hs hA, hQ⟩

/-- What is known of one computation for two agendas. -/
theorem also {B B' : Agenda} (hx' : Leads O' x s B B' Q') :
    Leads O x s A A' fun a s' => Q a s' ∧ Episode O' (s, B) (s', B') := by
  cases hrun : x s with
  | ok a s' =>
    obtain ⟨hepisode, hQ⟩ := (ok_iff hrun).1 hx
    exact (ok_iff hrun).2 ⟨hepisode, hQ, ((ok_iff hrun).1 hx').1⟩
  | error halt s' => exact (error_iff hrun).2 ((error_iff hrun).1 hx)

end

/-- What a computation counts on while it is under way is the case in the end. -/
theorem holding (lock : Lock) (hs : s.Tended A) (hlock : lock.Holds s)
    (hinst : ∀ id, lock ≠ .inst id)
    (hx : s.Tended (A.withLock lock) →
      Leads O x s (A.withLock lock) (A'.withLock lock) Q) :
    Leads O x s A A' fun a s' => lock.Holds s' ∧ Q a s' := by
  have hmove : Move O (s, A) (s, A.withLock lock) := .lock hlock hinst
  have hs' := hmove.tended hs
  refine of_run rfl (.of_move hs hmove) ((hx hs').of_end fun a s' hepisode hQ => ⟨?_, ?_, hQ⟩)
  · exact hepisode.wait hs' (A'.withLock_le lock)
  · exact (hepisode.tended hs').locks lock (Set.mem_insert lock _)

/-- A call that has targets in the end counts as kept. -/
theorem close (call : CallId) (hx : Leads (insert call O) x s A A' Q)
    (h : ∀ a s', Q a s' → (s'.call call).targets ≠ none) : Leads O x s A A' Q := by
  refine hx.of_end fun a s' hepisode hQ => ⟨⟨hepisode.evolves, ?_⟩, hQ⟩
  intro other ho hO hnone
  refine hepisode.keeps other ho ?_ hnone
  rintro (rfl | hmem)
  · exact h a s' hQ hnone
  · exact hO hmem

/-! ### Lists -/

section

variable {f : α → Infer β} {P : α → β → Session → Prop} (l : List α)
  (hstable : ∀ a b s1 s2, Episode O (s, A) (s1, A) → Episode O (s1, A) (s2, A) →
    P a b s1 → P a b s2)
include hstable

/-- A computation for each element of a list, each of which keeps `K`. -/
theorem mapM {K : Session → Prop} (hK : K s)
    (hf : ∀ a ∈ l, ∀ s1, Episode O (s, A) (s1, A) → K s1 →
      Leads O (f a) s1 A A fun b s' => P a b s' ∧ K s') :
    Leads O (l.mapM f) s A A fun bs s' =>
      K s' ∧ (∀ a ∈ l, ∃ b ∈ bs, P a b s') ∧ ∀ b ∈ bs, ∃ a ∈ l, P a b s' := by
  induction l generalizing s with
  | nil => exact pure ⟨hK, by simp, by simp⟩
  | cons a l ih =>
    rw [List.mapM_cons]
    refine (hf a List.mem_cons_self s (.refl _) hK).bind fun b s1 h1 ⟨hb, hK1⟩ => ?_
    have hrest := ih (fun a' b' s2 s3 h2 => hstable a' b' s2 s3 (h1.trans h2)) hK1
      fun a' ha' s2 h2 => hf a' (List.mem_cons_of_mem a ha') s2 (h1.trans h2)
    refine hrest.bind fun bs s2 h2 ⟨hK2, hleft, hright⟩ => ?_
    have hfirst := hstable a b s1 s2 h1 h2 hb
    refine pure ⟨hK2, fun a' ha' => ?_, fun b' hb' => ?_⟩
    · rcases List.mem_cons.1 ha' with rfl | ha'
      · exact ⟨b, List.mem_cons_self, hfirst⟩
      · obtain ⟨b', hb', hP⟩ := hleft a' ha'
        exact ⟨b', List.mem_cons_of_mem b hb', hP⟩
    · rcases List.mem_cons.1 hb' with rfl | hb'
      · exact ⟨a, List.mem_cons_self, hfirst⟩
      · obtain ⟨a', ha', hP⟩ := hright b' hb'
        exact ⟨a', List.mem_cons_of_mem a ha', hP⟩

theorem mapM_each
    (hf : ∀ a ∈ l, ∀ s1, Episode O (s, A) (s1, A) → Leads O (f a) s1 A A (P a)) :
    Leads O (l.mapM f) s A A fun bs s' =>
      (∀ a ∈ l, ∃ b ∈ bs, P a b s') ∧ ∀ b ∈ bs, ∃ a ∈ l, P a b s' :=
  (mapM (K := fun _ => True) l hstable trivial fun a ha s1 h1 _ =>
    (hf a ha s1 h1).post fun _ _ _ hb => ⟨hb, trivial⟩).post fun _ _ _ h => h.2

end

/-- What later sessions keep holds of all results in the end. -/
theorem mapM_all {f : α → Infer β} {P : β → Session → Prop}
    (hstable : ∀ b s1 s2, s1.Before s2 → P b s1 → P b s2) (l : List α)
    (hf : ∀ a ∈ l, ∀ s1, Episode O (s, A) (s1, A) → Leads O (f a) s1 A A P) :
    Leads O (l.mapM f) s A A fun bs s' => ∀ b ∈ bs, P b s' := by
  refine (mapM_each (P := fun _ => P) l (fun _ b s1 s2 _ h => hstable b s1 s2 h.before) hf).post
    fun bs s' _ hbs b hb => ?_
  obtain ⟨-, -, hP⟩ := hbs.2 b hb
  exact hP

theorem mapM_slots {f : α → Infer NodeId} {K : Session → Prop} (l : List α) (hK : K s)
    (hf : ∀ a ∈ l, ∀ s1, Episode O (s, A) (s1, A) → K s1 →
      Leads O (f a) s1 A A fun node s' => s'.IsSlot node ∧ K s') :
    Leads O (l.mapM f) s A A fun nodes s' => (∀ node ∈ nodes, s'.IsSlot node) ∧ K s' := by
  refine (mapM (P := fun _ node s' => s'.IsSlot node) l (fun _ _ _ _ _ h => h.before.isSlot) hK
    hf).post fun nodes s' _ ⟨hK', _, hslots⟩ => ⟨fun node hnode => ?_, hK'⟩
  obtain ⟨-, -, hslot⟩ := hslots node hnode
  exact hslot

theorem forM {f : α → Infer PUnit} (l : List α)
    (hf : ∀ a ∈ l, ∀ s1, Episode O (s, A) (s1, A) → Leads O (f a) s1 A A fun _ _ => True) :
    Leads O (l.forM f) s A A fun _ _ => True := by
  induction l generalizing s with
  | nil => exact pure trivial
  | cons a l ih =>
    refine (hf a List.mem_cons_self s (.refl _)).bind fun _ s1 h1 _ => ?_
    exact ih fun a' ha' s2 h2 => hf a' (List.mem_cons_of_mem a ha') s2 (h1.trans h2)

end Leads

end Callsite
