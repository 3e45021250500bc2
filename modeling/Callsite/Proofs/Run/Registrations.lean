import Callsite.Inference.SubclassWatch
import Mathlib.Data.List.Nodup
import Mathlib.Data.Set.Basic

/-!
# Registrations of calls with bases

A registration is written in two maps, under its base and under its call.  The maps agree: a
registration that is added is added to both, and all that is left of a call that is removed is
empty lists.
-/

namespace Callsite

theorem lookup_filter_ne {κ β : Type} [BEq κ] [LawfulBEq κ] (l : List (κ × β)) (key other : κ) :
    (l.filter fun entry => entry.1 != key).lookup other
      = if other == key then none else l.lookup other := by
  induction l with
  | nil => simp
  | cons entry rest ih =>
    by_cases hkey : entry.1 = key
    · have hdropped : (entry.1 != key) = false := by simp [hkey]
      rw [List.filter_cons_of_neg (by simp [hdropped]), ih, List.lookup_cons, hkey]
      cases other == key <;> rfl
    · rw [List.filter_cons_of_pos (by simpa using hkey), List.lookup_cons, List.lookup_cons, ih]
      by_cases hother : other = entry.1
      · simp [hother, hkey]
      · simp [beq_false_of_ne hother]

namespace ListMap

section

variable {κ α : Type} [BEq κ] [LawfulBEq κ] (m : ListMap κ α) (key other : κ)

theorem values_erase :
    (m.erase key).values other = if other == key then [] else m.values other := by
  rw [values, erase, lookup_filter_ne]
  split
  · rfl
  · rfl

theorem values_push (value : α) :
    (m.push key value).values other
      = if other == key then m.values key ++ [value] else m.values other := by
  rw [values, push, List.lookup_cons]
  cases hother : other == key with
  | true => rfl
  | false => exact (values_erase m key other).trans (by rw [hother]; rfl)

theorem nodup_push {value : α} (hnodup : ∀ key, (m.values key).Nodup)
    (hnew : value ∉ m.values key) : ((m.push key value).values other).Nodup := by
  rw [values_push]
  split
  · refine List.nodup_append.2 ⟨hnodup key, List.nodup_singleton value, ?_⟩
    rintro old hold _ hvalue rfl
    exact hnew (List.mem_singleton.1 hvalue ▸ hold)
  · exact hnodup other

theorem values_retain (test : α → Bool) :
    (m.retain key test).values other
      = if other == key then (m.values other).filter test else m.values other := by
  obtain ⟨entries⟩ := m
  simp only [values, retain]
  induction entries with
  | nil => simp
  | cons entry rest ih =>
    rw [List.map_cons, List.lookup_cons, List.lookup_cons]
    by_cases hentry : other = entry.1
    · subst hentry
      simp only [beq_self_eq_true, Option.getD_some]
    · simp only [beq_false_of_ne hentry, ih]

end

/-- The keys and the values of a map. -/
def All {κ α : Type} (m : ListMap κ α) (P : κ → Prop) (Q : α → Prop) : Prop :=
  ∀ entry ∈ m.entries, P entry.1 ∧ ∀ value ∈ entry.2, Q value

namespace All

variable {κ α : Type} {m : ListMap κ α} {P P' : κ → Prop} {Q Q' : α → Prop}

theorem mono (h : m.All P Q) (hkeys : ∀ key, P key → P' key)
    (hvalues : ∀ value, Q value → Q' value) :
    m.All P' Q' := fun entry hentry =>
  ⟨hkeys _ (h entry hentry).1, fun value hvalue => hvalues value ((h entry hentry).2 value hvalue)⟩

variable [BEq κ] {key : κ} {value : α}

theorem values [LawfulBEq κ] (h : m.All P Q) (hvalue : value ∈ m.values key) : P key ∧ Q value := by
  rw [ListMap.values] at hvalue
  cases hfind : m.entries.lookup key with
  | none => simp [hfind] at hvalue
  | some found =>
    rw [hfind] at hvalue
    obtain ⟨_, _, hentries, -⟩ := List.lookup_eq_some_iff.1 hfind
    have hentry := h (key, found) (by simp [hentries])
    exact ⟨hentry.1, hentry.2 value hvalue⟩

theorem erase (h : m.All P Q) (key : κ) : (m.erase key).All P Q :=
  fun entry hentry => h entry (List.mem_filter.1 hentry).1

theorem push [LawfulBEq κ] (h : m.All P Q) (hkey : P key) (hvalue : Q value) :
    (m.push key value).All P Q := by
  intro entry hentry
  rcases List.mem_cons.1 hentry with rfl | hold
  · refine ⟨hkey, fun other hother => ?_⟩
    rcases List.mem_append.1 hother with hother | hnew
    · exact (h.values hother).2
    · exact List.mem_singleton.1 hnew ▸ hvalue
  · exact h.erase key entry hold

theorem retain (h : m.All P Q) (key : κ) (test : α → Bool) : (m.retain key test).All P Q := by
  intro entry hentry
  obtain ⟨old, hold, rfl⟩ := List.mem_map.1 hentry
  refine ⟨(h old hold).1, fun value hvalue => (h old hold).2 value ?_⟩
  dsimp only at hvalue
  split at hvalue
  · exact (List.mem_filter.1 hvalue).1
  · exact hvalue

end All

end ListMap

namespace SubclassWatch

variable {w : SubclassWatch} {call other : CallId} {base : TypeId}

/-- The calls with the bases that they are registered with. -/
def pairs (w : SubclassWatch) : Set (CallId × TypeId) :=
  {pair | pair.2 ∈ w.bases pair.1}

theorem mem_add (w : SubclassWatch) (call : CallId) (base : TypeId) (pair : CallId × TypeId) :
    pair ∈ (w.add call base).pairs ↔ pair ∈ w.pairs ∨ pair = (call, base) := by
  obtain ⟨other, found⟩ := pair
  rw [add]
  split
  next hcontains =>
    have hmem : (call, base) ∈ w.pairs := List.contains_iff_mem.1 hcontains
    exact ⟨Or.inl, fun h => h.elim id fun heq => heq ▸ hmem⟩
  next =>
    simp only [pairs, bases, Set.mem_ofPred_eq, ListMap.values_push, Prod.mk.injEq]
    by_cases hother : other = call
    · simp [hother]
    · simp [hother]

theorem mem_removeCall (w : SubclassWatch) (call : CallId) (pair : CallId × TypeId) :
    pair ∈ (w.removeCall call).pairs ↔ pair ∈ w.pairs ∧ pair.1 ≠ call := by
  simp only [pairs, bases, removeCall, Set.mem_ofPred_eq, ListMap.values_erase]
  by_cases hother : pair.1 = call
  · simp [hother]
  · simp [hother]

theorem observers_removeCall (w : SubclassWatch) (call : CallId) (base : TypeId) :
    (w.removeCall call).observers base
      = if base ∈ w.bases call then (w.observers base).filter (· != call)
        else w.observers base := by
  suffices hfold : ∀ (bases : List TypeId) (m : ListMap TypeId CallId),
      (bases.foldl (fun m base => m.retain base (· != call)) m).values base
        = if base ∈ bases then (m.values base).filter (· != call) else m.values base from
    hfold _ _
  intro bases
  induction bases with
  | nil => simp
  | cons first rest ih =>
    intro m
    rw [List.foldl_cons, ih, ListMap.values_retain]
    by_cases hfirst : base = first
    · subst hfirst
      by_cases hrest : base ∈ rest
      · simp [hrest, List.filter_filter]
      · simp [hrest]
    · simp [hfirst]

/-- Both maps have the same registrations, each of them once. -/
structure Agrees (w : SubclassWatch) : Prop where
  mem_iff : ∀ call base, call ∈ w.observers base ↔ base ∈ w.bases call
  observers_nodup : ∀ base, (w.observers base).Nodup
  bases_nodup : ∀ call, (w.bases call).Nodup

namespace Agrees

theorem empty : SubclassWatch.empty.Agrees where
  mem_iff _ _ := by simp [observers, bases, SubclassWatch.empty, ListMap.empty, ListMap.values]
  observers_nodup _ := List.nodup_nil
  bases_nodup _ := List.nodup_nil

theorem add (h : w.Agrees) (call : CallId) (base : TypeId) : (w.add call base).Agrees := by
  rw [SubclassWatch.add]
  split
  · exact h
  next hcontains =>
    have hnew : base ∉ w.bases call := fun hmem => hcontains (List.contains_iff_mem.2 hmem)
    have hnew' : call ∉ w.observers base := fun hmem => hnew ((h.mem_iff call base).1 hmem)
    constructor
    case mem_iff =>
      intro other found
      have hold := h.mem_iff other found
      simp only [observers, bases, ListMap.values_push] at hold ⊢
      by_cases hother : other = call
      · subst hother
        by_cases hfound : found = base
        · simp [hfound]
        · simpa [hfound] using hold
      · by_cases hfound : found = base
        · subst hfound
          simpa [hother] using hold
        · simpa [hother, hfound] using hold
    case observers_nodup =>
      exact fun found => w.byBase.nodup_push base found h.observers_nodup hnew'
    case bases_nodup =>
      exact fun other => w.registrations.nodup_push call other h.bases_nodup hnew

theorem removeCall (h : w.Agrees) (call : CallId) : (w.removeCall call).Agrees := by
  constructor
  case mem_iff =>
    intro other base
    have hpair := mem_removeCall w call (other, base)
    refine Iff.trans ?_ hpair.symm
    rw [observers_removeCall]
    split
    next => simp [h.mem_iff, pairs]
    next hbase =>
      -- The call is not among the observers of a base it is not registered with.
      have hne : base ∈ w.bases other → other ≠ call := by
        rintro hmem rfl
        exact hbase hmem
      exact (h.mem_iff other base).trans ⟨fun hmem => ⟨hmem, hne hmem⟩, And.left⟩
  case observers_nodup =>
    intro base
    rw [observers_removeCall]
    split
    · exact (h.observers_nodup base).filter _
    · exact h.observers_nodup base
  case bases_nodup =>
    intro other
    rw [bases, SubclassWatch.removeCall, ListMap.values_erase]
    split
    · exact List.nodup_nil
    · exact h.bases_nodup other

end Agrees

/-- The maps agree, and the calls and bases that either of them names are there. -/
structure Sits (w : SubclassWatch) (HasCall : CallId → Prop) (Known : TypeId → Prop) : Prop where
  agrees : w.Agrees
  byBase : w.byBase.All Known HasCall
  registrations : w.registrations.All HasCall Known

namespace Sits

variable {HasCall HasCall' : CallId → Prop} {Known Known' : TypeId → Prop}

theorem mono (h : w.Sits HasCall Known) (hcalls : ∀ call, HasCall call → HasCall' call)
    (htypes : ∀ base, Known base → Known' base) : w.Sits HasCall' Known' :=
  ⟨h.agrees, h.byBase.mono htypes hcalls, h.registrations.mono hcalls htypes⟩

theorem add (h : w.Sits HasCall Known) (hcall : HasCall call) (hbase : Known base) :
    (w.add call base).Sits HasCall Known := by
  refine ⟨h.agrees.add call base, ?_, ?_⟩
  · rw [SubclassWatch.add]
    split
    · exact h.byBase
    · exact h.byBase.push hbase hcall
  · rw [SubclassWatch.add]
    split
    · exact h.registrations
    · exact h.registrations.push hcall hbase

theorem removeCall (h : w.Sits HasCall Known) (call : CallId) :
    (w.removeCall call).Sits HasCall Known := by
  refine ⟨h.agrees.removeCall call, ?_, h.registrations.erase call⟩
  simp only [SubclassWatch.removeCall]
  generalize w.bases call = bases
  have hbyBase := h.byBase
  generalize w.byBase = m at hbyBase ⊢
  induction bases generalizing m with
  | nil => exact hbyBase
  | cons base bases ih => exact ih _ (hbyBase.retain base _)

end Sits

end SubclassWatch

end Callsite
