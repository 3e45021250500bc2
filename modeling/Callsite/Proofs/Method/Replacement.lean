import Callsite.Proofs.Types.Building
import Mathlib.Data.List.Induction

/-!
# Redefining methods

A method table follows from the history of its registrations.  The active methods of an owner and
name are one for each signature: the signatures in the order in which they first occurred, each
with the method that was registered for it last.
-/

namespace Callsite

variable {id : MethodId} {σ : Type}

/-- A method that is to be registered. -/
structure Registration where
  owner : TypeId
  decl : MethodDecl
  origin : Origin

namespace Registration

def isFor (r : Registration) (owner : TypeId) (name : String) : Bool :=
  r.owner == owner && r.decl.name == name

def toMethod (r : Registration) (id : MethodId) : Method :=
  ⟨id, r.decl, r.owner, r.origin, r.decl.yields⟩

end Registration

namespace MethodTable

/-! ## Slots -/

section

variable {p : MethodId → Bool} {slots : List MethodId} {id slot : MethodId}

/-- A method takes its slot among those of its family, and leaves the slots of another one. -/
theorem filter_fillSlot {q q' : MethodId → Bool} (hq : ∀ slot ∈ slots, q' slot = q slot)
    (hp : ∀ slot ∈ slots, p slot = true → q slot = q' id) :
    (fillSlot p id slots).filter q' =
      if q' id then fillSlot p id (slots.filter q) else slots.filter q := by
  induction slots with
  | nil => cases h : q' id <;> simp [fillSlot, h]
  | cons slot slots ih =>
    rw [List.forall_mem_cons] at hq hp
    have hrest : slots.filter q' = slots.filter q := List.filter_congr hq.2
    rw [fillSlot]
    split
    case isTrue h => cases hid : q' id <;> simp [h, hp.1 h, hid, fillSlot, hrest]
    case isFalse h =>
      rw [List.filter_cons, List.filter_cons, ih hq.2 hp.2, hq.1]
      cases q slot <;> cases q' id <;> simp [fillSlot, h]

theorem fillSlot_congr {p' : MethodId → Bool} (h : ∀ slot ∈ slots, p slot = p' slot) :
    fillSlot p id slots = fillSlot p' id slots := by
  induction slots with
  | nil => rfl
  | cons slot slots ih =>
    rw [List.forall_mem_cons] at h
    rw [fillSlot, fillSlot, h.1, ih h.2]

variable {σ : Type} [DecidableEq σ] {f f' : MethodId → σ} {s : σ}

/-- A slot is filled in place, or opened if there is none for the signature. -/
theorem map_fillSlot (hf : ∀ slot ∈ slots, f' slot = f slot) (hid : f' id = s) :
    (fillSlot (fun slot => f slot == s) id slots).map f' =
      if s ∈ slots.map f then slots.map f else slots.map f ++ [s] := by
  induction slots with
  | nil => simp [fillSlot, hid]
  | cons slot slots ih =>
    rw [List.forall_mem_cons] at hf
    have hrest : slots.map f' = slots.map f := List.map_congr_left hf.2
    by_cases h : f slot = s
    · simp [fillSlot, h, hid, hrest]
    · simp only [fillSlot, beq_iff_eq, h, if_false, List.map_cons, ih hf.2, hf.1, List.mem_cons,
        Ne.symm h, false_or]
      split <;> simp

/-- Where every signature has one slot, the old method of a signature is gone. -/
theorem mem_fillSlot_cases (hnodup : (slots.map f).Nodup)
    (h : slot ∈ fillSlot (fun slot => f slot == s) id slots) :
    slot = id ∨ slot ∈ slots ∧ f slot ≠ s := by
  induction slots with
  | nil => exact .inl (by simpa [fillSlot] using h)
  | cons first slots ih =>
    rw [List.map_cons, List.nodup_cons] at hnodup
    by_cases hfirst : f first = s
    · simp [fillSlot, hfirst] at h
      refine h.imp_right fun hmem => ⟨List.mem_cons_of_mem _ hmem, fun hsame => ?_⟩
      exact hnodup.1 (List.mem_map.2 ⟨slot, hmem, hsame.trans hfirst.symm⟩)
    · simp [fillSlot, hfirst] at h
      rcases h with rfl | h
      · exact .inr ⟨by simp, hfirst⟩
      · exact (ih hnodup.2 h).imp_right fun hold => ⟨List.mem_cons_of_mem _ hold.1, hold.2⟩

end

/-! ## Histories -/

/-- The table after registrations, one after the other. -/
def ofHistory (history : List Registration) : MethodTable :=
  history.foldl (fun t r => (t.register r.owner r.decl r.origin).2) empty

variable {history : List Registration} {r : Registration} {owner : TypeId} {name : String}

theorem ofHistory_concat (history : List Registration) (r : Registration) :
    ofHistory (history ++ [r]) = ((ofHistory history).register r.owner r.decl r.origin).2 := by
  simp [ofHistory]

theorem size_ofHistory (history : List Registration) :
    (ofHistory history).methods.size = history.length := by
  induction history using List.reverseRecOn with
  | nil => rfl
  | append_singleton history r ih => simpa [ofHistory_concat, register] using ih

/-- Every number stands for what was registered under it. -/
theorem get?_ofHistory (history : List Registration) (id : MethodId) :
    (ofHistory history).get? id = history[id.index]?.map (·.toMethod id) := by
  induction history using List.reverseRecOn with
  | nil => rfl
  | append_singleton history r ih =>
    rw [ofHistory_concat]
    simp only [register, get?, Array.getElem?_push, size_ofHistory] at ih ⊢
    by_cases h : id.index = history.length
    · have hid : id = ⟨history.length⟩ := congrArg MethodId.mk h
      simp [hid, Registration.toMethod]
    · rw [if_neg h, ih]
      grind

theorem index_lt_of_mem_slots (h : id ∈ (ofHistory history).slots) : id.index < history.length := by
  induction history using List.reverseRecOn with
  | nil => cases h
  | append_singleton history r ih =>
    rw [ofHistory_concat] at h
    rcases mem_fillSlot h with rfl | hmem
    · simp [size_ofHistory]
    · exact Nat.lt_of_lt_of_le (ih hmem) (by simp)

/-- What older methods are does not change. -/
theorem get_ofHistory_concat (h : id.index < history.length) :
    (ofHistory (history ++ [r])).get id = (ofHistory history).get id := by
  rw [get, get, get?_ofHistory, get?_ofHistory, List.getElem?_append_left h]

theorem get_ofHistory_length (history : List Registration) (r : Registration) :
    (ofHistory (history ++ [r])).get ⟨history.length⟩ = r.toMethod ⟨history.length⟩ := by
  simp [get, get?_ofHistory]

/-- One more registration fills a slot of its own family. -/
theorem own_ofHistory_concat (history : List Registration) (r : Registration) (owner : TypeId)
    (name : String) :
    (ofHistory (history ++ [r])).own owner name =
      if r.isFor owner name then
        fillSlot (fun id => ((ofHistory history).get id).decl.signature == r.decl.signature)
          ⟨history.length⟩ ((ofHistory history).own owner name)
      else (ofHistory history).own owner name := by
  have hslots : (ofHistory (history ++ [r])).slots =
      fillSlot ((ofHistory history).replacedBy r.owner r.decl) ⟨history.length⟩
        (ofHistory history).slots := by
    rw [ofHistory_concat, register, size_ofHistory]
  have hnew : ((((ofHistory (history ++ [r])).get ⟨history.length⟩).owner == owner) &&
      ((ofHistory (history ++ [r])).get ⟨history.length⟩).name == name) = r.isFor owner name := by
    rw [get_ofHistory_length]
    rfl
  rw [own, hslots, filter_fillSlot (q := fun id =>
    ((ofHistory history).get id).owner == owner && ((ofHistory history).get id).name == name), hnew]
  · split
    · refine fillSlot_congr fun id hid => ?_
      simp [replacedBy] at hid ⊢
      grind [Registration.isFor]
    · rfl
  · intro id hid
    rw [get_ofHistory_concat (index_lt_of_mem_slots hid)]
  · intro id hid hreplaced
    rw [hnew]
    simp [replacedBy, Registration.isFor] at hreplaced ⊢
    grind

theorem eraseDups_concat [DecidableEq σ] (l : List σ) (s : σ) :
    (l ++ [s]).eraseDups = if s ∈ l then l.eraseDups else l.eraseDups ++ [s] := by
  by_cases h : s ∈ l <;> simp [List.eraseDups_append, List.removeAll, List.eraseDups_cons, h]

theorem nodup_eraseDups [DecidableEq σ] (l : List σ) : l.eraseDups.Nodup := by
  induction l using List.reverseRecOn with
  | nil => simp
  | append_singleton l s ih =>
    rw [eraseDups_concat]
    split <;> grind [List.mem_eraseDups]

/-- The active methods of a family, by their signatures. -/
theorem own_signatures (history : List Registration) (owner : TypeId) (name : String) :
    ((ofHistory history).own owner name).map
        (fun id => ((ofHistory history).get id).decl.signature) =
      ((history.filter (·.isFor owner name)).map (·.decl.signature)).eraseDups := by
  induction history using List.reverseRecOn with
  | nil => rfl
  | append_singleton history r ih =>
    have hold : ∀ id ∈ (ofHistory history).own owner name,
        ((ofHistory (history ++ [r])).get id).decl.signature =
          ((ofHistory history).get id).decl.signature := fun id hid => by
      rw [get_ofHistory_concat (index_lt_of_mem_slots (List.mem_filter.1 hid).1)]
    rw [own_ofHistory_concat]
    by_cases hfor : r.isFor owner name = true
    · rw [if_pos hfor, map_fillSlot hold (by rw [get_ofHistory_length]; rfl), ih]
      have hfilter : (history ++ [r]).filter (·.isFor owner name) =
          history.filter (·.isFor owner name) ++ [r] := by simp [hfor]
      rw [hfilter, List.map_append, List.map_singleton, eraseDups_concat]
      simp only [List.mem_eraseDups]
    · rw [if_neg hfor, List.map_congr_left hold, ih]
      simp [List.filter_append, hfor]

/-- A number stands for a method of an owner and name, and for its signature no later one was
registered. -/
def IsLatest (history : List Registration) (owner : TypeId) (name : String) (id : MethodId) :
    Prop :=
  ∃ r, history[id.index]? = some r ∧ r.isFor owner name ∧
    ∀ later r', id.index < later → history[later]? = some r' → r'.isFor owner name →
      r'.decl.signature ≠ r.decl.signature

theorem IsLatest.concat (h : IsLatest history owner name id)
    (hother : r.isFor owner name → ((ofHistory history).get id).decl.signature ≠ r.decl.signature) :
    IsLatest (history ++ [r]) owner name id := by
  obtain ⟨old, hold, hfor, hlast⟩ := h
  have hlt := (List.getElem?_eq_some_iff.1 hold).1
  refine ⟨old, by rwa [List.getElem?_append_left hlt], hfor, fun later r' hlater hr' hfor' => ?_⟩
  by_cases hlength : later < history.length
  · rw [List.getElem?_append_left hlength] at hr'
    exact hlast later r' hlater hr' hfor'
  · have hsame : r' = r := by grind
    rw [get, get?_ofHistory, hold] at hother
    exact hsame ▸ (hother (hsame ▸ hfor')).symm

theorem isLatest_of_mem_own (h : id ∈ (ofHistory history).own owner name) :
    IsLatest history owner name id := by
  induction history using List.reverseRecOn with
  | nil => cases h
  | append_singleton history r ih =>
    rw [own_ofHistory_concat] at h
    by_cases hfor : r.isFor owner name = true
    · rw [if_pos hfor] at h
      have hnodup := own_signatures history owner name ▸ nodup_eraseDups _
      rcases mem_fillSlot_cases hnodup h with rfl | ⟨hold, hne⟩
      · refine ⟨r, by simp, hfor, fun later r' hlater hr' => ?_⟩
        have hlt := (List.getElem?_eq_some_iff.1 hr').1
        simp at hlt hlater
        omega
      · exact (ih hold).concat fun _ => hne
    · rw [if_neg hfor] at h
      exact (ih h).concat fun hfor' => absurd hfor' hfor

/-- Registering methods, one after the other, keeps every method under its number and gives new
methods new numbers.  Of the methods of an owner and name, one is active for each signature, in
the order in which the signatures first occurred: the one that was registered last. -/
theorem ofHistory_own (history : List Registration) (owner : TypeId) (name : String) :
    (∀ i r, history[i]? = some r →
      ((ofHistory (history.take i)).register r.owner r.decl r.origin).1 = ⟨i⟩ ∧
        (ofHistory history).get? ⟨i⟩ = some (r.toMethod ⟨i⟩)) ∧
      ((ofHistory history).own owner name).map
          (fun id => ((ofHistory history).get id).decl.signature) =
        ((history.filter (·.isFor owner name)).map (·.decl.signature)).eraseDups ∧
      ∀ id ∈ (ofHistory history).own owner name, IsLatest history owner name id := by
  refine ⟨fun i r hr => ⟨?_, ?_⟩, own_signatures history owner name, fun _ => isLatest_of_mem_own⟩
  · have hi : i < history.length := (List.getElem?_eq_some_iff.1 hr).1
    have hsize := size_ofHistory (history.take i)
    rw [List.length_take, Nat.min_eq_left (Nat.le_of_lt hi)] at hsize
    exact congrArg MethodId.mk hsize
  · rw [get?_ofHistory, hr]
    rfl

/-- `pick` is declared for a `Bar`, for a `Foo`, and for a `Bar` again. -/
def redeclared : List Registration :=
  ["Bar", "Foo", "Bar"].map fun cls =>
    ⟨.program, ⟨"pick", [⟨"x", none, some (.path [cls] false)⟩], none, none, false, .absent⟩, .user⟩

theorem ofHistory_own_redeclared : (ofHistory redeclared).own .program "pick" = [⟨2⟩, ⟨1⟩] ∧
    IsLatest redeclared .program "pick" ⟨2⟩ := by
  have hown : (ofHistory redeclared).own .program "pick" = [⟨2⟩, ⟨1⟩] := by decide +kernel
  exact ⟨hown, (ofHistory_own redeclared .program "pick").2.2 ⟨2⟩ (by simp [hown])⟩

end MethodTable

end Callsite
