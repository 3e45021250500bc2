import Callsite.Inference.Dispatch
import Callsite.Proofs.Matching.Acceptance

/-!
# Overload resolution and dispatch

At run time the first match that includes the concrete argument types is taken.  Where all
restrictions name classes, that is the method which a lookup with the concrete types finds:
the first in the order of lookup that takes them.
-/

namespace Callsite.TypeTable

variable {t t' : TypeTable} {owner type c : TypeId} {types args tuple : List TypeId} {count : Nat}
  {candidate : MethodId}
variable {candidates : List MethodId} {cover : Cover}

/-! ## Tuples -/

/-- Whether types include concrete ones one by one. -/
def includesAll (t : TypeTable) (declared actual : List TypeId) : Bool :=
  declared.length == actual.length && (declared.zip actual).all fun (d, a) => t.includes d a

theorem mem_flatMap_cons {firsts : List TypeId} {rests : List (List TypeId)} :
    tuple ∈ (firsts.flatMap fun c => rests.map (c :: ·)) ↔
      ∃ c rest, c ∈ firsts ∧ rest ∈ rests ∧ tuple = c :: rest := by
  simp only [List.mem_flatMap, List.mem_map]
  constructor
  · rintro ⟨c, hc, rest, hrest, rfl⟩
    exact ⟨c, rest, hc, hrest, rfl⟩
  · rintro ⟨c, rest, hc, hrest, rfl⟩
    exact ⟨c, hc, rest, hrest, rfl⟩

theorem mem_concreteTuples : tuple ∈ t.concreteTuples types ↔ t.IsTuple types tuple := by
  induction types generalizing tuple with
  | nil => simp [concreteTuples, IsTuple]
  | cons type types ih =>
    rw [IsTuple, List.forall₂_cons_left_iff, concreteTuples, mem_flatMap_cons]
    simp only [ih, IsTuple]

theorem mem_tuples :
    tuple ∈ t.tuples types ↔ List.Forall₂ (fun type c => c ∈ t.choices type) types tuple := by
  induction types generalizing tuple with
  | nil => simp [tuples]
  | cons type types ih =>
    rw [List.forall₂_cons_left_iff, tuples, mem_flatMap_cons]
    simp only [ih]

theorem mem_choices_iff (hexact : (t.shape c).isExact = true) :
    c ∈ t.choices type ↔ c ∈ t.concreteTypes type := by
  rw [choices]
  split
  next hnone =>
    refine iff_of_false (fun hmem => ?_) (by simp [hnone])
    obtain rfl := List.mem_singleton.1 hmem
    simp [concreteTypes_of_isExact hexact] at hnone
  next => exact Iff.rfl

section

variable (hexact : ∀ c ∈ tuple, (t.shape c).isExact = true)
include hexact

theorem mem_tuples_iff : tuple ∈ t.tuples types ↔ t.IsTuple types tuple := by
  have hchoices : ∀ {type c}, (type, c) ∈ types.zip tuple →
      (c ∈ t.choices type ↔ c ∈ t.concreteTypes type) := fun hmem =>
    mem_choices_iff (hexact _ (List.of_mem_zip hmem).2)
  rw [mem_tuples, IsTuple, List.forall₂_iff_zip, List.forall₂_iff_zip]
  refine and_congr_right fun _ => ⟨fun hall type c hmem => ?_, fun hall type c hmem => ?_⟩
  · exact (hchoices hmem).1 (hall hmem)
  · exact (hchoices hmem).2 (hall hmem)

theorem includesAll_iff : t.includesAll types tuple = true ↔ t.IsTuple types tuple := by
  have hincludes : ∀ c ∈ tuple, ∀ type, t.includes type c = true ↔ c ∈ t.concreteTypes type := by
    intro c hc type
    rw [includes, Bool.or_eq_true, beq_iff_eq, List.contains_iff_mem]
    refine or_iff_right_of_imp ?_
    rintro rfl
    simp [concreteTypes_of_isExact (hexact type hc)]
  rw [includesAll, Bool.and_eq_true, beq_iff_eq, IsTuple, List.forall₂_iff_zip, List.all_eq_true]
  refine and_congr_right fun _ => ?_
  constructor
  · intro hall type c hmem
    exact (hincludes c (List.of_mem_zip hmem).2 type).1 (hall (type, c) hmem)
  · rintro hall ⟨type, c⟩ hmem
    exact (hincludes c (List.of_mem_zip hmem).2 type).2 (hall hmem)

/-- Concrete types are the only tuple of theirs. -/
theorem tuples_of_isExact : t.tuples tuple = [tuple] := by
  induction tuple with
  | nil => rfl
  | cons c rest ih =>
    have hchoices : t.choices c = [c] := by
      rw [choices, concreteTypes_of_isExact (hexact c List.mem_cons_self)]
    simp [tuples, hchoices, ih (List.forall_mem_cons.1 hexact).2]

end

theorem isExact_of_isTuple (hr : t.Regular) (hargs : ∀ arg ∈ args, t.IsArgument arg)
    (htuple : t.IsTuple args tuple) (hc : c ∈ tuple) : (t.shape c).isExact = true := by
  induction htuple with
  | nil => simp at hc
  | @cons arg c' args rest hmem _ ih =>
    rcases List.mem_cons.1 hc with rfl | hc
    · exact (hargs arg List.mem_cons_self).isExact hr hmem
    · exact ih (List.forall_mem_cons.1 hargs).2 hc

theorem Widens.isExact (h : t.Widens t') (hexact : (t.shape c).isExact = true) :
    (t'.shape c).isExact = true := by
  rwa [h.shape_eq c (known_of_isExact hexact)]

/-! ## Collecting matches -/

/-- One candidate: it is skipped, or kept if it covers something new. -/
theorem collectMatches_cons (owner : TypeId) (args : List TypeId) (candidate : MethodId)
    (rest : List MethodId) (cover : Cover) (t : TypeTable) :
    collectMatches owner args (candidate :: rest) cover t =
      if cover.isComplete then (([], cover), t)
      else
        match matchMethod candidate owner args t with
        | (none, t1) => collectMatches owner args rest cover t1
        | (some found, t1) =>
          let later := collectMatches owner args rest (cover.add t1 found.args).1 t1
          ((if (cover.add t1 found.args).2 then found :: later.1.1 else later.1.1, later.1.2),
            later.2) := by
  rw [collectMatches]
  split
  · rfl
  rw [run_bind]
  rcases matchMethod candidate owner args t with ⟨_ | found, t1⟩ <;> rfl

/-- The candidates have restrictions that name classes, and parameters for the arguments. -/
def Suit (t : TypeTable) (owner : TypeId) (count : Nat) (candidates : List MethodId) : Prop :=
  ∀ id ∈ candidates, t.ClassParams owner (t.method id).decl.params ∧
    count ≤ (t.method id).decl.params.length

theorem Suit.widens (h : t.Suit owner count candidates) (hm : t.Matchable owner)
    (hwidens : t.Widens t') : t'.Suit owner count candidates := by
  intro id hid
  rw [hwidens.method_eq]
  exact ⟨(h id hid).1.widens hm hwidens, (h id hid).2⟩

theorem Suit.tail (h : t.Suit owner count (candidate :: candidates)) :
    t.Suit owner count candidates :=
  (List.forall_mem_cons.1 h).2

/-- Matching a candidate leads on to a table where the others still suit. -/
theorem Suit.matchMethod (h : t.Suit owner args.length (candidate :: candidates))
    (hm : t.Matchable owner) (hargs : ∀ arg ∈ args, t.IsArgument arg) :
    let t1 := (TypeTable.matchMethod candidate owner args t).2
    t.Widens t1 ∧ t1.Matchable owner ∧ (∀ arg ∈ args, t1.IsArgument arg) ∧
      t1.Suit owner args.length candidates := by
  obtain ⟨hp, hlength⟩ := h candidate List.mem_cons_self
  obtain ⟨-, hselects⟩ := restrictArgs_selects hm hargs hp hlength
  have hwidens := hselects.widens
  exact ⟨hwidens, hwidens.matchable hselects.regular hm,
    fun arg harg => hwidens.isArgument (hargs arg harg), h.tail.widens hm hwidens⟩

section

variable (hm : t.Matchable owner) (hargs : ∀ arg ∈ args, t.IsArgument arg)
include hm hargs

/-- What is kept of a candidate includes a tuple if and only if the candidate takes it. -/
theorem matchMethod_isTuple_iff (hsuit : t.Suit owner args.length (candidate :: candidates))
    (htuple : t.IsTuple args tuple) :
    (∃ found, (matchMethod candidate owner args t).1 = some found ∧
        (matchMethod candidate owner args t).2.IsTuple found.args tuple) ↔
      t.takes owner (t.method candidate).decl.params tuple = true := by
  obtain ⟨hp, hlength⟩ := hsuit candidate List.mem_cons_self
  obtain ⟨-, hselects⟩ := restrictArgs_selects hm hargs hp hlength
  rw [← hselects.isTuple_iff tuple htuple, matchMethod_eq]
  constructor
  · rintro ⟨found, hfound, hmem⟩
    obtain ⟨types, htypes, rfl⟩ := Option.map_eq_some_iff.1 hfound
    exact ⟨types, htypes, hmem⟩
  · rintro ⟨types, htypes, hmem⟩
    exact ⟨_, Option.map_eq_some_iff.2 ⟨types, htypes, rfl⟩, hmem⟩

theorem known_of_matchMethod {found : Match}
    (hsuit : t.Suit owner args.length (candidate :: candidates))
    (hfound : (matchMethod candidate owner args t).1 = some found) : found.method = candidate ∧
      ∀ type ∈ found.args, (matchMethod candidate owner args t).2.Known type := by
  obtain ⟨hp, hlength⟩ := hsuit candidate List.mem_cons_self
  obtain ⟨-, hselects⟩ := restrictArgs_selects hm hargs hp hlength
  obtain ⟨types, htypes, rfl⟩ := Option.map_eq_some_iff.1 hfound
  exact ⟨rfl, hselects.known types htypes⟩

end

theorem mem_add_covered {t : TypeTable} {args tuple : List TypeId} {cover : Cover} :
    tuple ∈ (cover.add t args).1.covered ↔
      tuple ∈ cover.covered ∨ tuple ∈ t.tuples args ∧ cover.isNew tuple = true := by
  simp [Cover.add]

/-- The first match that includes a tuple comes from the first candidate that takes it.  No
earlier match covers the tuple, so that candidate covers something new. -/
theorem collectMatches_find? {taken : MethodId → Bool} (hm : t.Matchable owner)
    (hargs : ∀ arg ∈ args, t.IsArgument arg) (hsuit : t.Suit owner args.length candidates)
    (htaken : ∀ id ∈ candidates, t.takes owner (t.method id).decl.params tuple = taken id)
    (htuple : t.IsTuple args tuple) (hall : tuple ∈ cover.all) (hnew : tuple ∉ cover.covered) :
    let run := collectMatches owner args candidates cover t
    (run.1.1.find? fun m => run.2.includesAll m.args tuple).map (·.method) =
      candidates.find? taken := by
  induction candidates generalizing t cover with
  | nil => rfl
  | cons candidate rest ih =>
    have hmissing : cover.isComplete = false := by
      rw [Cover.isComplete, List.all_eq_false]
      exact ⟨tuple, hall, by simpa using hnew⟩
    have hisNew : cover.isNew tuple = true := by simp [Cover.isNew, hall, hnew]
    have hiff := matchMethod_isTuple_iff hm hargs hsuit htuple
    rw [htaken candidate List.mem_cons_self] at hiff
    have hknown := fun found (hfound : (matchMethod candidate owner args t).1 = some found) =>
      known_of_matchMethod hm hargs hsuit hfound
    obtain ⟨hwidens, hm1, hargs1, hsuit1⟩ := hsuit.matchMethod hm hargs
    have htuple1 := (hwidens.isTuple_iff hm.regular.founded hm1.regular.founded
      fun arg harg => (hargs arg harg).known).2 htuple
    have hexact : ∀ t', t.Widens t' → ∀ c ∈ tuple, (t'.shape c).isExact = true :=
      fun t' h c hc => h.isExact (isExact_of_isTuple hm.regular hargs htuple hc)
    have htaken1 : ∀ id ∈ rest,
        (matchMethod candidate owner args t).2.takes owner
          ((matchMethod candidate owner args t).2.method id).decl.params tuple = taken id := by
      intro id hid
      rw [hwidens.method_eq, ← htaken id (List.mem_cons_of_mem candidate hid)]
      exact (hsuit.tail id hid).1.takes_eq hm hwidens tuple
    rw [collectMatches_cons, hmissing]
    rcases hrun : matchMethod candidate owner args t with ⟨_ | found, t1⟩
    · rw [hrun] at hiff hm1 hargs1 hsuit1 htuple1 htaken1
      have hnot : ¬ taken candidate = true := fun h => by simpa using hiff.2 h
      rw [List.find?_cons_of_neg hnot]
      exact ih hm1 hargs1 hsuit1 htaken1 htuple1 hall hnew
    · rw [hrun] at hiff hm1 hargs1 hsuit1 htuple1 htaken1 hknown hwidens
      obtain ⟨hmethod, hfound⟩ := hknown found rfl
      obtain ⟨hlater, hregular, -, -⟩ :=
        collectMatches_joining Regular.keptByJoins hm1.regular owner
        args rest (cover.add t1 found.args).1
      have hincluded : (collectMatches owner args rest (cover.add t1 found.args).1 t1).2.includesAll
          found.args tuple = true ↔ t1.IsTuple found.args tuple := by
        rw [includesAll_iff (hexact _ (hwidens.trans hlater))]
        exact hlater.isTuple_iff hm1.regular.founded hregular.founded hfound
      have hcovered : tuple ∈ t1.tuples found.args ↔ t1.IsTuple found.args tuple :=
        mem_tuples_iff (hexact t1 hwidens)
      by_cases htakes : taken candidate = true
      · obtain ⟨found', heq, hmem⟩ := hiff.2 htakes
        cases heq
        have hadds : (cover.add t1 found.args).2 = true := by
          have hfresh : tuple ∈ (t1.tuples found.args).filter cover.isNew :=
            List.mem_filter.2 ⟨hcovered.2 hmem, hisNew⟩
          simp only [Cover.add, Bool.not_eq_true', List.isEmpty_eq_false_iff]
          exact List.ne_nil_of_mem hfresh
        rw [List.find?_cons_of_pos htakes]
        simp [hadds, hincluded.2 hmem, hmethod]
      · have hmem : ¬ t1.IsTuple found.args tuple := fun h => htakes (hiff.1 ⟨found, rfl, h⟩)
        have hnew1 : tuple ∉ (cover.add t1 found.args).1.covered := by
          rw [mem_add_covered, hcovered]
          tauto
        have hall1 : tuple ∈ (cover.add t1 found.args).1.all := hall
        rw [List.find?_cons_of_neg htakes, ← ih hm1 hargs1 hsuit1 htaken1 htuple1 hall1 hnew1]
        have hnot : (collectMatches owner args rest (cover.add t1 found.args).1 t1).2.includesAll
            found.args tuple = false := by
          rw [Bool.eq_false_iff]
          exact fun h => hmem (hincluded.1 h)
        simp only [Bool.false_eq_true, if_false]
        split
        · simp only [List.find?_cons, hnot]
        · rfl

/-- Nothing is added to a complete cover. -/
theorem collectMatches_of_isComplete (h : cover.isComplete = true) :
    collectMatches owner args candidates cover t = (([], cover), t) := by
  cases candidates with
  | nil => rfl
  | cons candidate rest => rw [collectMatches_cons, if_pos h]

/-- Concrete arguments match the first candidate that takes them, and no other. -/
theorem collectMatches_of_isExact (hsuit : t.Suit owner tuple.length candidates)
    (hexact : ∀ c ∈ tuple, (t.shape c).isExact = true) :
    (collectMatches owner tuple candidates (.ofArgs t tuple) t).1.1.map (·.method) =
      (candidates.find? fun id => t.takes owner (t.method id).decl.params tuple).toList := by
  have hcover : Cover.ofArgs t tuple = ⟨[tuple], []⟩ := by
    rw [Cover.ofArgs, tuples_of_isExact hexact]
  rw [hcover]
  induction candidates with
  | nil => rfl
  | cons candidate rest ih =>
    obtain ⟨hp, hlength⟩ := hsuit candidate List.mem_cons_self
    have hmatch := matchMethod_eq candidate owner tuple t
    rw [restrictArgs_of_isExact hp hexact hlength] at hmatch
    rw [collectMatches_cons, if_neg (by simp [Cover.isComplete]), hmatch]
    by_cases htakes : t.takes owner (t.method candidate).decl.params tuple = true
    · have hadd : (⟨[tuple], []⟩ : Cover).add t tuple = (⟨[tuple], [tuple]⟩, true) := by
        simp [Cover.add, tuples_of_isExact hexact, Cover.isNew]
      have hcomplete : (⟨[tuple], [tuple]⟩ : Cover).isComplete = true := by simp [Cover.isComplete]
      simp [htakes, hadd, collectMatches_of_isComplete hcomplete]
    · simp only [htakes, Bool.false_eq_true, if_false, Option.map_none, not_false_eq_true,
        List.find?_cons_of_neg]
      exact ih hsuit.tail

/-! ## Lookup -/

section

variable (h : t.Widens t') (hf : t.Founded) (hk : t.Known owner) (name : String)
include h hf hk

theorem Widens.methodsNamed_eq : t'.methodsNamed owner name = t.methodsNamed owner name := by
  have hbelow := hf.below owner hk
  have hfind : ∀ c, t'.find? (.metaclass c) = t.find? (.metaclass c) :=
    fun _ => h.find?_eq (by simp) (by simp) (by simp)
  have hchain : t'.methodChain owner = t.methodChain owner := by
    rw [methodChain, methodChain, h.shape_eq owner hk]
    cases hshape : t.shape owner with
    | cls | applied => exact h.grows.ancestors_eq hf hk
    | hierarchy base | metaclass base | hierarchyMetaclass base =>
      rw [hshape] at hbelow
      simp only [h.grows.ancestors_eq hf (hbelow.trans hk), hfind]
    | _ => rfl
  have hmeta : t'.isMetaclass owner = t.isMetaclass owner := by
    rw [isMetaclass, isMetaclass, h.shape_eq owner hk]
  have hinherited : t'.inheritedByMeta name = t.inheritedByMeta name := by
    funext chain
    simp only [inheritedByMeta, h.methods_eq, h.method_eq]
  rw [methodsNamed, methodsNamed, hchain, hmeta, hinherited, h.methods_eq]

theorem Widens.fittingMethods_eq (arity : Nat) (hasBlock : Bool) :
    t'.fittingMethods owner name arity hasBlock = t.fittingMethods owner name arity hasBlock := by
  simp only [fittingMethods, h.methodsNamed_eq hf hk, h.method_eq]

end

theorem suit_fittingMethods {name : String} {hasBlock : Bool}
    (hparams : ∀ id ∈ t.fittingMethods owner name count hasBlock,
      t.ClassParams owner (t.method id).decl.params) :
    t.Suit owner count (t.fittingMethods owner name count hasBlock) := by
  intro id hid
  have haccepts := (List.mem_filter.1 hid).2
  simp only [Method.accepts, MethodDecl.acceptsArity, Bool.and_eq_true, decide_eq_true_eq]
    at haccepts
  exact ⟨hparams id hid, haccepts.1.2⟩

/-- Resolution agrees with dispatch: for every tuple of concrete types of the arguments, the
first match that includes the tuple has the method that is found for the tuple itself, and
there is none if nothing is found. -/
theorem lookupMatches_dispatch {name : String} {hasBlock : Bool} (hr : t.Reached)
    (hc : t.OverClasses) (hk : t.Known owner) (howner : t.isHierarchy owner = false)
    (hargs : ∀ arg ∈ args, t.IsArgument arg)
    (hparams : ∀ id ∈ t.fittingMethods owner name args.length hasBlock,
      t.ClassParams owner (t.method id).decl.params)
    (htuple : tuple ∈ t.concreteTuples args) :
    let wide := lookupMatches owner name args hasBlock t
    let exact := lookupMatches owner name tuple hasBlock wide.2
    exact.1.found.map (·.method) =
      ((wide.1.found.find? fun m => wide.2.includesAll m.args tuple).map (·.method)).toList := by
  intro wide exact
  have hm : t.Matchable owner := ⟨hr.regular, hc, hk, howner⟩
  have htuple := mem_concreteTuples.1 htuple
  have hexact : ∀ c ∈ tuple, (t.shape c).isExact = true :=
    fun c hc => isExact_of_isTuple hm.regular hargs htuple hc
  have hsuit := suit_fittingMethods hparams
  have hwidens : t.Widens wide.2 :=
    (lookupMatches_joining Regular.keptByJoins hm.regular owner args name hasBlock).widens
  have hcandidates : wide.2.fittingMethods owner name tuple.length hasBlock =
      t.fittingMethods owner name args.length hasBlock := by
    rw [hwidens.fittingMethods_eq hm.regular.founded hm.known, htuple.length_eq]
  have hexact' : ∀ c ∈ tuple, (wide.2.shape c).isExact = true :=
    fun c hc => hwidens.isExact (hexact c hc)
  have hsuit' : wide.2.Suit owner tuple.length
      (wide.2.fittingMethods owner name tuple.length hasBlock) := by
    rw [hcandidates, ← htuple.length_eq]
    exact hsuit.widens hm hwidens
  have htaken : ∀ id ∈ t.fittingMethods owner name args.length hasBlock,
      t.takes owner (t.method id).decl.params tuple =
        wide.2.takes owner (wide.2.method id).decl.params tuple := by
    intro id hid
    rw [hwidens.method_eq, (hparams id hid).takes_eq hm hwidens]
  have hall : tuple ∈ (Cover.ofArgs t args).all := (mem_tuples_iff hexact).2 htuple
  have hnew : tuple ∉ (Cover.ofArgs t args).covered := by simp [Cover.ofArgs]
  have hfind := collectMatches_find? hm hargs hsuit htaken htuple hall hnew
  have hfound := collectMatches_of_isExact hsuit' hexact'
  rw [hcandidates] at hfound
  calc exact.1.found.map (·.method)
      = (collectMatches owner tuple (wide.2.fittingMethods owner name tuple.length hasBlock)
          (.ofArgs wide.2 tuple) wide.2).1.1.map (·.method) := rfl
    _ = ((t.fittingMethods owner name args.length hasBlock).find? fun id =>
          wide.2.takes owner (wide.2.method id).decl.params tuple).toList := by
            rw [hcandidates, hfound]
    _ = ((wide.1.found.find? fun m => wide.2.includesAll m.args tuple).map (·.method)).toList :=
        congrArg Option.toList hfind.symm

/-- The family with two methods `pick` of `Foo`: the first takes a `Bar`, the second any `Foo`.
The hierarchy `Foo+` is in the table. -/
def overloaded : TypeTable :=
  let pick := fun cls : String =>
    MethodDecl.mk "pick" [⟨"x", none, some (.path [cls] false)⟩] none none false .absent
  (hierarchy ⟨14⟩
    (register ⟨14⟩ (pick "Foo") .user (register ⟨14⟩ (pick "Bar") .user family).2).2).2

theorem overloaded_reached : overloaded.Reached :=
  .hierarchy (.register (.register family_reached _ _ _) _ _ _) (by decide +kernel)

theorem overloaded_classParams :
    ∀ id ∈ overloaded.fittingMethods ⟨14⟩ "pick" 1 false,
      overloaded.ClassParams ⟨14⟩ (overloaded.method id).decl.params := by
  have hfitting : overloaded.fittingMethods ⟨14⟩ "pick" 1 false = [⟨18⟩, ⟨19⟩] := by decide +kernel
  have hnames : ∀ id cls target,
      (overloaded.method id).decl.params.map (·.restriction) = [some (.path [cls] false)] →
      overloaded.lookupPath (overloaded.lookupScope ⟨14⟩) [cls] false = some target →
      (overloaded.classInfo? target).isSome = true →
      overloaded.ClassParams ⟨14⟩ (overloaded.method id).decl.params := by
    intro id cls target hrestrictions hlookup hclass param hparam restriction hrestriction
    have hmem := List.mem_map_of_mem (f := (·.restriction)) hparam
    rw [hrestrictions, List.mem_singleton, hrestriction] at hmem
    cases hmem
    obtain ⟨info, hinfo⟩ := Option.isSome_iff_exists.1 hclass
    have hvars : overloaded.typeVars (overloaded.instanceType ⟨14⟩) = [] := by decide +kernel
    exact ⟨target, [cls], false, rfl, hlookup, ⟨info, classInfo?_eq_some_iff.1 hinfo⟩,
      by simp [hvars]⟩
  rw [hfitting]
  intro id hid
  simp only [List.mem_cons, List.not_mem_nil, or_false] at hid
  rcases hid with rfl | rfl
  · exact hnames ⟨18⟩ "Bar" ⟨15⟩ (by decide +kernel) (by decide +kernel) (by decide +kernel)
  · exact hnames ⟨19⟩ "Foo" ⟨14⟩ (by decide +kernel) (by decide +kernel) (by decide +kernel)

/-- A `Baz` among the values of `Foo+` is picked by the second method. -/
theorem lookupMatches_dispatch_overloaded :
    let wide := lookupMatches ⟨14⟩ "pick" [⟨17⟩] false overloaded
    overloaded.Reached ∧ overloaded.OverClasses ∧ [⟨16⟩] ∈ overloaded.concreteTuples [⟨17⟩] ∧
      ((wide.1.found.find? fun m => wide.2.includesAll m.args [⟨16⟩]).map (·.method)).toList =
        [⟨19⟩] ∧
      (lookupMatches ⟨14⟩ "pick" [⟨16⟩] false wide.2).1.found.map (·.method) =
        ((wide.1.found.find? fun m => wide.2.includesAll m.args [⟨16⟩]).map (·.method)).toList := by
  have hc : overloaded.OverClasses := by decide +kernel
  have htuple : [⟨16⟩] ∈ overloaded.concreteTuples [⟨17⟩] := by decide +kernel
  have harg : overloaded.IsArgument ⟨17⟩ := ⟨by decide +kernel, by decide, by decide +kernel⟩
  refine ⟨overloaded_reached, hc, htuple, by decide +kernel, ?_⟩
  exact lookupMatches_dispatch overloaded_reached hc (by decide +kernel) (by decide +kernel)
    (by simpa using harg) overloaded_classParams htuple

end Callsite.TypeTable
