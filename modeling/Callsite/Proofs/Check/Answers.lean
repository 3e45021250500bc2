import Callsite.Proofs.Engine.Walk
import Callsite.Proofs.Program.Written

/-!
# Shared instances

A session records which instance every request for a shared one was answered with.  The cache
looks requests up under a key that lists the type of `self` and the arguments in one row.  For a
method without default values the number of arguments tells the two apart, and its entry is made
before anything can ask for it again: each request is answered with an instance that is exactly
what it asks for, and with the same one whenever it is made.  With default values neither holds.
-/

namespace Callsite

open Written

variable {s s' : Session} {A A' : Agenda} {O : Set CallId} {request : Request} {id : InstanceId}

/-- Two requests under one key are the same, when both fit a number of parameters that no argument
may be left out of. -/
theorem Request.eq_of_key {a b : Request} {count : Nat} (hkey : a.key = b.key)
    (ha : a.args.length ≤ count) (hb : b.args.length ≤ count)
    (ha_super : a.selfType.isSome = true → a.args.length = count)
    (hb_super : b.selfType.isSome = true → b.args.length = count) : a = b := by
  obtain ⟨method, owner, selfType, args, block⟩ := a
  obtain ⟨method', owner', selfType', args', block'⟩ := b
  simp only [key, InstanceKey.mk.injEq] at hkey
  obtain ⟨rfl, rfl, hrow, rfl⟩ := hkey
  cases selfType with
  | none =>
    cases selfType' with
    | none => simpa using hrow
    | some self' =>
      have hfull : args'.length = count := hb_super rfl
      have hlength : args.length = args'.length + 1 := by
        simpa using congrArg List.length hrow
      have hle : args.length ≤ count := ha
      omega
  | some self =>
    cases selfType' with
    | none =>
      have hfull : args.length = count := ha_super rfl
      have hlength : args.length + 1 = args'.length := by
        simpa using congrArg List.length hrow
      have hle : args'.length ≤ count := hb
      omega
    | some self' => simpa using hrow

/-- An instance was made for a request under the key of the given one, and is still in the cache
if the method has no default values. -/
structure Session.Answers (s : Session) (request : Request) (id : InstanceId) : Prop where
  made : ∃ maker : Request, maker.key = request.key ∧ s.Serves maker id ∧ s.HasArity maker
  arity : s.HasArity request
  cached : s.mayOmit request = false → s.cache.find? request.key = some id

theorem Session.Before.answers (hb : s.Before s') (h : s.Answers request id) :
    s'.Answers request id := by
  obtain ⟨maker, hkey, hserves, hmaker⟩ := h.made
  refine ⟨⟨maker, hkey, hb.serves hserves, hb.hasArity hmaker⟩, hb.hasArity h.arity, ?_⟩
  intro homit
  rw [mayOmit_of_grows hb.types h.arity.known] at homit
  exact hb.cached request id h.arity.known homit (h.cached homit)

theorem Session.Answers.serves (h : s.Answers request id) (homit : s.mayOmit request = false) :
    s.Serves request id := by
  obtain ⟨maker, hkey, hserves, hmaker⟩ := h.made
  have hmethod : maker.method = request.method := congrArg InstanceKey.method hkey
  have homit' : s.mayOmit maker = false := by rwa [mayOmit, hmethod]
  have hle := hmaker.le homit'
  have hsuper := hmaker.eq_of_super homit'
  rw [hmethod] at hle hsuper
  obtain rfl := Request.eq_of_key hkey hle (h.arity.le homit) hsuper (h.arity.eq_of_super homit)
  exact hserves

/-! ## What is recorded -/

/-- An instance that calls may share is recorded when a request is answered with it. -/
theorem Infer.instantiate_recorded
    {engine : Engine} {call : CallId} {found : Match} {selfType : Option TypeId}
    (hrun : instantiate engine call found selfType s = .ok id s') :
    ∃ found' declared s1, matchBlock engine call found s = .ok (found', declared) s1 ∧
      ((s1.call call).block = none ∨ (s1.types.method found'.method).decl.blockParam ≠ none →
        ∃ block,
          (⟨found'.method, found'.owner, selfType, found'.args, block⟩, id) ∈ s'.answers) := by
  obtain ⟨⟨found', declared⟩, s1, hmatch, hrest⟩ := ok_of_bind_ok hrun
  refine ⟨found', declared, s1, hmatch, fun hshared => ?_⟩
  have hisShared : ((s1.call call).block.isNone ||
      (s1.types.method found'.method).decl.blockParam.isSome) = true := by
    simpa [Option.isSome_iff_ne_none] using hshared
  obtain ⟨_, _, hget, hrest⟩ := ok_of_bind_ok hrest
  obtain ⟨rfl, rfl⟩ : s1 = _ ∧ s1 = _ := EStateM.Result.ok.inj hget
  simp only [hisShared, if_true] at hrest
  generalize (if (s1.types.method found'.method).decl.blockParam.isSome = true then
    (s1.call call).block.bind fun b => b.visit.node?.bind s1.typeOf else none) = block at hrest
  obtain ⟨cached, s2, -, hrest⟩ := ok_of_bind_ok hrest
  -- Whether the instance is an old one or a new one, recording it is the last step.
  have hlast : ∀ made s3,
      answer ⟨found'.method, found'.owner, selfType, found'.args, block⟩ made s3 = .ok id s' →
      (⟨found'.method, found'.owner, selfType, found'.args, block⟩, id) ∈ s'.answers := by
    intro made s3 hrecord
    cases hrecord
    exact List.mem_cons_self
  refine ⟨block, ?_⟩
  cases cached with
  | some shared =>
    obtain ⟨_, s3, -, hrecord⟩ := ok_of_bind_ok hrest
    exact hlast shared s3 hrecord
  | none =>
    obtain ⟨made, s3, -, hrest⟩ := ok_of_bind_ok hrest
    obtain ⟨_, s4, -, hrest⟩ := ok_of_bind_ok hrest
    obtain ⟨_, s5, -, hrecord⟩ := ok_of_bind_ok hrest
    exact hlast made s5 hrecord

/-- Every move keeps what is recorded right. -/
theorem Move.answers (h : Move O (s, A) (s', A'))
    (hs : ∀ entry ∈ s.answers, s.Answers entry.1 entry.2) :
    ∀ entry ∈ s'.answers, s'.Answers entry.1 entry.2 := by
  have hb := h.before
  cases h with
  | answer request maker id hkey hserves harity hmaker hcached =>
    exact List.forall_mem_cons.2 ⟨hb.answers ⟨⟨maker, hkey, hserves, hmaker⟩, harity, hcached⟩,
      fun entry hold => hb.answers (hs entry hold)⟩
  | _ => exact fun entry hentry => hb.answers (hs entry hentry)

/-! ## Runs -/

namespace Session

theorem Reached.answers {options : InferenceOptions} (h : Reached options s) :
    ∀ entry ∈ s.answers, s.Answers entry.1 entry.2 := by
  obtain ⟨A, hevolves⟩ := h.evolves
  exact hevolves.keeps (P := fun s _ => ∀ entry ∈ s.answers, s.Answers entry.1 entry.2)
    (fun hmove => hmove.answers) fun _ hentry => absurd hentry List.not_mem_nil

/-- In every run, a request is answered with an instance that was made under its key.  For a
method without default values this is exactly the instance that was asked for, the same one each
time.  That all answers are among those recorded is `Infer.instantiate_recorded`. -/
theorem Reached.answers_serve {options : InferenceOptions} (h : Reached options s)
    (hanswer : (request, id) ∈ s.answers) :
    (∃ maker : Request, maker.key = request.key ∧ s.Serves maker id) ∧
      (s.mayOmit request = false →
        s.Serves request id ∧ ∀ other, (request, other) ∈ s.answers → other = id) := by
  have hanswers : s.Answers request id := h.answers (request, id) hanswer
  refine ⟨?_, fun homit => ⟨hanswers.serves homit, fun other hother => ?_⟩⟩
  · obtain ⟨maker, hkey, hserves, -⟩ := hanswers.made
    exact ⟨maker, hkey, hserves⟩
  · have hfound := (h.answers (request, other) hother).cached homit
    rw [hanswers.cached homit] at hfound
    exact (Option.some.inj hfound).symm

/-- A method `foo` of a class `P`, with a parameter `x` and perhaps more, and one of a class `C`
below it that goes on with `super`; both are called. -/
def inherited (more : List Param) (args : List Expr) : Program :=
  program
    [ classDecl "P" none [methodDecl "foo" (.plain "x" :: more) (var "x")],
      classDecl "C" (some "P") [methodDecl "foo" [.plain "x"] (ask "super" [])],
      send (new "C") "foo" [int 1], send (new "P") "foo" args ]

/-- `super` and a call of the method itself ask for two instances of `P#foo(Int32)`, since they
differ in the type of `self`. -/
theorem Reached.answers_serve_inherited :
    let s := ((Session.start default).check (inherited [] [int 1])).2
    let viaSuper : Request := ⟨⟨18⟩, ⟨14⟩, some ⟨16⟩, [.int32], none⟩
    let direct : Request := ⟨⟨18⟩, ⟨14⟩, none, [.int32], none⟩
    s.Serves viaSuper ⟨2⟩ ∧ s.Serves direct ⟨4⟩ := by
  intro s viaSuper direct
  have hrun : Reached default s := .check _ .start
  have hanswers : ((viaSuper, ⟨2⟩) ∈ s.answers ∧ s.mayOmit viaSuper = false) ∧
      ((direct, ⟨4⟩) ∈ s.answers ∧ s.mayOmit direct = false) := by decide +kernel
  exact ⟨((hrun.answers_serve hanswers.1.1).2 hanswers.1.2).1,
    ((hrun.answers_serve hanswers.2.1).2 hanswers.2.2).1⟩

/-- With a default value, `super` for one argument and a call with two have one key: the call is
answered with the instance that was made for `super`. -/
theorem answers_not_serve_row :
    let y : Param := ⟨"y", some (.generated .nil), none⟩
    let args : List Expr := [new "C", int 1]
    let s := ((Session.start default).check (inherited [y] args)).2
    let request : Request := ⟨⟨18⟩, ⟨14⟩, none, [⟨16⟩, .int32], none⟩
    (request, ⟨2⟩) ∈ s.answers ∧ ¬ s.Serves request ⟨2⟩ := by
  intro y args s request
  have hanswer : (request, ⟨2⟩) ∈ s.answers ∧ (s.instanceAt ⟨2⟩).args ≠ request.args := by
    decide +kernel
  exact ⟨hanswer.1, fun hserves => hanswer.2 hserves.args⟩

end Session

end Callsite
