import Vibe.Proofs.Machine.Steadiness

/-! Programs are in the scopes that their text shows. What a part of a run does itself, and not in
the calls that it makes, is done in scopes within the current one, and the body of a skill is
executed within its home. -/

namespace Vibe

/-- Whether an instruction depends on the current scope. -/
def Instr.isLocal {α : Type} : Instr α → Bool
  | lookup .. | assign .. | newSkill .. => true
  | newScope home => home.isNone
  | define _ _ _ scope => scope.isNone
  | _ => false

/-- There is a current scope, and the inner scope, if any, was made in it. -/
structure Machine.Around (m : Machine) (inner : Option Nat) : Prop where
  size : m.scope < m.store.scopes.size
  parent : ∀ s ∈ inner, m.store.parent? s = some m.scope
  younger : ∀ s ∈ inner, m.scope < s

theorem Machine.Around.onward {m m' : Machine} {inner : Option Nat} (h : m.Around inner)
    (hm : m.Onward m') : m'.Around inner where
  size := by
    rw [hm.scope]
    exact Nat.lt_of_lt_of_le h.size hm.store.size
  parent s hs := by
    have hparent := h.parent s hs
    rw [hm.scope, hm.store.parents s (Store.lt_size_of_parent hparent)]
    exact hparent
  younger s hs := by
    rw [hm.scope]
    exact h.younger s hs

namespace Watched

/-- A part of a run that does all it does itself in scopes within the current one. It may also
enter the inner scope. -/
structure Lexical {α : Type} (inner : Option Nat) (p : Watched α) : Prop extends Steady p where
  within : ∀ (calls : List Span) (m : Machine), m.Around inner → ∀ mo ∈ (p calls m).2,
    mo.calls = calls → m.scope ∈ mo.machine.store.chain mo.machine.scope

namespace Lexical

variable {α β : Type} {inner : Option Nat} {p : Watched α} {evalW : Expr → Watched Value}
  {execW : Stmt → Watched Flow}

theorem mono (h : Lexical none p) : Lexical inner p :=
  ⟨h.toSteady, fun calls m hm => h.within calls m ⟨hm.size, nofun, nofun⟩⟩

theorem pure (a : α) : Lexical inner (Pure.pure a : Watched α) :=
  ⟨.pure a, fun _ _ _ _ hmo => (List.not_mem_nil hmo).elim⟩

theorem act (i : Instr α) : Lexical inner (Interpreter.act i : Watched α) :=
  ⟨.act i, fun _ _ hm mo hmo _ => by
    obtain rfl := List.mem_singleton.1 hmo
    exact Store.mem_chain_self hm.size⟩

theorem bind {f : α → Watched β} (h : Lexical inner p) (hf : ∀ a, Lexical inner (f a)) :
    Lexical inner (p >>= f) where
  toSteady := h.toSteady.bind fun a => (hf a).toSteady
  within calls m hm mo hmo hcalls := by
    rcases mem_bind.1 hmo with hseen | ⟨a, m', hout, hlater⟩
    · exact h.within calls m hm mo hseen hcalls
    · have honward := h.onward_of_done hout
      have hmem := (hf a).within calls m' (hm.onward honward) mo hlater hcalls
      rwa [honward.scope] at hmem

theorem orElse {f : Fault → Watched α} (h : Lexical inner p) (hf : ∀ e, Lexical inner (f e)) :
    Lexical inner (Interpreter.orElse p f : Watched α) where
  toSteady := h.toSteady.orElse fun e => (hf e).toSteady
  within calls m hm mo hmo hcalls := by
    rcases mem_orElse.1 hmo with hseen | ⟨e, m', hout, hlater⟩
    · exact h.within calls m hm mo hseen hcalls
    · have honward := h.onward_of_failed hout
      have hmem := (hf e).within calls m' (hm.onward honward) mo hlater hcalls
      rwa [honward.scope] at hmem

/-- What is within a scope in the current one is within the current one. -/
theorem inScope {scope : Nat} (h : Lexical none p) :
    Lexical (some scope) (Interpreter.inScope scope p : Watched α) where
  toSteady := h.toSteady.inScope scope
  within calls m hm mo hmo hcalls := by
    have hparent := hm.parent scope rfl
    have hinner : Machine.Around { m with scope } none :=
      ⟨Store.lt_size_of_parent hparent, nofun, nofun⟩
    have hmem := h.within calls { m with scope } hinner mo hmo hcalls
    have houter : m.scope ∈ m.store.chain scope :=
      Store.mem_chain_of_parent hparent (hm.younger scope rfl) (Store.mem_chain_self hm.size)
    exact Store.mem_chain_trans
      ((h.amid calls { m with scope } mo hmo).before.mem_chain houter) hmem

/-- The inner scope may be made on the way. -/
theorem withScope {f : Nat → Watched α} (hf : ∀ scope, Lexical (some scope) (f scope)) :
    Lexical inner (Interpreter.withScope none f : Watched α) := by
  refine mono ⟨(Steady.act (.newScope none)).bind fun scope => (hf scope).toSteady, ?_⟩
  intro calls m hm mo hmo hcalls
  rcases mem_bind.1 hmo with hseen | ⟨scope, m', hout, hlater⟩
  · exact (act (.newScope none)).within calls m hm mo hseen hcalls
  · obtain ⟨rfl, rfl⟩ : m.store.scopes.size = scope ∧ (Instr.newScope none).after m = m' :=
      Outcome.done.inj hout
    have hmade : ((Instr.newScope none).after m).Around (some m.store.scopes.size) := by
      refine ⟨Nat.lt_of_lt_of_le hm.size (Store.Keeps.newScope _ _).size, ?_, ?_⟩
      · rintro _ ⟨⟩
        exact Store.parent?_newScope _ _
      · rintro _ ⟨⟩
        exact hm.size
    exact (hf _).within calls _ hmade mo hlater hcalls

/-- Nothing of a call is done by what makes it. -/
theorem asCall (span : Span) (h : p.Steady) :
    Lexical inner (Interpreter.asCall span p : Watched α) where
  toSteady := (Steady.act (.enter span)).bind fun _ => h.deeper span
  within calls m hm mo hmo hcalls := by
    rcases mem_bind.1 hmo with hseen | ⟨_, m', hout, hlater⟩
    · exact (act (.enter span)).within calls m hm mo hseen hcalls
    · have hsuffix := (h.amid (span :: calls) _ mo hlater).calls
      rw [hcalls] at hsuffix
      exact (Nat.not_succ_le_self _ hsuffix.length_le).elim

theorem inNewScope (h : Lexical none p) :
    Lexical inner (Interpreter.inNewScope p : Watched α) :=
  withScope fun _ => h.inScope

theorem fail (cause : RuntimeCause) (span : Span) :
    Lexical inner (Interpreter.fail cause span : Watched α) := by
  refine (act (.fail cause span)).bind ?_
  intro e
  exact e.elim

theorem halt : Lexical inner (Interpreter.halt : Watched α) := by
  refine (act .halt).bind ?_
  intro e
  exact e.elim

/-! ### Parts of programs -/

theorem evalAll (he : ∀ e, Lexical inner (evalW e)) (es : List Expr) :
    Lexical inner (Interpreter.evalAll evalW es) := by
  induction es with
  | nil => exact pure _
  | cons e es ih => exact (he e).bind fun _ => ih.bind fun _ => pure _

theorem execAll (hs : ∀ s, Lexical none (execW s)) (ss : List Stmt) :
    Lexical none (Interpreter.execAll execW ss) := by
  induction ss with
  | nil => exact pure _
  | cons s ss ih =>
    apply (hs s).bind
    intro flow
    cases flow with
    | normal => exact ih
    | _ => exact pure _

theorem callResult (span : Span) (flow : Flow) :
    Lexical inner (Interpreter.callResult span flow : Watched Value) := by
  cases flow with
  | give v => exact pure v
  | normal => exact pure _
  | stop | skip => exact fail _ span

/-- What a called skill does, with its parameters bound. -/
theorem steady_skill (hs : ∀ s, Lexical none (execW s)) (skill : Skill) (args : List Value) :
    Steady (Interpreter.withScope (some skill.home) fun scope => do
      Interpreter.defineParams scope skill.params args
      Interpreter.inScope scope (Interpreter.execAll execW skill.body) : Watched Flow) := by
  apply (Steady.act (.newScope (some skill.home))).bind
  intro scope
  apply (steadying.defineParams trivial skill.params args).bind
  intro _
  exact (execAll hs skill.body).toSteady.inScope scope

theorem callSkill (hs : ∀ s, Lexical none (execW s)) (skill : Skill) (args : List Value)
    (span : Span) : Lexical inner (Interpreter.callSkill execW skill args span) :=
  (asCall span (steady_skill hs skill args)).bind fun flow => callResult span flow

theorem call (hs : ∀ s, Lexical none (execW s)) (callee : Value) (args : List Value)
    (span : Span) : Lexical inner (Interpreter.call execW callee args span) := by
  cases callee with
  | builtin b => exact act (.builtin b args span)
  | skill id => exact (act (.skill id span)).bind fun skill => callSkill hs skill args span
  | _ => exact fail (.notCallable _) span

theorem evalStep (he : ∀ e, Lexical none (evalW e)) (hs : ∀ s, Lexical none (execW s))
    (e : Expr) : Lexical none (Interpreter.evalStep evalW execW e) := by
  cases e with
  | literal l span => exact pure _
  | ident name span => exact act (.lookup name span)
  | assign name value span =>
    exact (he value).bind fun v => (act (.assign name v span)).bind fun _ => pure v
  | binary left op right span =>
    exact (he left).bind fun l => (he right).bind fun r => act (.operate op l r span)
  | unary op operand span => exact (he operand).bind fun v => act (.operateUnary op v span)
  | logical left op right span =>
    apply (he left).bind
    intro l
    apply (act (.truthy l)).bind
    intro holds
    split
    · exact pure l
    · exact he right
  | group e span => exact he e
  | call callee args span =>
    apply (he callee).bind
    intro f
    apply (act (.arity f)).bind
    intro arity
    cases arity with
    | none => exact fail (.notCallable _) span
    | some arity =>
      apply (evalAll he args).bind
      intro values
      split
      · exact call hs f values span
      · exact fail (.wrongArity _ _) span
  | array elements span => exact (evalAll he elements).bind fun values => act (.newArray values)
  | index object position span =>
    exact (he object).bind fun o => (he position).bind fun i => act (.index o i span)
  | ask prompt span =>
    exact (he prompt).bind fun v => (act (.text v)).bind fun text =>
      (act (.ask text)).bind fun _ => pure _

theorem holds (he : ∀ e, Lexical none (evalW e)) (test : Expr) :
    Lexical none (Interpreter.holds evalW test) :=
  (he test).bind fun v => act (.truthy v)

theorem afterPass {body rest : Watched Flow} (hbody : Lexical inner body)
    (hrest : Lexical inner rest) :
    Lexical inner (body >>= Interpreter.afterPass rest) := by
  apply hbody.bind
  intro flow
  cases flow with
  | stop => exact pure _
  | give v => exact pure _
  | normal | skip => exact hrest

theorem repeatWhile {test : Watched Bool} {body : Watched Flow} (htest : Lexical inner test)
    (hbody : Lexical inner body) (n : Nat) :
    Lexical inner (Interpreter.repeatWhile test body n) := by
  induction n with
  | zero => exact halt
  | succ n ih =>
    rw [Interpreter.repeatWhile_succ]
    apply htest.bind
    intro holds
    cases holds with
    | false => exact pure _
    | true => exact afterPass hbody ih

theorem repeatRange {pass : Value → Watched Flow} (hpass : ∀ v, Lexical inner (pass v))
    (last : Float) (n : Nat) (x : Float) :
    Lexical inner (Interpreter.repeatRange pass last n x) := by
  induction n generalizing x with
  | zero => exact halt
  | succ n ih =>
    rw [Interpreter.repeatRange_succ]
    split
    · exact afterPass (hpass _) (ih _)
    · exact pure _

theorem repeatItems {pass : Value → Watched Flow} (hpass : ∀ v, Lexical inner (pass v))
    (vs : List Value) : Lexical inner (Interpreter.repeatItems pass vs) := by
  induction vs with
  | nil => exact pure _
  | cons v vs ih =>
    rw [Interpreter.repeatItems_cons]
    exact afterPass (hpass v) ih

theorem eachPass (hs : ∀ s, Lexical none (execW s)) (scope : Nat) (var : String) (body : Stmt)
    (v : Value) : Lexical (some scope) (Interpreter.eachPass execW scope var body v) :=
  (act (.define var v .hold (some scope))).bind fun _ => (hs body).inScope

theorem eachLoop (he : ∀ e, Lexical none (evalW e)) (hs : ∀ s, Lexical none (execW s)) (n : Nat)
    (var : String) (sweep : Sweep) (body : Stmt) (span : Span) :
    Lexical none (Interpreter.eachLoop n evalW execW var sweep body span) := by
  apply withScope
  intro scope
  have hpass := eachPass hs scope var body
  cases sweep with
  | range first last =>
    apply (he first).mono.bind
    intro x
    apply (he last).mono.bind
    intro y
    split
    · exact repeatRange hpass _ n _
    · exact fail .rangeBoundsNotNumbers span
  | items collection =>
    exact (he collection).mono.bind fun v => (act (.items v span)).bind fun items =>
      repeatItems hpass items

theorem handle (hs : ∀ s, Lexical none (execW s)) (errorName : Option String)
    (handler : List Stmt) (f : Fault) :
    Lexical none (Interpreter.handle execW errorName handler f) := by
  apply inNewScope
  cases errorName with
  | none => exact execAll hs handler
  | some name =>
    exact (act (.define name (.string f.cause.message) .hold none)).bind fun _ =>
      execAll hs handler

theorem execStep (he : ∀ e, Lexical none (evalW e)) (hs : ∀ s, Lexical none (execW s)) (n : Nat)
    (s : Stmt) : Lexical none (Interpreter.execStep n evalW execW s) := by
  cases s with
  | expr e => exact (he e).bind fun _ => pure _
  | say value span =>
    exact (he value).bind fun v => (act (.text v)).bind fun text =>
      (act (.print text)).bind fun _ => pure _
  | bind binder name value span =>
    exact (he value).bind fun v => (act (.define name v binder none)).bind fun _ => pure _
  | block body span => exact inNewScope (execAll hs body)
  | ifThen test yes span =>
    apply (holds he test).bind
    intro holds
    split
    · exact hs yes
    · exact pure _
  | ifElse test yes no span =>
    apply (holds he test).bind
    intro holds
    split
    · exact hs yes
    · exact hs no
  | keep test body span => exact repeatWhile (holds he test) (hs body) n
  | each var sweep body span => exact eachLoop he hs n var sweep body span
  | skill name params body span =>
    exact (act (.newSkill name params body)).bind fun v =>
      (act (.define name v .hold none)).bind fun _ => pure _
  | give value span =>
    cases value with
    | none => exact pure _
    | some e => exact (he e).bind fun _ => pure _
  | stop span => exact pure _
  | skip span => exact pure _
  | attempt body errorName handler span =>
    exact orElse (inNewScope (execAll hs body)) (handle hs errorName handler)

/-- Every expression and every statement is in the scopes that its text shows. -/
theorem eval_exec (n : Nat) :
    (∀ e, Lexical none (Interpreter.eval n e : Watched Value)) ∧
      ∀ s, Lexical none (Interpreter.exec n s : Watched Flow) := by
  induction n with
  | zero => exact ⟨fun _ => halt, fun _ => halt⟩
  | succ n ih =>
    obtain ⟨he, hs⟩ := ih
    constructor
    · intro e
      rw [Interpreter.eval]
      exact (act (.tick e.span)).bind fun _ => evalStep he hs e
    · intro s
      rw [Interpreter.exec]
      exact (act (.tick s.span)).bind fun _ => execStep he hs n s

end Lexical

/-! ### Skills -/

/-- Nothing that is done depends on the current scope. -/
def Remote {α : Type} (p : Watched α) : Prop :=
  ∀ (calls : List Span) (m : Machine), ∀ mo ∈ (p calls m).2, Instr.isLocal mo.next.2 = false

variable {α β : Type}

theorem remote_pure (a : α) : (Pure.pure a : Watched α).Remote :=
  fun _ _ _ hmo => (List.not_mem_nil hmo).elim

theorem remote_act {i : Instr α} (h : i.isLocal = false) : (act i).Remote := by
  intro calls m mo hmo
  obtain rfl := List.mem_singleton.1 hmo
  exact h

theorem Remote.bind {p : Watched α} {f : α → Watched β} (h : p.Remote)
    (hf : ∀ a, (f a).Remote) : (p >>= f).Remote := by
  intro calls m mo hmo
  rcases Watched.mem_bind.1 hmo with hseen | ⟨a, m', -, hlater⟩
  · exact h calls m mo hseen
  · exact hf a calls m' mo hlater

/-- What depends on the current scope comes behind what does not. -/
theorem Remote.mem_bind {p : Watched α} {f : α → Watched β} {calls : List Span} {m : Machine}
    {mo : Moment} (h : p.Remote) (hlocal : Instr.isLocal mo.next.2 = true)
    (hmo : mo ∈ ((p >>= f) calls m).2) :
    ∃ a m', (p calls m).1 = .done a m' ∧ mo ∈ (f a calls m').2 := by
  rcases Watched.mem_bind.1 hmo with hseen | hlater
  · cases hlocal.symm.trans (h calls m mo hseen)
  · exact hlater

theorem remote_defineParams (scope : Nat) (ps : List String) (vs : List Value) :
    (Interpreter.defineParams scope ps vs : Watched Unit).Remote := by
  induction ps generalizing vs with
  | nil => exact remote_pure ()
  | cons p ps ih =>
    cases vs with
    | nil => exact remote_pure ()
    | cons v vs => exact (remote_act rfl).bind fun _ => ih vs

theorem remote_callResult (span : Span) (flow : Flow) :
    (Interpreter.callResult span flow : Watched Value).Remote := by
  cases flow with
  | give v => exact remote_pure v
  | normal => exact remote_pure _
  | stop | skip =>
    apply Remote.bind (remote_act rfl)
    intro e
    exact e.elim

/-- The body of a skill is executed in a scope that is made in its home. -/
theorem within_skill (n : Nat) (skill : Skill) (args : List Value) {m : Machine}
    (hhome : skill.home < m.store.scopes.size) (calls : List Span) {mo : Moment}
    (hmo : mo ∈ ((Interpreter.withScope (some skill.home) fun scope => do
      Interpreter.defineParams scope skill.params args
      Interpreter.inScope scope (Interpreter.execAll (Interpreter.exec n) skill.body) :
        Watched Flow) calls m).2)
    (hcalls : mo.calls = calls) (hlocal : Instr.isLocal mo.next.2 = true) :
    skill.home ∈ mo.machine.store.chain mo.machine.scope := by
  -- Nothing before the body depends on the current scope.
  obtain ⟨scope, m', hmade, hinside⟩ := (remote_act rfl).mem_bind hlocal hmo
  obtain ⟨_, m'', hparams, hbody⟩ := (remote_defineParams _ _ _).mem_bind hlocal hinside
  obtain ⟨rfl, rfl⟩ : m.store.scopes.size = scope ∧ _ = m' := Outcome.done.inj hmade
  have hkeeps := ((steadying.defineParams trivial _ _).onward_of_done hparams).store
  have hhere : skill.home ∈ m''.store.chain m.store.scopes.size := by
    apply hkeeps.mem_chain
    apply Store.mem_chain_of_parent (Store.parent?_newScope _ _) hhome
    exact (Store.Keeps.newScope _ _).mem_chain (Store.mem_chain_self hhome)
  have hexec := Lexical.execAll (Lexical.eval_exec n).2 skill.body
  have hscope : Machine.Around { m'' with scope := m.store.scopes.size } none :=
    ⟨(Store.mem_chain_iff.1 hhere).1, nofun, nofun⟩
  have hmem := hexec.within calls _ hscope mo hbody hcalls
  exact Store.mem_chain_trans ((hexec.amid calls _ mo hbody).before.mem_chain hhere) hmem

/-- What a called skill does itself in the current scope is within its home. -/
theorem within_home (n : Nat) {skill : Skill} {m : Machine}
    (hhome : skill.home < m.store.scopes.size) (args : List Value) (span : Span)
    (calls : List Span) {mo : Moment}
    (hmo : mo ∈ ((Interpreter.callSkill (Interpreter.exec n) skill args span : Watched Value)
      calls m).2)
    (hcalls : mo.calls = span :: calls) (hlocal : Instr.isLocal mo.next.2 = true) :
    skill.home ∈ mo.machine.store.chain mo.machine.scope := by
  obtain ⟨flow, m', -, hresult⟩ | hcall := (mem_bind.1 hmo).symm
  · cases hlocal.symm.trans (remote_callResult span flow calls m' mo hresult)
  · obtain ⟨_, m', henter, hdeeper⟩ := (remote_act rfl).mem_bind hlocal hcall
    have hkeeps := ((Steady.act (.enter span)).onward_of_done henter).store
    exact within_skill (m := { m' with depth := m'.depth + 1 }) n skill args
      (Nat.lt_of_lt_of_le hhome hkeeps.size) (span :: calls) hdeeper hcalls hlocal

end Watched
end Vibe
