import Vibe.Proofs.Machine.Rules

/-! What holds of the instructions that obey some rules, and carries over from parts of runs to
what is made of them, holds of all programs that obey the rules. What is done about failures is
asked for apart from the rest. -/

namespace Vibe

universe u v

namespace Interpreter

variable {M : Type → Type u} [Interpreter M]

/-- What a loop does after a pass: a `stop` ends it, what is given leaves it, and otherwise the rest
follows. -/
def afterPass (rest : M Flow) : Flow → M Flow
  | .stop => pure .normal
  | .give v => pure (.give v)
  | .normal | .skip => rest

theorem repeatWhile_succ (test : M Bool) (body : M Flow) (n : Nat) :
    repeatWhile test body (n + 1) = test >>= fun holds =>
      if holds then body >>= afterPass (repeatWhile test body n) else pure .normal := by
  rw [repeatWhile]
  congr 1
  funext holds
  cases holds with
  | false => rfl
  | true =>
    refine congrArg (body >>= ·) (funext fun flow => ?_)
    cases flow <;> rfl

theorem repeatRange_succ (pass : Value → M Flow) (last : Float) (n : Nat) (x : Float) :
    repeatRange pass last (n + 1) x =
      if x ≤ last then pass (.number x) >>= afterPass (repeatRange pass last n (x + 1.0))
      else pure .normal := by
  rw [repeatRange]
  split
  · congr 1
    funext flow
    cases flow <;> rfl
  · rfl

theorem repeatItems_cons (pass : Value → M Flow) (v : Value) (vs : List Value) :
    repeatItems pass (v :: vs) = pass v >>= afterPass (repeatItems pass vs) := by
  rw [repeatItems]
  congr 1
  funext flow
  cases flow <;> rfl

end Interpreter

/-- A relation between what two interpreters do, as far as it follows rules and catches nothing. It
depends on whether names may be bound in the current scope, which is what `here` says, and on what
is asked of the result; `own` are the scopes made in what is related. -/
structure Unison (R : Rules) (M : Type → Type u) (N : Type → Type v) [Interpreter M]
    [Interpreter N] where
  Rel : {α : Type} → (here : Bool) → (k : Asked α) → M α → N α → Prop
  own : Nat → Prop
  anywhere : ∀ {α : Type} {k : Asked α} {p : M α} {q : N α},
    Rel false k p q → Rel true k p q
  pure : ∀ {α : Type} {here : Bool} {k : Asked α} {a : α}, R.Meets k a →
    Rel here k (pure a) (pure a)
  bind : ∀ {α β : Type} {here : Bool} {k : Asked α} {l : Asked β} {p : M α} {q : N α}
    {f : α → M β} {g : α → N β}, Rel here k p q → (∀ a, R.Meets k a → Rel here l (f a) (g a)) →
      Rel here l (p >>= f) (q >>= g)
  act : ∀ {α : Type} {here : Bool} {i : Instr α}, i.Allowed own here → i.Obeys R →
    Rel here i.yields (Interpreter.act i) (Interpreter.act i)
  withScope : ∀ {α : Type} {here : Bool} {k : Asked α} {f : Nat → M α} {g : Nat → N α}
    (home : Option Nat), (∀ scope ∈ home, R.home scope) →
      (∀ scope, own scope → Rel here k (f scope) (g scope)) →
      Rel here k (Interpreter.withScope home f) (Interpreter.withScope home g)
  inScope : ∀ {α : Type} {k : Asked α} {p : M α} {q : N α} {scope : Nat}, own scope →
    Rel true k p q → Rel false k (Interpreter.inScope scope p) (Interpreter.inScope scope q)
  asCall : ∀ {α : Type} {k : Asked α} {p : M α} {q : N α} (span : Span),
    Rel false k p q → Rel false k (Interpreter.asCall span p) (Interpreter.asCall span q)

/-- The same where failures may be caught, whatever is done about them. -/
structure Accord (R : Rules) (M : Type → Type u) (N : Type → Type v) [Interpreter M]
    [Interpreter N] extends Unison R M N where
  orElse : ∀ {α : Type} {here : Bool} {k : Asked α} {p : M α} {q : N α} {f : Fault → M α}
    {g : Fault → N α}, R.mayCatch → Rel here k p q → (∀ e, Rel here k (f e) (g e)) →
      Rel here k (Interpreter.orElse p f) (Interpreter.orElse q g)

namespace Unison

variable {R : Rules} {M : Type → Type u} {N : Type → Type v} [Interpreter M] [Interpreter N]
  (A : Unison R M N) {α β : Type} {here : Bool} {k : Asked α} {c : Place} {n nM nN : Nat}
  {evalM : Expr → M Value} {evalN : Expr → N Value} {execM : Stmt → M Flow}
  {execN : Stmt → N Flow}

theorem of_false {p : M α} {q : N α} (h : A.Rel false k p q) : A.Rel here k p q := by
  cases here with
  | false => exact h
  | true => exact A.anywhere h

theorem to_true {p : M α} {q : N α} (h : A.Rel here k p q) : A.Rel true k p q := by
  cases here with
  | false => exact A.anywhere h
  | true => exact h

/-! ### Parts of programs -/

theorem fail (cause : RuntimeCause) (span : Span) (h : R.mayFail cause) :
    A.Rel here k (Interpreter.fail cause span : M α) (Interpreter.fail cause span) := by
  refine A.bind (A.act trivial h) ?_
  intro e
  exact e.elim

theorem inNewScope {p : M α} {q : N α} (h : A.Rel true k p q) :
    A.Rel here k (Interpreter.inNewScope p) (Interpreter.inNewScope q) := by
  apply A.withScope none nofun
  intro scope hscope
  exact A.of_false (A.inScope hscope h)

theorem evalAll (he : ∀ e, A.Rel here .value (evalM e) (evalN e)) (es : List Expr) :
    A.Rel here .values (Interpreter.evalAll evalM es)
      (Interpreter.evalAll evalN es) := by
  induction es with
  | nil => exact A.pure nofun
  | cons e es ih =>
    apply A.bind (he e)
    intro v hv
    apply A.bind ih
    intro vs hvs
    exact A.pure (List.forall_mem_cons.2 ⟨hv, hvs⟩)

theorem execAll {ss : List Stmt} (hs : ∀ s ∈ ss, A.Rel true (.flow c) (execM s) (execN s)) :
    A.Rel true (.flow c) (Interpreter.execAll execM ss) (Interpreter.execAll execN ss) := by
  induction ss with
  | nil => exact A.pure trivial
  | cons s ss ih =>
    obtain ⟨hhead, htail⟩ := List.forall_mem_cons.1 hs
    apply A.bind hhead
    intro flow hflow
    cases flow with
    | normal => exact ih htail
    | _ => exact A.pure hflow

theorem defineParams {scope : Nat} (hown : A.own scope) (ps : List String) {vs : List Value}
    (hvs : ∀ v ∈ vs, R.value v) :
    A.Rel here .nothing (Interpreter.defineParams scope ps vs : M Unit)
      (Interpreter.defineParams scope ps vs) := by
  induction ps generalizing vs with
  | nil => exact A.pure trivial
  | cons p ps ih =>
    cases vs with
    | nil => exact A.pure trivial
    | cons v vs =>
      obtain ⟨hv, hvs⟩ := List.forall_mem_cons.1 hvs
      refine A.bind (A.act hown hv) ?_
      intro _ _
      exact ih hvs

/-- Nothing but a value leaves the body of a skill, unless signals may stray. -/
theorem callResult (span : Span) {flow : Flow} (h : R.leaves .skill flow) :
    A.Rel here .value (Interpreter.callResult span flow : M Value)
      (Interpreter.callResult span flow) := by
  cases flow with
  | give v => exact A.pure h.2
  | normal => exact A.pure (R.value_of_not_shared _ rfl)
  | stop =>
    obtain ⟨at_, hfits⟩ := h
    exact A.fail _ span ⟨.skill, at_, rfl, hfits⟩
  | skip =>
    obtain ⟨at_, hfits⟩ := h
    exact A.fail _ span ⟨.skill, at_, rfl, hfits⟩

theorem callSkill (hs : ∀ s, R.fits .skill s → A.Rel true (.flow .skill) (execM s) (execN s))
    {skill : Skill} (hskill : R.home skill.home ∧ ∀ s ∈ skill.body, R.fits .skill s)
    {args : List Value} (hargs : ∀ v ∈ args, R.value v) (span : Span) :
    A.Rel here .value (Interpreter.callSkill execM skill args span)
      (Interpreter.callSkill execN skill args span) := by
  -- The scope of the call is made on the way, so the parameters may be bound in it.
  have hbody : ∀ scope, A.own scope → A.Rel false (.flow .skill)
      (do
        Interpreter.defineParams scope skill.params args
        Interpreter.inScope scope (Interpreter.execAll execM skill.body) : M Flow)
      (do
        Interpreter.defineParams scope skill.params args
        Interpreter.inScope scope (Interpreter.execAll execN skill.body) : N Flow) := by
    intro scope hscope
    apply A.bind (A.defineParams hscope _ hargs)
    intro _ _
    exact A.inScope hscope (A.execAll fun s hmem => hs s (hskill.2 s hmem))
  have hhome : ∀ scope ∈ some skill.home, R.home scope := by
    rintro _ ⟨⟩
    exact hskill.1
  apply A.bind (A.of_false (A.asCall span (A.withScope _ hhome hbody)))
  intro flow hflow
  exact A.callResult span hflow

theorem call (hs : ∀ s, R.fits .skill s → A.Rel true (.flow .skill) (execM s) (execN s))
    {callee : Value} (hcallee : R.value callee) {args : List Value} (hargs : ∀ v ∈ args, R.value v)
    (span : Span) : A.Rel here .value (Interpreter.call execM callee args span)
      (Interpreter.call execN callee args span) := by
  cases callee with
  | builtin b => exact A.act (i := .builtin b args span) trivial hargs
  | skill id =>
    refine A.bind (A.act (i := .skill id span) trivial hcallee) ?_
    intro skill hskill
    exact A.callSkill hs hskill hargs span
  | _ => exact A.fail (.notCallable _) span trivial

/-! ### Expressions -/

theorem evalStep (he : ∀ e, A.Rel false .value (evalM e) (evalN e))
    (hs : ∀ s, R.fits .skill s → A.Rel true (.flow .skill) (execM s) (execN s)) (e : Expr) :
    A.Rel false .value (Interpreter.evalStep evalM execM e)
      (Interpreter.evalStep evalN execN e) := by
  cases e with
  | literal l span => cases l <;> exact A.pure (R.value_of_not_shared _ rfl)
  | ident name span => exact A.act (i := .lookup name span) trivial trivial
  | assign name value span =>
    apply A.bind (he value)
    intro v hv
    refine A.bind (A.act (i := .assign name v span) trivial hv) ?_
    intro _ _
    exact A.pure hv
  | binary left op right span =>
    apply A.bind (he left)
    intro l _
    apply A.bind (he right)
    intro r _
    exact A.act (i := .operate op l r span) trivial trivial
  | unary op operand span =>
    apply A.bind (he operand)
    intro v _
    exact A.act (i := .operateUnary op v span) trivial trivial
  | logical left op right span =>
    apply A.bind (he left)
    intro l hl
    refine A.bind (A.act (i := .truthy l) trivial trivial) ?_
    intro holds _
    split
    · exact A.pure hl
    · exact he right
  | group inner span => exact he inner
  | call callee args span =>
    apply A.bind (he callee)
    intro f hf
    refine A.bind (A.act (i := .arity f) trivial trivial) ?_
    intro arity _
    cases arity with
    | none => exact A.fail (.notCallable _) span trivial
    | some arity =>
      apply A.bind (A.evalAll he args)
      intro values hvalues
      split
      · exact A.call hs hf hvalues span
      · exact A.fail (.wrongArity _ _) span trivial
  | array elements span =>
    apply A.bind (A.evalAll he elements)
    intro values hvalues
    exact A.act (i := .newArray values) trivial hvalues
  | index object position span =>
    apply A.bind (he object)
    intro o ho
    apply A.bind (he position)
    intro i _
    exact A.act (i := .index o i span) trivial ho
  | ask prompt span =>
    apply A.bind (he prompt)
    intro v _
    refine A.bind (A.act (i := .text v) trivial trivial) ?_
    intro text _
    refine A.bind (A.act (i := .ask text) trivial trivial) ?_
    intro answer _
    exact A.pure (R.value_of_not_shared _ rfl)

/-! ### Loops -/

theorem holds (he : ∀ e, A.Rel here .value (evalM e) (evalN e)) (test : Expr) :
    A.Rel here .nothing (Interpreter.holds evalM test)
      (Interpreter.holds evalN test) := by
  apply A.bind (he test)
  intro v _
  exact A.act (i := .truthy v) trivial trivial

theorem eachPass {scope : Nat} (hown : A.own scope) {body : Stmt}
    (hbody : A.Rel true (.flow c) (execM body) (execN body)) (var : String) {v : Value}
    (hv : R.value v) : A.Rel false (.flow c) (Interpreter.eachPass execM scope var body v)
      (Interpreter.eachPass execN scope var body v) := by
  refine A.bind (A.act (i := .define var v .hold (some scope)) hown hv) ?_
  intro _ _
  exact A.inScope hown hbody

theorem afterPass {bodyM restM : M Flow} {bodyN restN : N Flow}
    (hb : A.Rel here (.flow c.loop) bodyM bodyN) (hrest : A.Rel here (.flow c) restM restN) :
    A.Rel here (.flow c) (bodyM >>= Interpreter.afterPass restM)
      (bodyN >>= Interpreter.afterPass restN) := by
  apply A.bind hb
  intro flow hflow
  cases flow with
  | stop => exact A.pure trivial
  | give v => exact A.pure (Rules.leaves_of_loop hflow)
  | normal | skip => exact hrest

theorem repeatItems {passM : Value → M Flow} {passN : Value → N Flow} {vs : List Value}
    (hp : ∀ v ∈ vs, A.Rel here (.flow c.loop) (passM v) (passN v)) :
    A.Rel here (.flow c) (Interpreter.repeatItems passM vs)
      (Interpreter.repeatItems passN vs) := by
  induction vs with
  | nil => exact A.pure trivial
  | cons v vs ih =>
    obtain ⟨hhead, htail⟩ := List.forall_mem_cons.1 hp
    rw [Interpreter.repeatItems_cons, Interpreter.repeatItems_cons]
    exact A.afterPass hhead (ih htail)

/-- The loops that are bounded by fuel only are in accord, for one fuel each. -/
structure Loops (evalM : Expr → M Value) (evalN : Expr → N Value) (execM : Stmt → M Flow)
    (execN : Stmt → N Flow) (nM nN : Nat) : Prop where
  keep : ∀ {c : Place} {test : Expr} {body : Stmt}, R.fits c.loop body →
    A.Rel true (.flow c)
      (Interpreter.repeatWhile (Interpreter.holds evalM test) (execM body) nM)
      (Interpreter.repeatWhile (Interpreter.holds evalN test) (execN body) nN)
  range : ∀ {c : Place} {scope : Nat} {var : String} {body : Stmt}, A.own scope →
    R.fits c.loop body → ∀ (last x : Float), A.Rel false (.flow c)
      (Interpreter.repeatRange (Interpreter.eachPass execM scope var body) last nM x)
      (Interpreter.repeatRange (Interpreter.eachPass execN scope var body) last nN x)

theorem eachLoop (he : ∀ e, A.Rel false .value (evalM e) (evalN e))
    (hl : A.Loops evalM evalN execM execN nM nN) {body : Stmt} (hfits : R.fits c.loop body)
    (hbody : A.Rel true (.flow c.loop) (execM body) (execN body)) (var : String)
    (sweep : Sweep) (span : Span) :
    A.Rel false (.flow c) (Interpreter.eachLoop nM evalM execM var sweep body span)
      (Interpreter.eachLoop nN evalN execN var sweep body span) := by
  apply A.withScope none nofun
  intro scope hscope
  cases sweep with
  | range first last =>
    apply A.bind (he first)
    intro x _
    apply A.bind (he last)
    intro y _
    split
    · exact hl.range hscope hfits _ _
    · exact A.fail .rangeBoundsNotNumbers span trivial
  | items collection =>
    apply A.bind (he collection)
    intro v hv
    refine A.bind (A.act (i := .items v span) trivial hv) ?_
    intro items hitems
    exact A.repeatItems fun v hmem => A.eachPass hscope hbody var (hitems v hmem)

/-! ### Statements -/

theorem handle {handler : List Stmt}
    (hs : ∀ s ∈ handler, A.Rel true (.flow c) (execM s) (execN s)) (errorName : Option String)
    (f : Fault) : A.Rel here (.flow c) (Interpreter.handle execM errorName handler f)
      (Interpreter.handle execN errorName handler f) := by
  apply A.inNewScope
  cases errorName with
  | none => exact A.execAll hs
  | some name =>
    refine A.bind (A.act (i := .define name (.string f.cause.message) .hold none) rfl
      (R.value_of_not_shared _ rfl)) ?_
    intro _ _
    exact A.execAll hs

/-- What a `try` comes to, given how statements are executed. -/
abbrev Attempts (execM : Stmt → M Flow) (execN : Stmt → N Flow) : Prop :=
  ∀ c body errorName handler span, R.fits c (.attempt body errorName handler span) →
    A.Rel false (.flow c)
      (Interpreter.orElse (Interpreter.inNewScope (Interpreter.execAll execM body))
        (Interpreter.handle execM errorName handler))
      (Interpreter.orElse (Interpreter.inNewScope (Interpreter.execAll execN body))
        (Interpreter.handle execN errorName handler))

/-- Statements that open a scope bind no name in the current one. -/
theorem execStep (he : ∀ e, A.Rel false .value (evalM e) (evalN e))
    (hs : ∀ c s, R.fits c s → A.Rel true (.flow c) (execM s) (execN s))
    (hl : A.Loops evalM evalN execM execN nM nN) (ht : A.Attempts execM execN) {s : Stmt}
    (hfits : R.fits c s) :
    A.Rel (!s.opensScope) (.flow c) (Interpreter.execStep nM evalM execM s)
      (Interpreter.execStep nN evalN execN s) := by
  have he' : ∀ e, A.Rel true .value (evalM e) (evalN e) := fun e => A.anywhere (he e)
  have hparts : ∀ x ∈ s.parts c, A.Rel true (.flow x.1) (execM x.2) (execN x.2) :=
    fun x hx => hs _ _ (R.fits_parts hfits x hx)
  cases s with
  | expr e =>
    apply A.bind (he' e)
    intro v _
    exact A.pure trivial
  | say value span =>
    apply A.bind (he' value)
    intro v _
    refine A.bind (A.act (i := .text v) trivial trivial) ?_
    intro text _
    refine A.bind (A.act (i := .print text) trivial trivial) ?_
    intro _ _
    exact A.pure trivial
  | bind binder name value span =>
    apply A.bind (he' value)
    intro v hv
    refine A.bind (A.act (i := .define name v binder none) rfl hv) ?_
    intro _ _
    exact A.pure trivial
  | block body span =>
    exact A.inNewScope (A.execAll fun s hmem => hparts (c, s) (by simp [Stmt.parts, hmem]))
  | ifThen test yes span =>
    apply A.bind (A.holds he' test)
    intro holds _
    split
    · exact hparts (c, yes) (by simp [Stmt.parts])
    · exact A.pure trivial
  | ifElse test yes no span =>
    apply A.bind (A.holds he' test)
    intro holds _
    split
    · exact hparts (c, yes) (by simp [Stmt.parts])
    · exact hparts (c, no) (by simp [Stmt.parts])
  | keep test body span => exact hl.keep (R.fits_parts hfits (c.loop, body) (by simp [Stmt.parts]))
  | each var sweep body span =>
    exact A.eachLoop he hl (R.fits_parts hfits (c.loop, body) (by simp [Stmt.parts]))
      (hparts (c.loop, body) (by simp [Stmt.parts])) var sweep span
  | skill name params body span =>
    have hbody : ∀ s ∈ body, R.fits .skill s :=
      fun s hmem => R.fits_parts hfits (.skill, s) (by simp [Stmt.parts, hmem])
    refine A.bind (A.act (i := .newSkill name params body) trivial hbody) ?_
    intro v hv
    refine A.bind (A.act (i := .define name v .hold none) rfl hv) ?_
    intro _ _
    exact A.pure trivial
  | give value span =>
    cases value with
    | none => exact A.pure ⟨⟨none, span, hfits⟩, R.value_of_not_shared _ rfl⟩
    | some e =>
      apply A.bind (he' e)
      intro v hv
      exact A.pure ⟨⟨some e, span, hfits⟩, hv⟩
  | stop span => exact A.pure ⟨span, hfits⟩
  | skip span => exact A.pure ⟨span, hfits⟩
  | attempt body errorName handler span => exact ht c body errorName handler span hfits

theorem runAll {ss : List Stmt} (hs : ∀ s ∈ ss, A.Rel true (.flow .top) (execM s) (execN s)) :
    A.Rel true .nothing (Interpreter.runAll execM ss) (Interpreter.runAll execN ss) := by
  induction ss with
  | nil => exact A.pure trivial
  | cons s ss ih =>
    obtain ⟨hhead, htail⟩ := List.forall_mem_cons.1 hs
    apply A.bind hhead
    intro flow hflow
    cases flow with
    | normal => exact ih htail
    | stop =>
      obtain ⟨span, hfits⟩ := hflow
      exact A.fail _ s.span ⟨.top, span, rfl, hfits⟩
    | skip =>
      obtain ⟨span, hfits⟩ := hflow
      exact A.fail _ s.span ⟨.top, span, rfl, hfits⟩
    | give v =>
      obtain ⟨⟨e, span, hfits⟩, -⟩ := hflow
      exact A.fail _ s.span ⟨.top, e, span, rfl, hfits⟩

/-! ### One fuel for both interpreters -/

/-- What is in accord even where the fuel is used up. -/
structure Halts : Prop where
  halt : ∀ {α : Type} {here : Bool} {k : Asked α},
    A.Rel here k (Interpreter.halt : M α) Interpreter.halt

variable {A}

theorem Halts.repeatWhile (hhalt : A.Halts) {testM : M Bool} {testN : N Bool} {bodyM : M Flow}
    {bodyN : N Flow} (ht : A.Rel here .nothing testM testN)
    (hb : A.Rel here (.flow c.loop) bodyM bodyN) (n : Nat) :
    A.Rel here (.flow c) (Interpreter.repeatWhile testM bodyM n)
      (Interpreter.repeatWhile testN bodyN n) := by
  induction n with
  | zero => exact hhalt.halt
  | succ n ih =>
    rw [Interpreter.repeatWhile_succ, Interpreter.repeatWhile_succ]
    apply A.bind ht
    intro test _
    cases test with
    | false => exact A.pure trivial
    | true => exact A.afterPass hb ih

theorem Halts.repeatRange (hhalt : A.Halts) {passM : Value → M Flow} {passN : Value → N Flow}
    (hp : ∀ x, A.Rel here (.flow c.loop) (passM (.number x)) (passN (.number x)))
    (last : Float) (n : Nat) (x : Float) :
    A.Rel here (.flow c) (Interpreter.repeatRange passM last n x)
      (Interpreter.repeatRange passN last n x) := by
  induction n generalizing x with
  | zero => exact hhalt.halt
  | succ n ih =>
    rw [Interpreter.repeatRange_succ, Interpreter.repeatRange_succ]
    split
    · exact A.afterPass (hp x) (ih _)
    · exact A.pure trivial

theorem Halts.loops (hhalt : A.Halts) (he : ∀ e, A.Rel false .value (evalM e) (evalN e))
    (hs : ∀ c s, R.fits c s → A.Rel true (.flow c) (execM s) (execN s)) (n : Nat) :
    A.Loops evalM evalN execM execN n n where
  keep hfits := hhalt.repeatWhile (A.holds (fun e => A.anywhere (he e)) _) (hs _ _ hfits) n
  range hown hfits last x := by
    refine hhalt.repeatRange (fun x => ?_) last n x
    exact A.eachPass hown (hs _ _ hfits) _ (R.value_of_not_shared _ rfl)

/-- Whatever is done about failures, if it keeps statements related, two interpreters that are in
unison in what they do at once are so in all expressions and statements. -/
theorem Halts.eval_exec_of_attempts (hhalt : A.Halts)
    (ht : ∀ n, (∀ c s, R.fits c s →
        A.Rel true (.flow c) (Interpreter.exec n s : M Flow) (Interpreter.exec n s)) →
      A.Attempts (Interpreter.exec n) (Interpreter.exec n)) (n : Nat) :
    (∀ e, A.Rel false .value (Interpreter.eval n e : M Value) (Interpreter.eval n e)) ∧
      ∀ c s, R.fits c s → A.Rel (!s.opensScope) (.flow c) (Interpreter.exec n s : M Flow)
        (Interpreter.exec n s) := by
  induction n with
  | zero => exact ⟨fun e => hhalt.halt, fun c s _ => hhalt.halt⟩
  | succ n ih =>
    obtain ⟨he, hs⟩ := ih
    have hs' : ∀ c s, R.fits c s →
        A.Rel true (.flow c) (Interpreter.exec n s : M Flow) (Interpreter.exec n s) :=
      fun c s hfits => A.to_true (hs c s hfits)
    constructor
    · intro e
      rw [Interpreter.eval, Interpreter.eval]
      apply A.bind (A.act (i := .tick e.span) trivial trivial)
      intro _ _
      exact A.evalStep he (hs' .skill) e
    · intro c s hfits
      rw [Interpreter.exec, Interpreter.exec]
      apply A.bind (A.act (i := .tick s.span) trivial trivial)
      intro _ _
      exact A.execStep he hs' (hhalt.loops he hs' n) (ht n hs') hfits

end Unison

namespace Accord

variable {R : Rules} {M : Type → Type u} {N : Type → Type v} [Interpreter M] [Interpreter N]
  (A : Accord R M N) {c : Place} {nM nN : Nat} {evalM : Expr → M Value} {evalN : Expr → N Value}
  {execM : Stmt → M Flow} {execN : Stmt → N Flow}

/-- A `try` is in accord as its body and its handler are. -/
theorem attempts (hs : ∀ c s, R.fits c s → A.Rel true (.flow c) (execM s) (execN s)) :
    A.Attempts execM execN := by
  intro c body errorName handler span hfits
  have hparts : ∀ s, s ∈ body ∨ s ∈ handler → A.Rel true (.flow c) (execM s) (execN s) :=
    fun s hmem => hs c s (R.fits_parts hfits (c, s) (by simpa [Stmt.parts] using hmem))
  exact A.orElse ⟨c, body, errorName, handler, span, hfits⟩
    (A.inNewScope (A.execAll fun s hmem => hparts s (.inl hmem)))
    (A.handle (fun s hmem => hparts s (.inr hmem)) errorName)

/-- Statements that open a scope bind no name in the current one. -/
theorem execStep (he : ∀ e, A.Rel false .value (evalM e) (evalN e))
    (hs : ∀ c s, R.fits c s → A.Rel true (.flow c) (execM s) (execN s))
    (hl : A.Loops evalM evalN execM execN nM nN) {s : Stmt} (hfits : R.fits c s) :
    A.Rel (!s.opensScope) (.flow c) (Interpreter.execStep nM evalM execM s)
      (Interpreter.execStep nN evalN execN s) :=
  A.toUnison.execStep he hs hl (A.attempts hs) hfits

end Accord

namespace Unison.Halts

variable {R : Rules} {M : Type → Type u} {N : Type → Type v} [Interpreter M] [Interpreter N]
  {A : Accord R M N}

/-- Two interpreters that are in accord in what they do at once are so in all expressions and
statements. -/
theorem eval_exec (hhalt : A.Halts) (n : Nat) :
    (∀ e, A.Rel false .value (Interpreter.eval n e : M Value) (Interpreter.eval n e)) ∧
      ∀ c s, R.fits c s → A.Rel (!s.opensScope) (.flow c) (Interpreter.exec n s : M Flow)
        (Interpreter.exec n s) :=
  hhalt.eval_exec_of_attempts (fun _ hs => A.attempts hs) n

theorem runAll (hhalt : A.Halts) (n : Nat) {ss : List Stmt}
    (hfits : ∀ s ∈ ss, R.fits .top s) :
    A.Rel true .nothing (Interpreter.runAll (Interpreter.exec n) ss : M Unit)
      (Interpreter.runAll (Interpreter.exec n) ss) :=
  A.runAll fun s hmem => A.to_true ((hhalt.eval_exec n).2 .top s (hfits s hmem))

end Unison.Halts
end Vibe
