import Vibe.Proofs.Machine.Remembering
import Vibe.Proofs.Machine.Sessions
import Vibe.Proofs.Store.Operands

/-! Calls fit what they call. Nothing is called but a built-in skill with as many arguments as it
takes, or a skill with one for each of its parameters: whatever may be done in place of other calls
makes no difference. What cannot be called is refused before its arguments are evaluated, and a
wrong number of arguments when they have been. -/

namespace Vibe

universe u

/-- Whether a value is of a kind that can be called. -/
def Value.isCallable : Value → Bool
  | skill _ | builtin _ => true
  | _ => false

namespace Store

variable {st st' : Store} {f : Value} {args : List Value} {k : Nat}

/-- Whether a value can be called with some arguments: they are as many as a built-in skill takes,
or there is one for each parameter of a skill. -/
def fits (st : Store) (args : List Value) : Value → Bool
  | .builtin b => args.length == b.arity
  | .skill id => st.skills[id]?.any fun s => s.params.length == args.length
  | _ => false

theorem arity?_of_not_callable (h : f.isCallable = false) : st.arity? f = none := by
  cases f with
  | skill | builtin => cases h
  | _ => rfl

/-- A skill that is in the store takes some number of arguments. -/
theorem exists_arity? (h : f.isCallable = true) (hf : (Rules.inStore st).value f) :
    ∃ k, st.arity? f = some k := by
  cases f with
  | builtin b => exact ⟨b.arity, rfl⟩
  | skill id =>
    have hs := Array.getElem?_eq_getElem (show id < st.skills.size from hf)
    exact ⟨st.skills[id].params.length, by rw [arity?, hs]; rfl⟩
  | _ => cases h

/-- What takes so many arguments still does so when they have been evaluated. -/
theorem fits_of_arity? (h : st.arity? f = some args.length) (hst : st.Keeps st') :
    st'.fits args f = true := by
  cases f with
  | builtin b =>
    have hb : b.arity = args.length := Option.some.inj h
    simp [fits, hb]
  | skill id =>
    obtain ⟨s, hs, hlength⟩ := Option.map_eq_some_iff.1 h
    simp [fits, hst.skills id s hs, hlength]
  | _ => cases h

theorem length_of_fits_builtin {b : Builtin} (h : st.fits args (.builtin b) = true) :
    args.length = b.arity := by
  simpa [fits] using h

theorem exists_of_fits_skill {id : Nat} (h : st.fits args (.skill id) = true) :
    ∃ s, st.skills[id]? = some s ∧ s.params.length = args.length := by
  simpa [fits, Option.any_eq_true] using h

end Store

namespace Interpreter

variable {M : Type → Type u} [Interpreter M]

/-- Calls a value that takes so many arguments, or none if it cannot be called: the arguments are
evaluated, and the call is made if they are as many. -/
def callTaking (eval : Expr → M Value) (make : Value → List Value → Span → M Value) (f : Value)
    (args : List Expr) (span : Span) : Option Nat → M Value
  | none => fail (.notCallable f.typeName) span
  | some arity => do
    let values ← evalAll eval args
    if values.length = arity then make f values span
    else fail (.wrongArity arity values.length) span

/-- Evaluates an expression, given how its parts are evaluated and how calls are made. -/
def evalStepBy (eval : Expr → M Value) (exec : Stmt → M Flow)
    (make : Value → List Value → Span → M Value) : Expr → M Value
  | .call callee args span => do
    let f ← eval callee
    callTaking eval make f args span (← act (.arity f))
  | e => evalStep eval exec e

/-- The callee comes first, and then it is asked how many arguments it takes. -/
theorem evalStep_call (eval : Expr → M Value) (exec : Stmt → M Flow) (callee : Expr)
    (args : List Expr) (span : Span) :
    evalStep eval exec (.call callee args span) = eval callee >>= fun f =>
      act (.arity f) >>= callTaking eval (call exec) f args span := by
  refine congrArg (eval callee >>= ·) (funext fun f => ?_)
  refine congrArg (act (.arity f) >>= ·) (funext fun arity => ?_)
  cases arity <;> rfl

variable (make : (Stmt → M Flow) → Value → List Value → Span → M Value)

mutual

/-- Evaluates an expression, with all calls made in a way of their own. -/
def evalBy : (fuel : Nat) → Expr → M Value
  | 0, _ => halt
  | n + 1, e => do
    tick e.span
    evalStepBy (evalBy n) (execBy n) (make (execBy n)) e

/-- Executes a statement, with all calls made in a way of their own. -/
def execBy : (fuel : Nat) → Stmt → M Flow
  | 0, _ => halt
  | n + 1, s => do
    tick s.span
    execStep n (evalBy n) (execBy n) s

end

/-- Parameters are bound one by one to the arguments that they are paired with. -/
theorem defineParams_eq_forM (scope : Nat) (ps : List String) (vs : List Value) :
    (defineParams scope ps vs : M Unit) =
      (ps.zip vs).forM fun x => act (.define x.1 x.2 .hold (some scope)) := by
  induction ps generalizing vs with
  | nil => rfl
  | cons p ps ih =>
    cases vs with
    | nil => rfl
    | cons v vs =>
      rw [defineParams, ih]
      rfl

end Interpreter

namespace Watched

variable {α β : Type} {p : Watched α} {calls : List Span} {m m₁ m₂ : Machine}
  {evalW : Expr → Watched Value} {execW : Stmt → Watched Flow} {n k : Nat} {callee : Expr}
  {args : List Expr} {span : Span} {f : Value} {values : List Value}
  {before later : List Moment}

/-- Two ways of going on are the same if they are so after every result that there may be. -/
theorem bind_congr_done {f g : α → Watched β}
    (h : ∀ a m', (p calls m).1 = .done a m' → f a calls m' = g a calls m') :
    (p >>= f) calls m = (p >>= g) calls m := by
  rw [bind_apply, bind_apply]
  rcases hp : p calls m with ⟨⟨a, m'⟩ | ⟨e, m'⟩ | m', seen⟩
  · rw [hp] at h
    simp only [h a m' rfl]
  · rfl
  · rfl

/-- Makes a call if it fits, and does something else otherwise. -/
def fitting (wrong : Value → List Value → Span → Watched Value) (exec : Stmt → Watched Flow)
    (callee : Value) (args : List Value) (span : Span) : Watched Value := fun calls m =>
  if m.store.fits args callee then Interpreter.call exec callee args span calls m
  else wrong callee args span calls m

/-- What is called takes as many arguments as have been evaluated. -/
theorem callTaking_fitting (he : ∀ e, (evalW e).Steady)
    (wrong : Value → List Value → Span → Watched Value) (args : List Expr) (span : Span)
    (calls : List Span) (m : Machine) :
    Interpreter.callTaking evalW (fitting wrong execW) f args span (m.store.arity? f) calls m =
      Interpreter.callTaking evalW (Interpreter.call execW) f args span (m.store.arity? f)
        calls m := by
  cases harity : m.store.arity? f with
  | none => rfl
  | some k =>
    apply bind_congr_done
    intro values m' hvalues
    by_cases hlength : values.length = k
    · have hsteady : (Interpreter.evalAll evalW args).Steady :=
        @Correspondence.evalAll _ _ _ _ steadying evalW evalW he args
      have hkeeps := (hsteady.onward_of_done hvalues).store
      have hfits : m'.store.fits values f = true := by
        rw [← hlength] at harity
        exact Store.fits_of_arity? harity hkeeps
      simp only [hlength, if_true, fitting, hfits]
    · simp only [hlength, if_false]

theorem evalStepBy_fitting (he : ∀ e, (evalW e).Steady)
    (wrong : Value → List Value → Span → Watched Value) (e : Expr) :
    Interpreter.evalStepBy evalW execW (fitting wrong execW) e =
      Interpreter.evalStep evalW execW e := by
  cases e with
  | call callee args span =>
    rw [Interpreter.evalStep_call]
    funext calls m
    apply bind_congr_done
    intro f m₁ _
    apply bind_congr_done
    rintro arity m₂ ⟨⟩
    exact callTaking_fitting he wrong args span calls m₁
  | _ => rfl

/-- No call is made that does not fit: whatever would be done in its place is not done. -/
theorem eval_exec_fitting (wrong : Value → List Value → Span → Watched Value) (n : Nat) :
    (Interpreter.evalBy (fitting wrong) n : Expr → Watched Value) = Interpreter.eval n ∧
      (Interpreter.execBy (fitting wrong) n : Stmt → Watched Flow) = Interpreter.exec n := by
  induction n with
  | zero =>
    constructor
    · funext e
      rw [Interpreter.evalBy, Interpreter.eval]
    · funext s
      rw [Interpreter.execBy, Interpreter.exec]
  | succ n ih =>
    obtain ⟨heval, hexec⟩ := ih
    have hsteady : ∀ e, (Interpreter.eval n e : Watched Value).Steady :=
      (steadying.eval_exec n).1
    constructor
    · funext e
      rw [Interpreter.evalBy, Interpreter.eval, heval, hexec, evalStepBy_fitting hsteady]
    · funext s
      rw [Interpreter.execBy, Interpreter.exec, heval, hexec]

/-! ### Refused calls -/

theorem eval_call (n : Nat) (callee : Expr) (args : List Expr) (span : Span) :
    (Interpreter.eval (n + 1) (.call callee args span) : Watched Value) =
      (Interpreter.tick span >>= fun _ => Interpreter.eval n callee) >>= fun f =>
        Interpreter.act (.arity f) >>=
          Interpreter.callTaking (Interpreter.eval n) (Interpreter.call (Interpreter.exec n)) f
            args span := by
  rw [bind_assoc, Interpreter.eval, Interpreter.evalStep_call]
  rfl

/-- What is seen when a value is asked how many arguments it takes. -/
def asking (calls : List Span) (m : Machine) (f : Value) : Moment :=
  ⟨calls, m, ⟨Option Nat, .arity f⟩⟩

/-- What is seen when something fails. -/
def failing (calls : List Span) (m : Machine) (cause : RuntimeCause) (span : Span) : Moment :=
  ⟨calls, m, ⟨Empty, .fail cause span⟩⟩

section

variable (hcallee : (Interpreter.tick span >>= fun _ => Interpreter.eval n callee : Watched Value)
  calls m = (.done f m₁, before))

include hcallee

/-- What comes behind the callee is the question, and what follows from the answer. -/
theorem eval_call_of_callee (args : List Expr) :
    (Interpreter.eval (n + 1) (.call callee args span) : Watched Value) calls m =
      let rest : Watched Value := Interpreter.callTaking (Interpreter.eval n)
        (Interpreter.call (Interpreter.exec n)) f args span (m₁.store.arity? f)
      ((rest calls m₁).1, before ++ asking calls m₁ f :: (rest calls m₁).2) := by
  rw [eval_call, bind_apply, hcallee]
  rfl

theorem eval_call_of_not_callable (args : List Expr) (hf : f.isCallable = false) :
    (Interpreter.eval (n + 1) (.call callee args span) : Watched Value) calls m =
      (.failed ⟨.notCallable f.typeName, span⟩ m₁, before ++
        [asking calls m₁ f, failing calls m₁ (.notCallable f.typeName) span]) := by
  have harity : m₁.store.arity? f = none := Store.arity?_of_not_callable hf
  rw [eval_call_of_callee hcallee, harity]
  rfl

theorem eval_call_of_wrong (hf : m₁.store.arity? f = some k)
    (hargs : (Interpreter.evalAll (Interpreter.eval n) args : Watched (List Value)) calls m₁ =
      (.done values m₂, later)) (hlength : values.length ≠ k) :
    (Interpreter.eval (n + 1) (.call callee args span) : Watched Value) calls m =
      (.failed ⟨.wrongArity k values.length, span⟩ m₂, before ++ asking calls m₁ f ::
        (later ++ [failing calls m₂ (.wrongArity k values.length) span])) := by
  rw [eval_call_of_callee hcallee, hf]
  simp only [Interpreter.callTaking]
  rw [bind_apply, hargs]
  simp only [hlength, if_false]
  rfl

end

end Watched

namespace Machine

variable {m m' : Machine} {seen : List Moment}

/-- No call goes wrong, whatever programs have been run. If the calls that do not fit were made in
any other way, nothing would change. A built-in skill that reads its arguments by their places finds
them all among those that it is given, and each parameter of a skill is bound to one argument. Every
operator is dealt with. In every state a call of what is neither a built-in skill nor a skill fails
behind the callee, and nothing else is done; any other callee takes some number of arguments, and if
these come to another number, the call fails behind them, and nothing else is done. -/
theorem calls_fit {limits : Limits} {console : Console} {dice : Dice}
    (h : (start limits console dice).Plays seen m) :
    (∀ (wrong : Value → List Value → Span → Watched Value) (p : Program),
      (Interpreter.runAll (Interpreter.execBy (Watched.fitting wrong) m.limits.fuel) p :
        Watched Unit) [] m.reset = watch p m) ∧
    (∀ (b : Builtin) (args more : List Value) (st : Store), st.fits args (.builtin b) = true →
      args.length = b.arity ∧
      b.callBy (fun i => (args ++ more)[i]?) st = some (b.call args st)) ∧
    (∀ (id : Nat) (args : List Value) (st : Store), st.fits args (.skill id) = true →
      ∃ s, st.skills[id]? = some s ∧ (s.params.zip args).unzip = (s.params, args) ∧
        ∀ scope, (Interpreter.defineParams scope s.params args : Watched Unit) =
          (s.params.zip args).forM fun x =>
            Interpreter.act (.define x.1 x.2 .hold (some scope))) ∧
    (∀ (st : Store) (op : BinaryOp) (left right : Value),
      st.operateInStages op left right = some (st.operate op left right)) ∧
    ∀ s ∈ (start limits console dice).states seen m, ∀ (n : Nat) (callee : Expr)
      (args : List Expr) (span : Span) (calls : List Span) (f : Value) (m₁ : Machine)
      (before : List Moment),
      (Interpreter.tick span >>= fun _ => Interpreter.eval n callee : Watched Value) calls s =
        (.done f m₁, before) →
      (f.isCallable = false →
        (Interpreter.eval (n + 1) (.call callee args span) : Watched Value) calls s =
          (.failed ⟨.notCallable f.typeName, span⟩ m₁, before ++
            [Watched.asking calls m₁ f,
              Watched.failing calls m₁ (.notCallable f.typeName) span])) ∧
      (f.isCallable = true → ∃ k, m₁.store.arity? f = some k ∧
        ∀ (values : List Value) (m₂ : Machine) (later : List Moment),
          (Interpreter.evalAll (Interpreter.eval n) args : Watched (List Value)) calls m₁ =
            (.done values m₂, later) → values.length ≠ k →
          (Interpreter.eval (n + 1) (.call callee args span) : Watched Value) calls s =
            (.failed ⟨.wrongArity k values.length, span⟩ m₂, before ++
              Watched.asking calls m₁ f :: (later ++
                [Watched.failing calls m₂ (.wrongArity k values.length) span]))) := by
  refine ⟨fun wrong p => ?_, ?_, ?_, Store.operateInStages_eq_operate, ?_⟩
  · rw [(Watched.eval_exec_fitting wrong m.limits.fuel).2]
    rfl
  · intro b args more st hfits
    have hlength := Store.length_of_fits_builtin hfits
    exact ⟨hlength, b.callBy_eq_call hlength more st⟩
  · intro id args st hfits
    obtain ⟨s, hs, hlength⟩ := Store.exists_of_fits_skill hfits
    refine ⟨s, hs, List.unzip_zip hlength, fun scope => ?_⟩
    exact Interpreter.defineParams_eq_forM scope s.params args
  · intro s hs n callee args span calls f m₁ before hcallee
    refine ⟨Watched.eval_call_of_not_callable hcallee args, fun hf => ?_⟩
    have hgrounded := Watched.Grounded.tick_eval s.store n callee span
    have hrooted := h.rooted_states (rooted_start limits console dice) s hs
    have hvalue : (Rules.inStore m₁.store).value f := by
      refine (hgrounded.outcome calls s hrooted (.refl _)).result f m₁ ?_
      rw [hcallee]
    obtain ⟨k, hk⟩ := Store.exists_arity? hf hvalue
    exact ⟨k, hk, fun values m₂ later => Watched.eval_call_of_wrong hcallee hk⟩

/-- `bet(lost)` on a machine on which nothing has been run. -/
def uncallable : Expr :=
  .call (.literal (.bool true) .nowhere) [.ident "lost" .nowhere] .nowhere

/-- `push(null)` there. -/
def lacking : Expr :=
  .call (.ident "push" .nowhere) [.literal .null .nowhere] .nowhere

/-- The one is refused before its argument is looked up, and the other behind its argument. -/
theorem calls_fit_start : ∃ seen, (start {} {} 0).Plays seen (start {} {} 0) ∧
    (Interpreter.runAll (Interpreter.execBy
      (Watched.fitting fun _ _ span => Interpreter.fail .possibleInfiniteLoop span)
        (start {} {} 0).limits.fuel) making : Watched Unit) [] (start {} {} 0).reset =
      watch making (start {} {} 0) ∧
    (∃ m₁, ((Interpreter.eval 2 uncallable : Watched Value) [] (start {} {} 0)).1 =
      .failed ⟨.notCallable "boolean", .nowhere⟩ m₁) ∧
    ∃ m₂, ((Interpreter.eval 2 lacking : Watched Value) [] (start {} {} 0)).1 =
      .failed ⟨.wrongArity 2 1, .nowhere⟩ m₂ := by
  have hplays : (start {} {} 0).Plays [] (start {} {} 0) := .start
  obtain ⟨hguarded, -, -, -, hcalls⟩ := calls_fit hplays
  have hfirst : start {} {} 0 ∈ (start {} {} 0).states [] (start {} {} 0) := List.mem_cons_self
  refine ⟨[], hplays, hguarded _ making, ?_, ?_⟩
  · obtain ⟨hrefused, -⟩ := hcalls _ hfirst 1 (.literal (.bool true) .nowhere)
      [.ident "lost" .nowhere] .nowhere [] (.bool true) _ _ rfl
    exact ⟨_, congrArg Prod.fst (hrefused rfl)⟩
  · let callee := (Interpreter.tick .nowhere >>= fun _ =>
      Interpreter.eval 1 (.ident "push" .nowhere) : Watched Value) [] (start {} {} 0)
    let args := (Interpreter.evalAll (Interpreter.eval 1) [.literal .null .nowhere] :
      Watched (List Value)) [] callee.1.machine
    have hcallee : callee.1.result? = some (.builtin .push) := by decide +kernel
    have hargs : args.1.result? = some [.null] := by decide +kernel
    obtain ⟨-, htaken⟩ := hcalls _ hfirst 1 (.ident "push" .nowhere) [.literal .null .nowhere]
      .nowhere [] (.builtin .push) callee.1.machine callee.2
      (Prod.ext (Outcome.eq_done_of_result? hcallee) rfl)
    obtain ⟨k, hk, hrefused⟩ := htaken rfl
    obtain rfl : 2 = k := Option.some.inj hk
    have hwrong := hrefused [.null] args.1.machine args.2
      (Prod.ext (Outcome.eq_done_of_result? hargs) rfl) (by decide)
    exact ⟨_, congrArg Prod.fst hwrong⟩

end Machine
end Vibe
