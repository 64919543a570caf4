import Vibe.Proofs.Machine.Accord

/-! What holds of the instructions, and carries over from parts of runs to what is made of them,
holds of everything that programs do. -/

namespace Vibe

universe u v

/-- A relation between what two interpreters do. It depends on whether names may be bound in the
current scope, which is what `here` says; `own` are the scopes made in what is related. -/
structure Correspondence (M : Type → Type u) (N : Type → Type v) [Interpreter M]
    [Interpreter N] where
  Rel : {α : Type} → (here : Bool) → M α → N α → Prop
  own : Nat → Prop
  anywhere : ∀ {α : Type} {p : M α} {q : N α}, Rel false p q → Rel true p q
  pure : ∀ {α : Type} (here : Bool) (a : α), Rel here (pure a) (pure a)
  bind : ∀ {α β : Type} {here : Bool} {p : M α} {q : N α} {f : α → M β} {g : α → N β},
    Rel here p q → (∀ a, Rel here (f a) (g a)) → Rel here (p >>= f) (q >>= g)
  act : ∀ {α : Type} {here : Bool} {i : Instr α}, i.Allowed own here →
    Rel here (Interpreter.act i) (Interpreter.act i)
  withScope : ∀ {α : Type} {here : Bool} {f : Nat → M α} {g : Nat → N α} (home : Option Nat),
    (∀ scope, own scope → Rel here (f scope) (g scope)) →
      Rel here (Interpreter.withScope home f) (Interpreter.withScope home g)
  inScope : ∀ {α : Type} {p : M α} {q : N α} {scope : Nat}, own scope → Rel true p q →
    Rel false (Interpreter.inScope scope p) (Interpreter.inScope scope q)
  asCall : ∀ {α : Type} {p : M α} {q : N α} (span : Span), Rel false p q →
    Rel false (Interpreter.asCall span p) (Interpreter.asCall span q)
  orElse : ∀ {α : Type} {here : Bool} {p : M α} {q : N α} {f : Fault → M α} {g : Fault → N α},
    Rel here p q → (∀ e, Rel here (f e) (g e)) →
      Rel here (Interpreter.orElse p f) (Interpreter.orElse q g)

namespace Correspondence

variable {M : Type → Type u} {N : Type → Type v} [Interpreter M] [Interpreter N]
  (C : Correspondence M N) {evalM : Expr → M Value} {evalN : Expr → N Value}
  {execM : Stmt → M Flow} {execN : Stmt → N Flow}

/-- A correspondence is an accord where everything is allowed and nothing is asked of results. -/
def accord : Accord .free M N where
  Rel here _ p q := C.Rel here p q
  own := C.own
  anywhere := C.anywhere
  pure _ := C.pure _ _
  bind h hf := C.bind h fun a => hf a (Rules.meets_free _ a)
  act hallowed _ := C.act hallowed
  withScope home _ hf := C.withScope home hf
  inScope := C.inScope
  asCall := C.asCall
  orElse _ := C.orElse

theorem halts : C.accord.Halts where
  halt := by
    refine C.bind (C.act (i := .halt) trivial) ?_
    intro e
    exact e.elim

/-! ### Parts of programs -/

theorem halt {α : Type} : C.Rel true (Interpreter.halt : M α) Interpreter.halt :=
  C.halts.halt (k := .nothing)

theorem defineParams {scope : Nat} (hown : C.own scope) (ps : List String) (vs : List Value) :
    C.Rel true (Interpreter.defineParams scope ps vs : M Unit)
      (Interpreter.defineParams scope ps vs) :=
  C.accord.defineParams hown ps fun _ _ => trivial

theorem holds (he : ∀ e, C.Rel true (evalM e) (evalN e)) (test : Expr) :
    C.Rel true (Interpreter.holds evalM test) (Interpreter.holds evalN test) :=
  C.accord.holds he test

theorem evalAll (he : ∀ e, C.Rel false (evalM e) (evalN e)) (es : List Expr) :
    C.Rel false (Interpreter.evalAll evalM es) (Interpreter.evalAll evalN es) :=
  C.accord.evalAll he es

theorem evalStep (he : ∀ e, C.Rel false (evalM e) (evalN e))
    (hs : ∀ s, C.Rel true (execM s) (execN s)) (e : Expr) :
    C.Rel false (Interpreter.evalStep evalM execM e) (Interpreter.evalStep evalN execN e) :=
  C.accord.evalStep he (fun s _ => hs s) e

theorem execStep (he : ∀ e, C.Rel false (evalM e) (evalN e))
    (hs : ∀ s, C.Rel true (execM s) (execN s)) (n : Nat) (s : Stmt) :
    C.Rel (!s.opensScope) (Interpreter.execStep n evalM execM s)
      (Interpreter.execStep n evalN execN s) :=
  have hs' : ∀ c s, Rules.free.fits c s → C.accord.Rel true (.flow c) (execM s) (execN s) :=
    fun _ s _ => hs s
  C.accord.execStep (c := .top) he hs' (C.halts.loops he hs' n) trivial

/-! ### Whole programs -/

/-- Two interpreters that correspond in what they do at once correspond in all expressions and
statements. -/
theorem eval_exec (n : Nat) :
    (∀ e, C.Rel false (Interpreter.eval n e : M Value) (Interpreter.eval n e)) ∧
      ∀ s, C.Rel (!s.opensScope) (Interpreter.exec n s : M Flow) (Interpreter.exec n s) := by
  obtain ⟨he, hs⟩ := C.halts.eval_exec n
  exact ⟨he, fun s => hs .top s trivial⟩

theorem runAll (n : Nat) (ss : List Stmt) :
    C.Rel true (Interpreter.runAll (Interpreter.exec n) ss : M Unit)
      (Interpreter.runAll (Interpreter.exec n) ss) :=
  C.halts.runAll n fun _ _ => trivial

end Correspondence
end Vibe
