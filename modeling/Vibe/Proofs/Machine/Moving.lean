import Vibe.Proofs.Machine.Accord
import Vibe.Proofs.Machine.Instructions
import Vibe.Proofs.Store.Moving
import Vibe.Session

/-! Runs take no notice of places: what is run with other places for the nodes of all trees does the
same, with the places that it tells moved. So a failure has a place that stands in one of the trees,
and no other places ever come into the store. -/

namespace Vibe

section

variable (move : Span → Span)

/-- The machine with every place in its skills moved. -/
def Machine.moved (m : Machine) : Machine :=
  { m with store := m.store.moved move }

def Fault.moved (f : Fault) : Fault :=
  { f with span := move f.span }

def Outcome.moved {α : Type} : Outcome α → Outcome α
  | done a m => done a (m.moved move)
  | failed f m => failed (f.moved move) (m.moved move)
  | unfinished m => unfinished (m.moved move)

/-- The instruction with every place in it moved. -/
def Instr.moved {α : Type} : Instr α → Instr α
  | tick span => tick (move span)
  | fail cause span => fail cause (move span)
  | lookup name span => lookup name (move span)
  | assign name v span => assign name v (move span)
  | newSkill name params body => newSkill name params (Stmt.movedEach move body)
  | operate op left right span => operate op left right (move span)
  | operateUnary op operand span => operateUnary op operand (move span)
  | index object position span => index object position (move span)
  | items v span => items v (move span)
  | skill id span => skill id (move span)
  | builtin b args span => builtin b args (move span)
  | enter span => enter (move span)
  | i => i

/-- Whether a result contains no tree. -/
def Instr.isTreeless {α : Type} : Instr α → Bool
  | skill .. => false
  | _ => true

/-- What is done with moved places is the same, with the places moved. -/
def Run.Moves {α : Type} (p q : Run α) : Prop :=
  ∀ m : Machine, q (m.moved move) = (p m).moved move

end

variable {move : Span → Span}

theorem Machine.moved_eq_self {m : Machine} :
    m.moved move = m ↔ ∀ s ∈ m.store.spans, move s = s := by
  rw [← Store.moved_eq_self]
  cases m
  simp [Machine.moved]

@[simp] theorem Outcome.machine_moved {α : Type} (o : Outcome α) :
    (o.moved move).machine = o.machine.moved move := by
  cases o <;> rfl

theorem Run.orFail_moved {α : Type} {r r' : Except RuntimeCause α} (h : r' = r) (span : Span)
    (m : Machine) : orFail (move span) r' (m.moved move) = (orFail span r m).moved move := by
  subst h
  cases r' <;> rfl

/-- A change of the store that may fail is the same on a store with moved places. -/
theorem Run.onStore_orFail_moved {α : Type} {change : Store → Except RuntimeCause α × Store}
    {st : Store} (h : change (st.moved move) = Prod.map id (Store.moved move) (change st))
    (span : Span) (m : Machine) (hst : m.store = st) :
    (onStore change >>= orFail (move span)) (m.moved move) =
      ((onStore change >>= orFail span) m).moved move := by
  subst hst
  have hstore : (m.moved move).store = m.store.moved move := rfl
  simp only [bind_apply, onStore, hstore, h]
  exact orFail_moved rfl span { m with store := (change m.store).2 }

theorem Builtin.call_moved {st : Store} (b : Builtin) (args : List Value) :
    b.call args (st.moved move) = Prod.map id (Store.moved move) (b.call args st) := by
  fun_cases Builtin.call b args st with
  | case9 x dice h => simp [call, Store.moved, h]
  | _ => first | rfl | simp_all [call]

/-- An instruction does the same with moved places. -/
theorem Instr.run_moved {α : Type} (i : Instr α) (h : i.isTreeless = true) :
    Run.Moves move i.run (i.moved move).run := by
  intro m
  have hstore : (m.moved move).store = m.store.moved move := rfl
  cases i with
  | skill => cases h
  | tick span =>
    simp only [run, Instr.moved, Run.tick, Machine.moved]
    by_cases hleft : m.operations + 1 ≤ m.limits.maxOperations
    · simp [hleft, Outcome.moved, Machine.moved]
    · by_cases hslow : m.limits.unhurried m.looks = true <;>
        simp [hleft, hslow, Outcome.moved, Machine.moved, Fault.moved]
  | enter span =>
    by_cases hfull : m.limits.maxCallDepth ≤ m.depth <;>
      simp [run, Instr.moved, Machine.moved, Fault.moved, hfull, Outcome.moved]
  | truthy v => simp [run, Instr.moved, Run.read, hstore, Outcome.moved]
  | arity v => simp [run, Instr.moved, Run.read, hstore, Outcome.moved]
  | text v => simp [run, Instr.moved, Run.read, hstore, Outcome.moved]
  | lookup => exact Run.orFail_moved (Store.get_moved ..) _ m
  | operate => exact Run.orFail_moved (Store.operate_moved ..) _ m
  | operateUnary => exact Run.orFail_moved (Store.operateUnary_moved ..) _ m
  | index => exact Run.orFail_moved (Store.index_moved ..) _ m
  | items => exact Run.orFail_moved (Store.sweepItems_moved ..) _ m
  | assign => exact Run.onStore_orFail_moved (Store.assign_moved ..) _ m rfl
  | builtin b => exact Run.onStore_orFail_moved (b.call_moved _) _ m rfl
  | newSkill name params body =>
    simp [run, Instr.moved, Run.onStore, Outcome.moved, Machine.moved, Store.newSkill, Store.moved,
      Skill.moved]
  | _ => rfl

section

variable {id : Nat} {span : Span} {m : Machine}

theorem Instr.act_skill_of_some {s : Skill} (h : m.store.skills[id]? = some s) :
    (Interpreter.act (.skill id span) : Run Skill) m = .done s m := by
  change Instr.run _ m = _
  simp [Instr.run, h]

theorem Instr.act_skill_of_none (h : m.store.skills[id]? = none) :
    (Interpreter.act (.skill id span) : Run Skill) m =
      .failed ⟨.notCallable (Value.skill id).typeName, span⟩ m := by
  change Instr.run _ m = _
  simp [Instr.run, h]

end

namespace Run.Moves

open Interpreter

variable {α β : Type} {p q : Run α}

theorem pure (a : α) : Moves move (Pure.pure a) (Pure.pure a) :=
  fun _ => rfl

theorem bind {f g : α → Run β} (h : Moves move p q) (hf : ∀ a, Moves move (f a) (g a)) :
    Moves move (p >>= f) (q >>= g) := by
  intro m
  rw [bind_apply, bind_apply, h m]
  cases p m with
  | done a m' => exact hf a m'
  | failed f m' | unfinished m' => rfl

theorem act (i : Instr α) (h : i.isTreeless = true) :
    Moves move (Interpreter.act i) (Interpreter.act (i.moved move)) :=
  i.run_moved h

theorem fail (cause : RuntimeCause) (span : Span) :
    Moves move (Interpreter.fail cause span : Run α) (Interpreter.fail cause (move span)) :=
  fun _ => rfl

theorem inScope (scope : Nat) (h : Moves move p q) :
    Moves move (Interpreter.inScope scope p) (Interpreter.inScope scope q) := by
  intro m
  change (q (Machine.moved move { m with scope })).mapMachine _ =
    ((p { m with scope }).mapMachine _).moved move
  rw [h]
  cases p { m with scope } <;> rfl

theorem withScope (home : Option Nat) {f g : Nat → Run α}
    (h : ∀ scope, Moves move (f scope) (g scope)) :
    Moves move (Interpreter.withScope home f) (Interpreter.withScope home g) :=
  (act (.newScope home) rfl).bind h

theorem inNewScope (h : Moves move p q) :
    Moves move (Interpreter.inNewScope p) (Interpreter.inNewScope q) :=
  withScope none fun scope => h.inScope scope

theorem asCall (span : Span) (h : Moves move p q) :
    Moves move (Interpreter.asCall span p) (Interpreter.asCall (move span) q) := by
  refine (act (.enter span) rfl).bind fun _ m => ?_
  change (q (Machine.moved move { m with depth := m.depth + 1 })).mapMachine _ =
    ((p { m with depth := m.depth + 1 }).mapMachine _).moved move
  rw [h]
  cases p { m with depth := m.depth + 1 } <;> rfl

theorem orElse {f g : Fault → Run α} (h : Moves move p q)
    (hf : ∀ e, Moves move (f e) (g (e.moved move))) :
    Moves move (Interpreter.orElse p f) (Interpreter.orElse q g) := by
  intro m
  change Run.orElse q g (m.moved move) = (Run.orElse p f m).moved move
  unfold Run.orElse
  rw [h m]
  cases p m with
  | failed e m' => exact hf e m'
  | done a m' | unfinished m' => rfl

/-- The body of a skill comes out of the store, where its places are moved. -/
theorem skill (id : Nat) (span : Span) {f g : Skill → Run α}
    (hf : ∀ s, Moves move (f s) (g (s.moved move))) :
    Moves move (Interpreter.act (.skill id span) >>= f)
      (Interpreter.act (.skill id (move span)) >>= g) := by
  intro m
  have hfound : (m.moved move).store.skills[id]? = m.store.skills[id]?.map (Skill.moved move) :=
    m.store.getElem?_skills_moved id
  rw [bind_apply, bind_apply]
  cases hskill : m.store.skills[id]? with
  | none =>
    rw [hskill] at hfound
    rw [Instr.act_skill_of_none hskill, Instr.act_skill_of_none hfound]
    rfl
  | some s =>
    rw [hskill] at hfound
    rw [Instr.act_skill_of_some hskill, Instr.act_skill_of_some hfound]
    exact hf s m

/-! ### Parts of programs -/

theorem halt : Moves move (Interpreter.halt : Run α) Interpreter.halt :=
  fun _ => rfl

theorem defineParams (scope : Nat) (ps : List String) (vs : List Value) :
    Moves move (Interpreter.defineParams scope ps vs) (Interpreter.defineParams scope ps vs) := by
  induction ps generalizing vs with
  | nil => exact pure _
  | cons p ps ih =>
    cases vs with
    | nil => exact pure _
    | cons v vs => exact (act (.define p v .hold scope) rfl).bind fun _ => ih vs

theorem callResult (span : Span) (flow : Flow) :
    Moves move (Interpreter.callResult span flow) (Interpreter.callResult (move span) flow) := by
  cases flow with
  | give v => exact pure _
  | normal => exact pure _
  | stop | skip => exact fail _ span

theorem afterPass {rest rest' : Run Flow} (h : Moves move rest rest') (flow : Flow) :
    Moves move (Interpreter.afterPass rest flow) (Interpreter.afterPass rest' flow) := by
  cases flow with
  | stop => exact pure _
  | give v => exact pure _
  | normal | skip => exact h

theorem repeatWhile {test test' : Run Bool} {body body' : Run Flow} (ht : Moves move test test')
    (hb : Moves move body body') (n : Nat) :
    Moves move (Interpreter.repeatWhile test body n) (Interpreter.repeatWhile test' body' n) := by
  induction n with
  | zero => exact halt
  | succ n ih =>
    rw [repeatWhile_succ, repeatWhile_succ]
    refine ht.bind fun holds => ?_
    cases holds with
    | false => exact pure _
    | true => exact hb.bind (afterPass ih)

section

variable {pass pass' : Value → Run Flow} (hp : ∀ v, Moves move (pass v) (pass' v))

include hp

theorem repeatRange (last : Float) (n : Nat) (x : Float) :
    Moves move (Interpreter.repeatRange pass last n x)
      (Interpreter.repeatRange pass' last n x) := by
  induction n generalizing x with
  | zero => exact halt
  | succ n ih =>
    rw [repeatRange_succ, repeatRange_succ]
    split
    · exact (hp _).bind (afterPass (ih _))
    · exact pure _

theorem repeatItems (vs : List Value) :
    Moves move (Interpreter.repeatItems pass vs) (Interpreter.repeatItems pass' vs) := by
  induction vs with
  | nil => exact pure _
  | cons v vs ih =>
    rw [repeatItems_cons, repeatItems_cons]
    exact (hp v).bind (afterPass ih)

end

section

variable {eval eval' : Expr → Run Value} {exec exec' : Stmt → Run Flow}
  (he : ∀ e, Moves move (eval e) (eval' (e.moved move)))
  (hs : ∀ s, Moves move (exec s) (exec' (s.moved move)))

include he in
theorem evalAll (es : List Expr) :
    Moves move (Interpreter.evalAll eval es)
      (Interpreter.evalAll eval' (Expr.movedEach move es)) := by
  induction es with
  | nil => exact pure []
  | cons e es ih => exact (he e).bind fun v => ih.bind fun vs => pure (v :: vs)

include hs in
theorem execAll (ss : List Stmt) :
    Moves move (Interpreter.execAll exec ss)
      (Interpreter.execAll exec' (Stmt.movedEach move ss)) := by
  induction ss with
  | nil => exact pure _
  | cons s ss ih =>
    refine (hs s).bind fun flow => ?_
    cases flow with
    | normal => exact ih
    | _ => exact pure _

include he in
theorem holds (test : Expr) :
    Moves move (Interpreter.holds eval test) (Interpreter.holds eval' (test.moved move)) :=
  (he test).bind fun v => act (.truthy v) rfl

include hs

theorem callSkill (skill : Skill) (args : List Value) (span : Span) :
    Moves move (Interpreter.callSkill exec skill args span)
      (Interpreter.callSkill exec' (skill.moved move) args (move span)) := by
  refine (asCall span (withScope _ fun scope => ?_)).bind (callResult span)
  exact (defineParams scope _ args).bind fun _ => (execAll hs skill.body).inScope scope

theorem call (callee : Value) (args : List Value) (span : Span) :
    Moves move (Interpreter.call exec callee args span)
      (Interpreter.call exec' callee args (move span)) := by
  cases callee with
  | builtin b => exact act (.builtin b args span) rfl
  | skill id =>
    exact skill id span fun skill => callSkill hs skill args span
  | _ => exact fail _ span

theorem eachPass (scope : Nat) (var : String) (body : Stmt) (v : Value) :
    Moves move (Interpreter.eachPass exec scope var body v)
      (Interpreter.eachPass exec' scope var (body.moved move) v) :=
  (act (.define var v .hold scope) rfl).bind fun _ => (hs body).inScope scope

theorem handle (errorName : Option String) (handler : List Stmt) (f : Fault) :
    Moves move (Interpreter.handle exec errorName handler f)
      (Interpreter.handle exec' errorName (Stmt.movedEach move handler) (f.moved move)) := by
  refine inNewScope ?_
  have hhandler := execAll hs handler
  cases errorName with
  | none => exact hhandler
  | some name =>
    exact (act (.define name (.string f.cause.message) .hold none) rfl).bind fun _ => hhandler

include he

theorem evalStep (e : Expr) :
    Moves move (Interpreter.evalStep eval exec e)
      (Interpreter.evalStep eval' exec' (e.moved move)) := by
  cases e with
  | literal v span => exact pure _
  | ident name span => exact act (.lookup name span) rfl
  | assign name value span =>
    refine (he value).bind fun v => ?_
    exact (act (.assign name v span) rfl).bind fun _ => pure v
  | binary left op right span =>
    exact (he left).bind fun l => (he right).bind fun r => act (.operate op l r span) rfl
  | unary op operand span => exact (he operand).bind fun v => act (.operateUnary op v span) rfl
  | logical left op right span =>
    refine (he left).bind fun l => (act (.truthy l) rfl).bind fun holds => ?_
    split
    · exact pure l
    · exact he right
  | group inner span => exact he inner
  | call callee args span =>
    refine (he callee).bind fun f => (act (.arity f) rfl).bind fun arity => ?_
    cases arity with
    | none => exact fail _ span
    | some arity =>
      refine (evalAll he args).bind fun values => ?_
      split
      · exact call hs f values span
      · exact fail _ span
  | array elements span => exact (evalAll he elements).bind fun values => act (.newArray values) rfl
  | index object position span =>
    exact (he object).bind fun o => (he position).bind fun i => act (.index o i span) rfl
  | ask prompt span =>
    refine (he prompt).bind fun v => (act (.text v) rfl).bind fun text => ?_
    exact (act (.ask text) rfl).bind fun _ => pure _

theorem eachLoop (n : Nat) (var : String) (sweep : Sweep) (body : Stmt) (span : Span) :
    Moves move (Interpreter.eachLoop n eval exec var sweep body span)
      (Interpreter.eachLoop n eval' exec' var (sweep.moved move) (body.moved move)
        (move span)) := by
  refine withScope none fun scope => ?_
  have hpass := eachPass hs scope var body
  cases sweep with
  | range first last =>
    refine (he first).bind fun x => (he last).bind fun y => ?_
    split
    · exact repeatRange hpass _ n _
    · exact fail _ span
  | items collection =>
    refine (he collection).bind fun v => (act (.items v span) rfl).bind fun items => ?_
    exact repeatItems hpass items

theorem execStep (n : Nat) (s : Stmt) :
    Moves move (Interpreter.execStep n eval exec s)
      (Interpreter.execStep n eval' exec' (s.moved move)) := by
  cases s with
  | expr e => exact (he e).bind fun _ => pure _
  | say value span =>
    refine (he value).bind fun v => (act (.text v) rfl).bind fun text => ?_
    exact (act (.print text) rfl).bind fun _ => pure _
  | bind binder name value span =>
    exact (he value).bind fun v => (act (.define name v binder none) rfl).bind fun _ => pure _
  | block body span => exact inNewScope (execAll hs body)
  | ifThen test yes span =>
    refine (holds he test).bind fun b => ?_
    split
    · exact hs yes
    · exact pure _
  | ifElse test yes no span =>
    refine (holds he test).bind fun b => ?_
    split
    · exact hs yes
    · exact hs no
  | keep test body span => exact repeatWhile (holds he test) (hs body) n
  | each var sweep body span => exact eachLoop he hs n var sweep body span
  | skill name params body span =>
    refine (act (.newSkill name params body) rfl).bind fun v => ?_
    exact (act (.define name v .hold none) rfl).bind fun _ => pure _
  | give value span =>
    cases value with
    | none => exact pure _
    | some e => exact (he e).bind fun _ => pure _
  | stop span | skip span => exact pure _
  | attempt body errorName handler span =>
    exact orElse (inNewScope (execAll hs body)) (handle hs errorName handler)

end

/-! ### Whole programs -/

theorem eval_exec (n : Nat) :
    (∀ e, Moves move (eval n e) (eval n (e.moved move))) ∧
      ∀ s, Moves move (exec n s) (exec n (s.moved move)) := by
  induction n with
  | zero => exact ⟨fun _ => halt, fun _ => halt⟩
  | succ n ih =>
    obtain ⟨he, hs⟩ := ih
    constructor
    · intro e
      rw [eval, eval, Expr.span_moved]
      exact (act (.tick e.span) rfl).bind fun _ => evalStep he hs e
    · intro s
      rw [exec, exec, Stmt.span_moved]
      exact (act (.tick s.span) rfl).bind fun _ => execStep he hs n s

theorem runAll (n : Nat) (p : Program) :
    Moves move (Interpreter.runAll (exec n) p) (Interpreter.runAll (exec n) (p.moved move)) := by
  induction p with
  | nil => exact pure _
  | cons s ss ih =>
    change Moves move _ (Interpreter.runAll (exec n) (s.moved move :: Stmt.movedEach move ss))
    rw [Interpreter.runAll, Interpreter.runAll, Stmt.span_moved]
    refine ((eval_exec n).2 s).bind fun flow => ?_
    cases flow with
    | normal => exact ih
    | _ => exact fail _ s.span

/-- What does the same however the places are moved that do not satisfy `P` tells of a place that
does, and leaves no other places in the store than such ones. -/
theorem places {P : Span → Prop} {p : Run α}
    (hp : ∀ move : Span → Span, (∀ s, P s → move s = s) → Moves move p p) {m : Machine}
    (hm : ∀ s ∈ m.store.spans, P s) :
    (∀ f m', p m = .failed f m' → P f.span) ∧ ∀ s ∈ (p m).machine.store.spans, P s := by
  classical
  -- Moving all other places changes nothing at the beginning, so they do not come up.
  let move : Span → Span := fun s => if P s then s else { s with line := s.line + 1 }
  have hmove : ∀ s, move s = s ↔ P s := by
    intro s
    by_cases h : P s
    · simp [move, h]
    · simp only [move, h, if_false, iff_false]
      intro heq
      simpa using congrArg Span.line heq
  have hmachine : m.moved move = m := Machine.moved_eq_self.2 fun s hs => (hmove s).2 (hm s hs)
  have hsame : (p m).moved move = p m := by
    rw [← hp move (fun s => (hmove s).2) m, hmachine]
  constructor
  · intro f m' hfailed
    rw [hfailed] at hsame
    injection hsame with hfault
    exact (hmove _).1 (congrArg Fault.span hfault)
  · have hleft : (p m).machine.moved move = (p m).machine := by
      rw [← Outcome.machine_moved, hsame]
    exact fun s hs => (hmove s).1 (Machine.moved_eq_self.1 hleft s hs)

end Run.Moves

namespace Machine

variable {p : Program} {m : Machine}

/-- At the beginning there are no skills. -/
theorem spans_start (limits : Limits) (console : Console) (dice : Dice) :
    (start limits console dice).store.spans = [] := by
  simp [start, Store.initial, Store.defineBuiltins, Builtin.all, Store.define, Store.spans]

theorem spans_restart (m : Machine) : m.restart.store.spans = [] :=
  spans_start m.limits m.console m.store.dice

/-- A program with other places does the same on a machine with other places, and what it tells and
leaves has these places. -/
theorem run_moved (move : Span → Span) (p : Program) (m : Machine) :
    run (p.moved move) (m.moved move) = (run p m).moved move :=
  Run.Moves.runAll m.limits.fuel p m.reset

/-- The place of a failure, and all places in the store that a run leaves, stand in the program or
in a skill that was there before. -/
theorem run_places {P : Span → Prop} (hp : ∀ s ∈ p.spans, P s) (hm : ∀ s ∈ m.store.spans, P s) :
    (∀ f m', run p m = .failed f m' → P f.span) ∧ ∀ s ∈ (run p m).machine.store.spans, P s := by
  refine Run.Moves.places (m := m.reset) (fun move hmove => ?_) hm
  have hprogram : p.moved move = p :=
    (Stmt.movedEach_eq_self p).2 fun s hs => hmove s (hp s hs)
  have hmoves : Run.Moves move (Interpreter.runAll (Interpreter.exec m.limits.fuel) p)
      (Interpreter.runAll (Interpreter.exec m.limits.fuel) (p.moved move)) :=
    Run.Moves.runAll m.limits.fuel p
  rwa [hprogram] at hmoves

end Machine

end Vibe
