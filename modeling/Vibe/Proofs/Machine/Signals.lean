import Vibe.Proofs.Machine.Noting

/-! Signals on their way. A statement passes on the signal that ends one of the statements in it,
but a loop answers `stop` and `skip`, and a call takes what is given for its value. -/

namespace Vibe

/-- Statements that are executed one after the other come to what the last of them comes to: a
signal ends the sequence. -/
inductive Flow.Sequence : List Flow → Flow → Prop
  | done : Sequence [] .normal
  | signal {flow : Flow} : flow ≠ .normal → Sequence [flow] flow
  | next {ends : List Flow} {flow : Flow} : Sequence ends flow → Sequence (.normal :: ends) flow

/-- The passes of a loop: a `skip` goes on to the next one like a normal end, a `stop` ends the loop
normally, and only what is given leaves it. -/
inductive Flow.Passes : List Flow → Flow → Prop
  | done : Passes [] .normal
  | stop : Passes [.stop] .normal
  | give (v : Value) : Passes [.give v] (.give v)
  | next {ends : List Flow} {pass flow : Flow} : pass = .normal ∨ pass = .skip →
      Passes ends flow → Passes (pass :: ends) flow

/-- What the body of a skill comes to: the value that is given in it, or `null` at its end. -/
def Flow.Returns (ends : List Flow) (v : Value) : Prop :=
  Sequence ends (.give v) ∨ Sequence ends .normal ∧ v = .null

/-- How a statement ends, by the ends of those that are executed directly in it. -/
def Stmt.Handles : Stmt → List Flow → Flow → Prop
  | stop _, ends, flow => ends = [] ∧ flow = .stop
  | skip _, ends, flow => ends = [] ∧ flow = .skip
  | give _ _, ends, flow => ends = [] ∧ ∃ v, flow = .give v
  | expr _, ends, flow | say _ _, ends, flow | bind _ _ _ _, ends, flow
  | skill _ _ _ _, ends, flow => ends = [] ∧ flow = .normal
  | block _ _, ends, flow | ifThen _ _ _, ends, flow | ifElse _ _ _ _, ends, flow
  | attempt _ _ _ _, ends, flow => Flow.Sequence ends flow
  | keep _ _ _, ends, flow | each _ _ _ _, ends, flow => Flow.Passes ends flow

/-- What an expression comes to, by the ends of the statements that are executed directly in it:
there are none but in a call. -/
def Expr.Handles : Expr → List Flow → Value → Prop
  | call _ _ _, ends, v => ends = [] ∨ Flow.Returns ends v
  | _, ends, _ => ends = []

namespace Flow

theorem Sequence.single (flow : Flow) : Sequence [flow] flow := by
  cases flow with
  | normal => exact .next .done
  | stop | skip | give => exact .signal nofun

variable {ends later : List Flow} {flow : Flow}

/-- What comes after normal ends decides. -/
theorem Sequence.append (hends : ∀ e ∈ ends, e = normal) (h : Sequence later flow) :
    Sequence (ends ++ later) flow := by
  induction ends with
  | nil => exact h
  | cons e ends ih =>
    obtain ⟨rfl, hrest⟩ := List.forall_mem_cons.1 hends
    exact .next (ih hrest)

end Flow

namespace Noted

variable {α : Type} {n : Nat} {eval : Expr → Noted Value} {exec : Stmt → Noted Flow}

/-- Just the statement itself is noted. -/
def Single (p : Noted Flow) : Prop :=
  p.Ends (fun ends flow => ends = [flow]) (· = [])

theorem ends_execAll (hs : ∀ s, (exec s).Single) (ss : List Stmt) :
    (Interpreter.execAll exec ss).Ends Flow.Sequence (∀ e ∈ ·, e = .normal) := by
  induction ss with
  | nil => exact .pure .done
  | cons s ss ih =>
    refine (hs s).bind ?_ ?_
    · rintro _ flow rfl
      cases flow with
      | normal => exact ih.mono (fun _ _ h => .next h) fun _ h => by simpa using h
      | stop | skip | give => exact .pure (.signal nofun)
    · rintro _ rfl
      nofun

/-- The rest of a loop after a pass. -/
theorem ends_afterPass {pass rest : Noted Flow} (hp : pass.Single)
    (h : rest.Ends Flow.Passes fun _ => True) :
    (pass >>= Interpreter.afterPass rest).Ends Flow.Passes fun _ => True := by
  refine hp.bind ?_ fun _ _ => trivial
  rintro _ flow rfl
  cases flow with
  | stop => exact .pure .stop
  | give v => exact .pure (.give v)
  | normal => exact h.mono (fun _ _ h => .next (.inl rfl) h) fun _ h => h
  | skip => exact h.mono (fun _ _ h => .next (.inr rfl) h) fun _ h => h

theorem ends_repeatWhile {test : Noted Bool} {body : Noted Flow} (ht : test.Silent)
    (hb : body.Single) (n : Nat) :
    (Interpreter.repeatWhile test body n).Ends Flow.Passes fun _ => True := by
  induction n with
  | zero => exact .halt
  | succ n ih =>
    rw [Interpreter.repeatWhile_succ]
    refine .silent_bind ht (fun holds => ?_) trivial
    cases holds with
    | false => exact .pure .done
    | true => exact ends_afterPass hb ih

theorem ends_repeatRange {pass : Value → Noted Flow} (hp : ∀ v, (pass v).Single) (last : Float)
    (n : Nat) (x : Float) :
    (Interpreter.repeatRange pass last n x).Ends Flow.Passes fun _ => True := by
  induction n generalizing x with
  | zero => exact .halt
  | succ n ih =>
    rw [Interpreter.repeatRange_succ]
    split
    · exact ends_afterPass (hp _) (ih _)
    · exact .pure .done

theorem ends_repeatItems {pass : Value → Noted Flow} (hp : ∀ v, (pass v).Single)
    (vs : List Value) : (Interpreter.repeatItems pass vs).Ends Flow.Passes fun _ => True := by
  induction vs with
  | nil => exact .pure .done
  | cons v vs ih =>
    rw [Interpreter.repeatItems_cons]
    exact ends_afterPass (hp v) ih

/-- One pass of an `each` loop is its body. -/
theorem single_eachPass (hs : ∀ s, (exec s).Single) (scope : Nat) (var : String) (body : Stmt)
    (v : Value) : (Interpreter.eachPass exec scope var body v).Single := by
  refine .act_bind ?_ rfl
  intro _
  exact (hs body).inScope scope

theorem ends_eachLoop (he : ∀ e, (eval e).Silent) (hs : ∀ s, (exec s).Single) (var : String)
    (sweep : Sweep) (body : Stmt) (span : Span) :
    (Interpreter.eachLoop n eval exec var sweep body span).Ends Flow.Passes fun _ => True := by
  refine .act_bind (fun scope => ?_) trivial
  have hpass := single_eachPass hs scope var body
  cases sweep with
  | range first last =>
    refine .silent_bind (he first) (fun x => ?_) trivial
    refine .silent_bind (he last) (fun y => ?_) trivial
    split
    · exact ends_repeatRange hpass _ _ _
    · exact .fail _ span trivial
  | items collection =>
    refine .silent_bind (he collection) (fun v => ?_) trivial
    refine .act_bind (fun items => ?_) trivial
    exact ends_repeatItems hpass items

/-- Statements in a new scope. -/
theorem ends_inNewScope {p : Noted α} {Q : List Flow → α → Prop} {E : List Flow → Prop}
    (h : p.Ends Q E) (hE : E []) : (Interpreter.inNewScope p).Ends Q E := by
  refine .act_bind (fun scope => ?_) hE
  exact h.inScope scope

theorem ends_handle (hs : ∀ s, (exec s).Single) (errorName : Option String)
    (handler : List Stmt) (f : Fault) :
    (Interpreter.handle exec errorName handler f).Ends Flow.Sequence (∀ e ∈ ·, e = .normal) := by
  have hbody := ends_execAll hs handler
  refine ends_inNewScope ?_ nofun
  cases errorName with
  | none => exact hbody
  | some name => exact .act_bind (fun _ => hbody) nofun

/-- The value of a call is what is given in the body of the skill. -/
theorem ends_callSkill (hs : ∀ s, (exec s).Single) (skill : Skill) (args : List Value)
    (span : Span) :
    (Interpreter.callSkill exec skill args span).Ends Flow.Returns fun _ => True := by
  have hparams : ∀ scope, (Interpreter.defineParams scope skill.params args : Noted Unit).Silent :=
    fun _ => silence.defineParams trivial _ _
  have hbody : (Interpreter.asCall span <| Interpreter.withScope skill.home fun scope => do
      Interpreter.defineParams scope skill.params args
      Interpreter.inScope scope (Interpreter.execAll exec skill.body) : Noted Flow).Ends
      Flow.Sequence (∀ e ∈ ·, e = .normal) := by
    refine .act_bind (i := .enter span) (fun _ => .deeper ?_) nofun
    refine .act_bind (fun scope => ?_) nofun
    refine .silent_bind (hparams scope) (fun _ => ?_) nofun
    exact (ends_execAll hs skill.body).inScope scope
  refine hbody.bind (fun ends flow hends => ?_) fun _ _ => trivial
  cases flow with
  | give v =>
    refine .pure ?_
    rw [List.append_nil]
    exact .inl hends
  | normal =>
    refine .pure ?_
    rw [List.append_nil]
    exact .inr ⟨hends, rfl⟩
  | stop | skip => exact .fail _ span trivial

theorem ends_execStep (he : ∀ e, (eval e).Silent) (hs : ∀ s, (exec s).Single) (s : Stmt) :
    (Interpreter.execStep n eval exec s).Ends s.Handles fun _ => True := by
  have he' : ∀ e, silence.Rel true (eval e) (eval e) := he
  have hholds : ∀ test, (Interpreter.holds eval test).Silent := silence.holds he'
  have hpart : ∀ s, (exec s).Ends Flow.Sequence fun _ => True := by
    refine fun s => (hs s).mono (fun _ flow h => ?_) fun _ _ => trivial
    subst h
    exact .single flow
  cases s with
  | expr e => exact .silent_bind (he e) (fun _ => .pure ⟨rfl, rfl⟩) trivial
  | say value span =>
    refine .silent_bind (he value) (fun v => ?_) trivial
    refine .act_bind (fun text => ?_) trivial
    exact .act_bind (fun _ => .pure ⟨rfl, rfl⟩) trivial
  | bind binder name value span =>
    refine .silent_bind (he value) (fun v => ?_) trivial
    exact .act_bind (fun _ => .pure ⟨rfl, rfl⟩) trivial
  | block body span =>
    exact (ends_inNewScope (ends_execAll hs body) nofun).mono (fun _ _ h => h) fun _ _ => trivial
  | ifThen test yes span =>
    refine .silent_bind (hholds test) (fun holds => ?_) trivial
    cases holds with
    | true => exact hpart yes
    | false => exact .pure .done
  | ifElse test yes no span =>
    refine .silent_bind (hholds test) (fun holds => ?_) trivial
    cases holds with
    | true => exact hpart yes
    | false => exact hpart no
  | keep test body span => exact ends_repeatWhile (hholds test) (hs body) n
  | each var sweep body span => exact ends_eachLoop he hs var sweep body span
  | skill name params body span =>
    refine .act_bind (fun v => ?_) trivial
    exact .act_bind (fun _ => .pure ⟨rfl, rfl⟩) trivial
  | give value span =>
    cases value with
    | none => exact .pure ⟨rfl, _, rfl⟩
    | some e => exact .silent_bind (he e) (fun v => .pure ⟨rfl, v, rfl⟩) trivial
  | stop span => exact .pure ⟨rfl, rfl⟩
  | skip span => exact .pure ⟨rfl, rfl⟩
  | attempt body errorName handler span =>
    refine .orElse (ends_inNewScope (ends_execAll hs body) nofun) fun ends f hnormal => ?_
    exact (ends_handle hs errorName handler f).mono (fun _ _ h => .append hnormal h)
      fun _ _ => trivial

theorem ends_call (hs : ∀ s, (exec s).Single) (callee : Value) (args : List Value)
    (span : Span) : (Interpreter.call exec callee args span).Ends
      (fun ends v => ends = [] ∨ Flow.Returns ends v) fun _ => True := by
  cases callee with
  | builtin b =>
    have hsilent : (Interpreter.act (.builtin b args span) : Noted Value).Silent := fun _ => rfl
    exact hsilent.ends (fun _ => .inl rfl) trivial
  | skill id =>
    refine .act_bind (fun skill => ?_) trivial
    exact (ends_callSkill hs skill args span).mono (fun _ _ h => .inr h) fun _ h => h
  | _ => exact .fail _ span trivial

/-- Only a call executes statements, those of the skill that is called. -/
theorem ends_evalStep (he : ∀ e, (eval e).Silent) (hs : ∀ s, (exec s).Single) (e : Expr) :
    (Interpreter.evalStep eval exec e).Ends e.Handles fun _ => True := by
  have he' : ∀ e, silence.Rel false (eval e) (eval e) := he
  -- Any other expression is evaluated the same without executing anything.
  let idle : Stmt → Noted Flow := fun _ => pure .normal
  have hsilent : silence.Rel false (Interpreter.evalStep eval idle e)
      (Interpreter.evalStep eval idle e) := silence.evalStep he' (fun _ _ => rfl) e
  cases e with
  | call callee args span =>
    refine .silent_bind (he callee) (fun f => ?_) trivial
    refine .act_bind (fun arity => ?_) trivial
    cases arity with
    | none => exact .fail _ span trivial
    | some arity =>
      have hargs : silence.Rel false (Interpreter.evalAll eval args)
          (Interpreter.evalAll eval args) := silence.evalAll he' args
      refine .silent_bind hargs (fun values => ?_) trivial
      split
      · exact ends_call hs f values span
      · exact .fail _ span trivial
  | _ => exact Silent.ends hsilent (fun _ => rfl) trivial

theorem handles_exec (n : Nat) (s : Stmt) : (Noted.exec n s).Ends s.Handles fun _ => True := by
  cases n with
  | zero => exact .halt
  | succ n =>
    rw [Noted.exec]
    refine .act_bind (fun _ => ?_) trivial
    exact ends_execStep (fun _ _ => rfl) (fun _ => .note _) s

theorem handles_eval (n : Nat) (e : Expr) : (Noted.eval n e).Ends e.Handles fun _ => True := by
  cases n with
  | zero => exact .halt
  | succ n =>
    rw [Noted.eval]
    refine .act_bind (fun _ => ?_) trivial
    exact ends_evalStep (fun _ _ => rfl) (fun _ => .note _) e

end Noted
end Vibe
