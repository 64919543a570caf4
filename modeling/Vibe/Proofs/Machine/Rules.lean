import Vibe.Machine.Execution
import Vibe.Proofs.Syntax.Places

/-! Rules for programs and for what they work on: which statements may stand where, which values
there may be, and which scopes. What follows the rules at the beginning is to follow them in every
run. -/

namespace Vibe

/-- Whether executing the statement binds no name in the current scope, whatever its parts are. -/
def Stmt.opensScope : Stmt → Bool
  | block .. | each .. | attempt .. => true
  | _ => false

/-- Whether a value stands for something in the store. -/
def Value.isShared : Value → Bool
  | array _ | skill _ => true
  | _ => false

structure Rules where
  /-- The values that there may be. -/
  value : Value → Prop
  /-- The scopes that there may be scopes in. -/
  home : Nat → Prop
  /-- The statements that may stand at a place. -/
  fits : Place → Stmt → Prop
  value_of_not_shared : ∀ v, v.isShared = false → value v
  fits_parts : ∀ {c : Place} {s : Stmt}, fits c s → ∀ x ∈ s.parts c, fits x.1 x.2
  give_of_loop : ∀ {c : Place} {e : Option Expr} {span : Span},
    fits c.loop (.give e span) → fits c (.give e span)

/-- What may be asked of a result. -/
inductive Asked : Type → Type 1
  | nothing {α : Type} : Asked α
  | value : Asked Value
  | values : Asked (List Value)
  /-- How a statement at a place may end. -/
  | flow (c : Place) : Asked Flow
  | skill : Asked Skill
  | scope : Asked Nat

namespace Rules

/-- Everything is allowed. -/
def free : Rules where
  value _ := True
  home _ := True
  fits _ _ := True
  value_of_not_shared _ _ := trivial
  fits_parts _ _ _ := trivial
  give_of_loop _ := trivial

variable (R : Rules)

/-- How a statement at a place may end: as one does that may stand there. -/
def leaves (c : Place) : Flow → Prop
  | .normal => True
  | .stop => ∃ span, R.fits c (.stop span)
  | .skip => ∃ span, R.fits c (.skip span)
  | .give v => (∃ e span, R.fits c (.give e span)) ∧ R.value v

/-- Why something may fail: because of a stray signal only if one may stray. -/
def mayFail : RuntimeCause → Prop
  | .stopOutsideLoop => ∃ c span, c.inLoop = false ∧ R.fits c (.stop span)
  | .skipOutsideLoop => ∃ c span, c.inLoop = false ∧ R.fits c (.skip span)
  | .giveOutsideSkill => ∃ c e span, c.inSkill = false ∧ R.fits c (.give e span)
  | _ => True

/-- Whether failures may be caught. -/
def mayCatch : Prop :=
  ∃ c body errorName handler span, R.fits c (.attempt body errorName handler span)

/-- Whether a result follows the rules as far as is asked. -/
def Meets : {α : Type} → Asked α → α → Prop
  | _, .nothing, _ => True
  | _, .value, v => R.value v
  | _, .values, vs => ∀ v ∈ vs, R.value v
  | _, .flow c, flow => R.leaves c flow
  | _, .skill, s => R.home s.home ∧ ∀ st ∈ s.body, R.fits .skill st
  | _, .scope, id => R.home id

variable {R} {c : Place}

theorem meets_free {α : Type} (k : Asked α) (a : α) : free.Meets k a := by
  cases k with
  | nothing | value | scope => trivial
  | values => exact fun _ _ => trivial
  | skill => exact ⟨trivial, fun _ _ => trivial⟩
  | flow c =>
    cases a with
    | normal => trivial
    | stop | skip => exact ⟨.nowhere, trivial⟩
    | give v => exact ⟨⟨none, .nowhere, trivial⟩, trivial⟩

theorem leaves_of_loop {v : Value} (h : R.leaves c.loop (.give v)) : R.leaves c (.give v) := by
  obtain ⟨⟨e, span, hfits⟩, hv⟩ := h
  exact ⟨⟨e, span, R.give_of_loop hfits⟩, hv⟩

end Rules

namespace Instr

variable {α : Type}

/-- Whether an instruction binds names only where it may: in scopes that are `own`, and in the
current one only if `here`. Scopes are made only together with what is done in them. -/
def Allowed (own : Nat → Prop) (here : Bool) : Instr α → Prop
  | newScope _ => False
  | define _ _ _ none => here = true
  | define _ _ _ (some scope) => own scope
  | _ => True

/-- Whether all that an instruction is given follows the rules. -/
def Obeys (R : Rules) : Instr α → Prop
  | fail cause _ => R.mayFail cause
  | halt => False
  | newScope home => ∀ scope ∈ home, R.home scope
  | assign _ v _ | define _ v _ _ | index v _ _ | items v _ => R.value v
  | newArray values | builtin _ values _ => ∀ v ∈ values, R.value v
  | newSkill _ _ body => ∀ s ∈ body, R.fits .skill s
  | skill id _ => R.value (.skill id)
  | _ => True

/-- What may be asked of what an instruction comes to. -/
def yields : {α : Type} → Instr α → Asked α
  | _, lookup _ _ | _, newArray _ | _, newSkill _ _ _ | _, operate _ _ _ _ | _, operateUnary _ _ _
  | _, index _ _ _ | _, builtin _ _ _ => .value
  | _, items _ _ => .values
  | _, skill _ _ => .skill
  | _, newScope _ => .scope
  | _, _ => .nothing

end Instr
end Vibe
