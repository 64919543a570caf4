import Vibe.Proofs.Store.Lawful

/-! What can be reached in a store from a scope. A program that is run there gets hold of nothing
else but what it makes itself. -/

namespace Vibe

namespace Store

mutual

/-- The scopes that can be reached: those around others, and the homes of skills. -/
inductive ReachesScope (st : Store) (start : Nat) : Nat → Prop
  | start : ReachesScope st start start
  | parent {id p : Nat} {s : Scope} : ReachesScope st start id → st.scopes[id]? = some s →
      p ∈ s.parent → ReachesScope st start p
  | home {id : Nat} {s : Skill} : ReachesValue st start (.skill id) → st.skills[id]? = some s →
      ReachesScope st start s.home

/-- The values that can be reached: those of names, and the items of arrays. -/
inductive ReachesValue (st : Store) (start : Nat) : Value → Prop
  | binding {id : Nat} {s : Scope} {b : Binding} : ReachesScope st start id →
      st.scopes[id]? = some s → b ∈ s.bindings → ReachesValue st start b.value
  | item {id : Nat} {vs : Array Value} {v : Value} : ReachesValue st start (.array id) →
      st.arrays[id]? = some vs → v ∈ vs → ReachesValue st start v

end
end Store

namespace Rules

/-- All statements pass a check, and there is nothing but what can be reached or is still to be
made. -/
def reaching (f : Stmt → Bool) (st : Store) (start : Nat) : Rules where
  value
    | .array id => st.ReachesValue start (.array id) ∨ st.arrays.size ≤ id
    | .skill id => st.ReachesValue start (.skill id) ∨ st.skills.size ≤ id
    | _ => True
  home id := st.ReachesScope start id ∨ st.scopes.size ≤ id
  fits c s := s.every (fun _ => f) c = true
  value_of_not_shared v h := by
    cases v with
    | array | skill => cases h
    | _ => trivial
  fits_parts h := (Stmt.every_iff.1 h).2
  give_of_loop h := Stmt.every_place h _

variable {f : Stmt → Bool} {st : Store} {start : Nat}

theorem value_reaching {v : Value} (h : st.ReachesValue start v) :
    (reaching f st start).value v := by
  cases v with
  | array | skill => exact .inl h
  | _ => trivial

/-- Where all skills that can be reached pass the check, all that can be reached follows these
rules. -/
theorem lawful_reaching (h : ∀ id s, st.ReachesValue start (.skill id) → st.skills[id]? = some s →
    ∀ b ∈ s.body, b.every (fun _ => f) .top = true) : st.Lawful (.reaching f st start) where
  scopes {id s} hid hs := by
    rcases hid with hid | hnew
    · exact ⟨fun p hp => .inl (.parent hid hs hp), fun b hb => value_reaching (.binding hid hs hb)⟩
    · simp [Array.getElem?_eq_none hnew] at hs
  arrays {id vs} hid hvs v hv := by
    rcases hid with hid | hnew
    · exact value_reaching (.item hid hvs hv)
    · simp [Array.getElem?_eq_none hnew] at hvs
  skills {id s} hid hs := by
    rcases hid with hid | hnew
    · exact ⟨.inl (.home hid hs), fun b hb => Stmt.every_place (h id s hid hs b hb) _⟩
    · simp [Array.getElem?_eq_none hnew] at hs
  newScope hid := .inr hid
  newArray hid := .inr hid
  newSkill hid := .inr hid

end Rules

/-- Whether a statement is a `try`. -/
def Stmt.isTry : Stmt → Bool
  | attempt .. => true
  | _ => false

/-- Whether there is no `try` in a statement. -/
def Stmt.tryless (s : Stmt) : Bool :=
  s.every (fun _ s => !s.isTry) .top

namespace Rules

/-- There is no `try`, and nothing but what can be reached or is still to be made. -/
abbrev tryless (st : Store) (start : Nat) : Rules :=
  reaching (fun s => !s.isTry) st start

theorem not_mayCatch_tryless (st : Store) (start : Nat) : ¬ (tryless st start).mayCatch := by
  rintro ⟨c, body, errorName, handler, span, hfits⟩
  exact nomatch (Stmt.every_iff.1 hfits).1

end Rules
end Vibe
