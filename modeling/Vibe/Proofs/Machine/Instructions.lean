import Vibe.Machine.Instruction

/-! What each instruction leaves of the machine that carries it out. -/

namespace Vibe

/-- The current scope, the depth and the limits are the same. -/
structure Machine.Stays (m m' : Machine) : Prop where
  scope : m'.scope = m.scope
  depth : m'.depth = m.depth
  limits : m'.limits = m.limits

namespace Machine.Stays

variable {m m' m'' : Machine}

theorem refl (m : Machine) : m.Stays m :=
  ⟨rfl, rfl, rfl⟩

theorem trans (h : m.Stays m') (h' : m'.Stays m'') : m.Stays m'' :=
  ⟨h'.scope.trans h.scope, h'.depth.trans h.depth, h'.limits.trans h.limits⟩

end Machine.Stays

namespace Run

variable {α β : Type} {m : Machine}

@[simp] theorem machine_orFail (span : Span) (r : Except RuntimeCause α) (m : Machine) :
    (orFail span r m).machine = m := by
  cases r <;> rfl

/-- A change of the store that may fail leaves the store that it makes. -/
theorem machine_onStore_orFail (change : Store → Except RuntimeCause α × Store) (span : Span)
    (m : Machine) :
    ((onStore change >>= orFail span) m).machine = { m with store := (change m.store).2 } :=
  machine_orFail _ _ _

end Run

/-- The built-in skills leave all scopes as they are. -/
theorem Builtin.scopes_call (b : Builtin) (args : List Value) (st : Store) :
    (b.call args st).2.scopes = st.scopes := by
  fun_cases Builtin.call b args st <;> rfl

namespace Instr

variable {α : Type}

/-- The machine that an instruction leaves, whether it comes to a result or fails. -/
def after (m : Machine) : Instr α → Machine
  | tick _ =>
    let operations := m.operations + 1
    if operations ≤ m.limits.maxOperations then { m with operations }
    else
      let passed := m.limits.unhurried m.looks
      { m with operations := if passed then 0 else operations, looks := m.looks + 1 }
  | assign name v _ => { m with store := (m.store.assign name v m.scope).2 }
  | newScope home => { m with store := (m.store.newScope (some (home.getD m.scope))).2 }
  | define name v binder scope =>
    { m with store := m.store.define name v binder (scope.getD m.scope) }
  | newArray values => { m with store := (m.store.newArray values.toArray).2 }
  | newSkill name params body =>
    { m with store := (m.store.newSkill ⟨name, params, body, m.scope⟩).2 }
  | builtin b args _ => { m with store := (b.call args m.store).2 }
  | print line => { m with output := m.output.push line, console := m.console.print line }
  | ask prompt => { m with console := (m.console.ask prompt).2 }
  | _ => m

theorem machine_run (i : Instr α) (m : Machine) : (i.run m).machine = i.after m := by
  cases i with
  | tick span =>
    simp only [run, Run.tick, after]
    by_cases hleft : m.operations + 1 ≤ m.limits.maxOperations
    · simp [hleft, Outcome.machine]
    · cases m.limits.unhurried m.looks <;> simp [hleft, Outcome.machine]
  | skill id span | enter span =>
    simp only [run]
    split <;> rfl
  | assign name v span => exact Run.machine_onStore_orFail (Store.assign name v m.scope) span m
  | builtin b args span => exact Run.machine_onStore_orFail (b.call args) span m
  | lookup | operate | operateUnary | index | items => exact Run.machine_orFail _ _ _
  | _ => rfl

/-- What an instruction makes of the scopes. -/
def scopesAfter (m : Machine) : Instr α → Array Scope
  | newScope home => m.store.scopes.push { parent := some (home.getD m.scope) }
  | define name v binder scope =>
    m.store.scopes.modify (scope.getD m.scope) (·.define ⟨name, v, binder⟩)
  | assign name v _ =>
    match m.store.assignable name m.scope with
    | .ok target => m.store.scopes.modify target (·.update name v)
    | .error _ => m.store.scopes
  | _ => m.store.scopes

theorem scopes_run (i : Instr α) (m : Machine) :
    (i.run m).machine.store.scopes = i.scopesAfter m := by
  rw [machine_run]
  cases i with
  | tick span =>
    simp only [after]
    split <;> rfl
  | assign name v span =>
    simp only [after, scopesAfter, Store.assign]
    cases m.store.assignable name m.scope <;> rfl
  | builtin b args span => exact b.scopes_call args m.store
  | _ => rfl

/-- No instruction leaves the current scope, or begins or ends a call. -/
theorem stays_run (i : Instr α) (m : Machine) : m.Stays (i.run m).machine := by
  rw [machine_run]
  cases i with
  | tick span =>
    simp only [after]
    split <;> exact ⟨rfl, rfl, rfl⟩
  | _ => exact ⟨rfl, rfl, rfl⟩

end Instr
end Vibe
