import Vibe.Store
import Vibe.Error

/-! Names in nested scopes. A name means the binding in the nearest scope that has one. -/

namespace Vibe

namespace Scope

/-- The binding of a name. -/
def find? (s : Scope) (name : String) : Option Binding :=
  s.bindings.find? (·.name == name)

/-- Binds a name anew. A binding that it had is forgotten, and the new one comes last. -/
def define (s : Scope) (b : Binding) : Scope where
  bindings := s.bindings.filter (·.name != b.name) ++ [b]
  parent := s.parent
  distinct := by
    have kept : ((s.bindings.filter (·.name != b.name)).map Binding.name).Nodup :=
      s.distinct.sublist (List.filter_sublist.map Binding.name)
    rw [List.map_append, List.nodup_append]
    refine ⟨kept, by simp, ?_⟩
    simp only [List.mem_map, List.mem_filter, List.map_cons, List.map_nil, List.mem_singleton]
    rintro _ ⟨c, ⟨_, hc⟩, rfl⟩ _ rfl
    simpa using hc

/-- Another value changes neither the names nor their order. -/
theorem names_update (bs : List Binding) (name : String) (value : Value) :
    (bs.map fun b => if b.name == name then { b with value } else b).map Binding.name =
      bs.map Binding.name := by
  simp only [List.map_map]
  refine List.map_congr_left fun c _ => ?_
  by_cases hc : c.name = name <;> simp [hc]

/-- Gives a bound name another value, in its place. -/
def update (s : Scope) (name : String) (value : Value) : Scope where
  bindings := s.bindings.map fun b => if b.name == name then { b with value } else b
  parent := s.parent
  distinct := by
    rw [names_update]
    exact s.distinct

variable {s : Scope} {b : Binding} {name : String} {value : Value}

/-- A name means what it was bound to last. -/
@[simp] theorem find?_define_self : (s.define b).find? b.name = some b := by
  have forgotten : (s.bindings.filter (·.name != b.name)).find? (·.name == b.name) = none := by
    simp
  simp [find?, define, List.find?_append, forgotten]

/-- Other names keep their meaning. -/
theorem find?_define_of_ne (h : name ≠ b.name) : (s.define b).find? name = s.find? name := by
  have kept : (s.bindings.filter (·.name != b.name)).find? (·.name == name) =
      s.bindings.find? (·.name == name) := by
    rw [List.find?_filter]
    congr
    funext c
    by_cases hc : c.name = name <;> simp [hc, h]
  simp [find?, define, List.find?_append, kept, h.symm]

end Scope

namespace Store

/-- A scope and those around it, from the inside out. A scope is older than those in it. -/
def chain (st : Store) (scope : Nat) : List Nat :=
  match st.scopes[scope]? with
  | none => []
  | some s =>
    scope :: match s.parent with
      | none => []
      | some p => if p < scope then st.chain p else []
termination_by scope

/-- The binding of a name in one scope. -/
def binding? (st : Store) (name : String) (scope : Nat) : Option Binding :=
  st.scopes[scope]? >>= (·.find? name)

/-- The nearest scope that binds a name, seen from a scope. -/
def nearest? (st : Store) (name : String) (scope : Nat) : Option Nat :=
  (st.chain scope).find? fun s => (st.binding? name s).isSome

/-- The binding that a name means in a scope. -/
def lookup? (st : Store) (name : String) (scope : Nat) : Option Binding :=
  st.nearest? name scope >>= st.binding? name

/-- The value of a name. -/
def get (st : Store) (name : String) (scope : Nat) : Except RuntimeCause Value :=
  match st.lookup? name scope with
  | some b => .ok b.value
  | none => .error (.undefinedVariable name)

/-- Whether a name means anything. -/
def contains (st : Store) (name : String) (scope : Nat) : Bool :=
  (st.lookup? name scope).isSome

/-- Whether a name means a locked binding. -/
def isConstant (st : Store) (name : String) (scope : Nat) : Bool :=
  (st.lookup? name scope).any (·.binder = .lock)

/-- Binds a name in a scope. -/
def define (name : String) (value : Value) (binder : Binder) (scope : Nat) (st : Store) : Store :=
  { st with scopes := st.scopes.modify scope (·.define ⟨name, value, binder⟩) }

/-- The scope with the binding that a name means, if that binding may be assigned to. -/
def assignable (st : Store) (name : String) (scope : Nat) : Except RuntimeCause Nat :=
  match st.nearest? name scope with
  | none => .error (.undefinedVariable name)
  | some s =>
    if st.isConstant name scope then .error (.constantReassignment name) else .ok s

/-- Gives the binding that a name means another value, unless it is locked. -/
def assign (name : String) (value : Value) (scope : Nat) (st : Store) :
    Except RuntimeCause Unit × Store :=
  match st.assignable name scope with
  | .error cause => (.error cause, st)
  | .ok s => (.ok (), { st with scopes := st.scopes.modify s (·.update name value) })

/-- The bindings of one scope, in the order of definition. -/
def bindings (st : Store) (scope : Nat) : List Binding :=
  (st.scopes[scope]?.map Scope.bindings).getD []

/-- Binds the names of the built-in skills in a scope. -/
def defineBuiltins (scope : Nat) (st : Store) : Store :=
  Builtin.all.foldl (fun st b => st.define b.name (.builtin b) .hold scope) st

end Store
end Vibe
