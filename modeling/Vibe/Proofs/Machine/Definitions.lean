import Vibe.Proofs.Machine.Frame
import Vibe.Proofs.Machine.Restoration
import Vibe.Proofs.Store.Definitions
import Vibe.Proofs.Syntax.Shape

/-! What programs define outside all blocks and skills. -/

namespace Vibe

/-! ### Statements -/

namespace Stmt

/-- Whether executing a statement defines nothing in the current scope. -/
def isPlain : Stmt → Bool
  | bind .. | skill .. => false
  | ifThen _ yes _ => yes.isPlain
  | ifElse _ yes no _ => yes.isPlain && no.isPlain
  | keep _ body _ => body.isPlain
  | _ => true

/-- What a statement has defined in the current scope when it has ended. -/
def definition? : Stmt → Option Definition
  | bind binder name _ _ => some ⟨name, binder⟩
  | skill name _ _ _ => some ⟨name, .hold⟩
  | _ => none

/-- In a program that can be written nothing is defined in branches and loops. -/
theorem isPlain_of_canonical : ∀ {s : Stmt}, s.Canonical → s.isDeclaration = false →
    s.isPlain = true
  | .ifThen _ yes _, .ifThen _ _ hyes dyes, _ => isPlain_of_canonical (s := yes) hyes dyes
  | .ifElse _ yes no _, .ifElse _ _ hyes dyes _ hno dno, _ =>
    Bool.and_eq_true_iff.2
      ⟨isPlain_of_canonical (s := yes) hyes dyes, isPlain_of_canonical (s := no) hno dno⟩
  | .keep _ body _, .keep _ _ hbody dbody, _ => isPlain_of_canonical (s := body) hbody dbody
  | .expr _, _, _ | .say .., _, _ | .block .., _, _ | .each .., _, _ | .give .., _, _
  | .stop _, _, _ | .skip _, _, _ | .attempt .., _, _ => rfl

end Stmt

namespace Correspondence

universe u v

variable {M : Type → Type u} {N : Type → Type v} [Interpreter M] [Interpreter N]

/-- Statements that define nothing in the current scope correspond as those do that open a scope. -/
theorem exec_plain (C : Correspondence M N) (n : Nat) {s : Stmt} (h : s.isPlain = true) :
    C.Rel false (Interpreter.exec n s : M Flow) (Interpreter.exec n s) := by
  induction n generalizing s with
  | zero => exact C.halts.halt (k := .nothing)
  | succ n ih =>
    obtain ⟨he, -⟩ := C.eval_exec n
    by_cases hopens : s.opensScope = true
    · have hexec := (C.eval_exec (n + 1)).2 s
      rwa [hopens] at hexec
    rw [Interpreter.exec, Interpreter.exec]
    refine C.bind (C.act (i := .tick s.span) trivial) fun _ => ?_
    have hholds : ∀ test, C.Rel false (Interpreter.holds (Interpreter.eval n) test : M Bool)
        (Interpreter.holds (Interpreter.eval n) test) :=
      fun test => C.accord.holds he test
    cases s with
    | bind | skill => cases h
    | expr e => exact C.bind (he e) fun _ => C.pure _ _
    | say value span =>
      refine C.bind (he value) fun v => C.bind (C.act (i := .text v) trivial) fun text => ?_
      exact C.bind (C.act (i := .print text) trivial) fun _ => C.pure _ _
    | ifThen test yes span =>
      refine C.bind (hholds test) fun holds => ?_
      split
      · exact ih h
      · exact C.pure _ _
    | ifElse test yes no span =>
      obtain ⟨hyes, hno⟩ := Bool.and_eq_true_iff.1 h
      refine C.bind (hholds test) fun holds => ?_
      split
      · exact ih hyes
      · exact ih hno
    | keep test body span =>
      exact C.halts.repeatWhile (c := .top) (hholds test) (ih (s := body) h) n
    | give value span =>
      cases value with
      | none => exact C.pure _ _
      | some e => exact C.bind (he e) fun _ => C.pure _ _
    | stop | skip => exact C.pure _ _
    | block | each | attempt => exact (hopens rfl).elim

end Correspondence

/-! ### Runs -/

/-- A scope has the names that were defined in it. -/
def Store.Defined (st : Store) (scope : Nat) (ds : List Definition) : Prop :=
  ∃ s, st.scopes[scope]? = some s ∧ s.definitions = latest ds

theorem Machine.Framed.defined {m m' : Machine} {ds : List Definition}
    (h : m.Framed m.store.scopes.size false m') (hm : m.store.Defined m.scope ds) :
    m'.store.Defined m.scope ds := by
  obtain ⟨s, hs, hds⟩ := hm
  have hlt := (Array.getElem?_eq_some_iff.1 hs).1
  obtain ⟨s', hs', hsame⟩ := h.scopes m.scope hlt nofun s hs
  exact ⟨s', hs', hsame.definitions.trans hds⟩

theorem Store.Defined.define {st : Store} {scope : Nat} {ds : List Definition}
    (h : st.Defined scope ds) (d : Definition) (v : Value) :
    (st.define d.name v d.binder scope).Defined scope (ds ++ [d]) := by
  obtain ⟨s, hs, hds⟩ := h
  refine ⟨s.define ⟨d.name, v, d.binder⟩, ?_, ?_⟩
  · rw [Store.scopes_define, Array.getElem?_modify, if_pos rfl, hs]
    rfl
  · rw [Scope.definitions_define, hds, latest_concat]
    rfl

/-- How a built-in skill is defined at the start. -/
def Builtin.definition (b : Builtin) : Definition :=
  ⟨b.name, .hold⟩

def Builtin.definitions : List Definition :=
  all.map definition

theorem Store.Defined.builtins (bs : List Builtin) {st : Store} {scope : Nat}
    {ds : List Definition} (h : st.Defined scope ds) :
    (bs.foldl (fun st b => st.define b.name (.builtin b) .hold scope) st).Defined scope
      (ds ++ bs.map Builtin.definition) := by
  induction bs generalizing st ds with
  | nil => exact (List.append_nil ds).symm ▸ h
  | cons b bs ih =>
    rw [List.map_cons, List.append_cons]
    exact ih (h.define b.definition (.builtin b))

/-- What a part of a run that ends normally has defined, if it was to define something. -/
def Outcome.made (d? : Option Definition) : Outcome Flow → List Definition
  | .done .normal _ => d?.toList
  | _ => []

/-- All that a part of a run defines in the current scope is what it was to define, and only if it
ends normally. -/
def Run.Defines (d? : Option Definition) (p : Run Flow) : Prop :=
  ∀ (m : Machine) (ds : List Definition), m.store.Defined m.scope ds →
    (p m).machine.store.Defined m.scope (ds ++ (p m).made d?)

namespace Run

/-- What leaves the scopes as they are but for assignments defines nothing. -/
theorem defines_none {p : Run Flow} (h : ∀ bound, p.Frames bound false) : p.Defines none := by
  intro m ds hm
  have hnone : (p m).made none = [] := by
    unfold Outcome.made
    split <;> rfl
  rw [hnone, List.append_nil]
  exact (h _ m (Nat.le_refl _)).defined hm

/-- A value is found, and a name is defined by it. -/
theorem defines_some {value : Run Value} (h : ∀ bound, value.Frames bound false)
    (d : Definition) :
    Defines (some d) (do
      let v ← value
      Interpreter.act (.define d.name v d.binder none)
      return Flow.normal) := by
  intro m ds hm
  have hframed := h _ m (Nat.le_refl _)
  rw [bind_apply]
  cases hvalue : value m with
  | done v m₁ =>
    rw [hvalue] at hframed
    have hdefined := (hframed.defined hm).define d v
    rw [← hframed.scope] at hdefined ⊢
    exact hdefined
  | failed f m₁ | unfinished m₁ =>
    rw [hvalue] at hframed
    simp only [Outcome.made, List.append_nil]
    exact hframed.defined hm

end Run

/-- A statement defines what it says, and only in the end. -/
theorem Stmt.Canonical.defines_exec {s : Stmt} (h : s.Canonical) (n : Nat) :
    (Interpreter.exec n s : Run Flow).Defines s.definition? := by
  by_cases hplain : s.isDeclaration = false
  · have hnone : s.definition? = none := by
      cases s <;> first | rfl | cases hplain
    rw [hnone]
    exact Run.defines_none fun bound =>
      (framing bound).exec_plain n (isPlain_of_canonical h hplain)
  cases n with
  | zero =>
    intro m ds hm
    exact (List.append_nil ds).symm ▸ hm
  | succ n =>
    have htick : ∀ bound, (Interpreter.tick s.span : Run Unit).Frames bound false :=
      fun bound => .act (i := .tick s.span) trivial
    cases s with
    | bind binder name value span =>
      have hvalue : ∀ bound, (do
          Interpreter.tick span
          Interpreter.eval n value : Run Value).Frames bound false :=
        fun bound => (htick bound).bind fun _ => ((framing bound).eval_exec n).1 value
      have hdefines := Run.defines_some hvalue ⟨name, binder⟩
      rwa [bind_assoc] at hdefines
    | skill name params body span =>
      have hvalue : ∀ bound, (do
          Interpreter.tick span
          Interpreter.act (.newSkill name params body) : Run Value).Frames bound false :=
        fun bound => (htick bound).bind fun _ => .act (i := .newSkill name params body) trivial
      have hdefines := Run.defines_some hvalue ⟨name, .hold⟩
      rwa [bind_assoc] at hdefines
    | _ => exact (hplain rfl).elim

/-- The definitions that the statements of a program make when it is run. -/
def Program.definitions (n : Nat) : Program → Machine → List Definition
  | [], _ => []
  | s :: ss, m =>
    match (Interpreter.exec n s : Run Flow) m with
    | .done .normal m' => s.definition?.toList ++ Program.definitions n ss m'
    | _ => []

namespace Machine

variable {p : Program} {m : Machine} {ds : List Definition}

theorem defined_runAll (n : Nat) (hp : p.Canonical) (hm : m.store.Defined m.scope ds) :
    ((Interpreter.runAll (Interpreter.exec n) p : Run Unit) m).machine.store.Defined m.scope
      (ds ++ p.definitions n m) := by
  induction p generalizing m ds with
  | nil => exact (List.append_nil ds).symm ▸ hm
  | cons s p ih =>
    have hs := (hp s List.mem_cons_self).defines_exec n m ds hm
    have hscope := (stays_exec n s m).scope
    rw [Interpreter.runAll, Run.bind_apply, Program.definitions]
    cases hout : (Interpreter.exec n s : Run Flow) m with
    | done flow m₁ =>
      rw [hout] at hs hscope
      cases flow with
      | normal =>
        rw [← List.append_assoc, ← hscope]
        exact ih (fun s hs => hp s (List.mem_cons_of_mem _ hs)) (hscope.symm ▸ hs)
      | stop | skip | give => exact hs
    | failed f m₁ | unfinished m₁ =>
      rw [hout] at hs
      exact hs

theorem defined_start (limits : Limits) (console : Console) (dice : Dice) :
    (start limits console dice).store.Defined root Builtin.definitions := by
  have hempty : ({ scopes := #[{}], dice : Store }).Defined root [] := ⟨{}, rfl, rfl⟩
  exact hempty.builtins Builtin.all

/-- After a run the root scope has the names that were defined there before and by the program. -/
theorem defined_run (hp : p.Canonical) (hm : m.store.Defined root ds) :
    (run p m).machine.store.Defined root (ds ++ p.definitions m.limits.fuel m.reset) :=
  defined_runAll (m := m.reset) _ hp hm

end Machine

end Vibe
