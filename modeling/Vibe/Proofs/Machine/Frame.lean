import Vibe.Proofs.Machine.Correspondence
import Vibe.Proofs.Machine.Instructions
import Vibe.Proofs.Store.Assignment
import Vibe.Session

/-! Programs leave the scopes that they find as they are, but for assignments. Names are bound only
in scopes that are made on the way, and in the current one. -/

namespace Vibe

/-- From one machine to another the scopes below `bound` differ by assignments only, apart from the
current scope if names may be bound `here`. -/
structure Machine.Framed (bound : Nat) (here : Bool) (m m' : Machine) : Prop where
  scope : m'.scope = m.scope
  size : bound ≤ m'.store.scopes.size
  scopes : ∀ i < bound, (here = true → i ≠ m.scope) → ∀ s, m.store.scopes[i]? = some s →
    ∃ s', m'.store.scopes[i]? = some s' ∧ s.Reassigned s'

/-- What a part of a run does to every machine that has so many scopes, however it ends. -/
def Run.Frames {α : Type} (bound : Nat) (here : Bool) (p : Run α) : Prop :=
  ∀ m : Machine, bound ≤ m.store.scopes.size → m.Framed bound here (p m).machine

namespace Machine.Framed

variable {bound scope target : Nat} {here : Bool} {m m' m'' : Machine} {change : Scope → Scope}

theorem of_eq (hscope : m'.scope = m.scope) (hscopes : m'.store.scopes = m.store.scopes)
    (hm : bound ≤ m.store.scopes.size) : m.Framed bound here m' where
  scope := hscope
  size := by rwa [hscopes]
  scopes _ _ _ s hs := ⟨s, by rwa [hscopes], .refl⟩

theorem refl (hm : bound ≤ m.store.scopes.size) : m.Framed bound here m :=
  of_eq rfl rfl hm

theorem trans (h : m.Framed bound here m') (h' : m'.Framed bound here m'') :
    m.Framed bound here m'' where
  scope := h'.scope.trans h.scope
  size := h'.size
  scopes i hi hne s hs := by
    obtain ⟨s', hs', hkept⟩ := h.scopes i hi hne s hs
    obtain ⟨s'', hs'', hkept'⟩ := h'.scopes i hi (by rwa [h.scope]) s' hs'
    exact ⟨s'', hs'', hkept.trans hkept'⟩

theorem anywhere (h : m.Framed bound false m') : m.Framed bound true m' where
  scope := h.scope
  size := h.size
  scopes i hi _ := h.scopes i hi (by simp)

/-- A change of one scope that is none of those to keep. -/
theorem of_modify (hscope : m'.scope = m.scope)
    (hscopes : m'.store.scopes = m.store.scopes.modify target change)
    (hm : bound ≤ m.store.scopes.size)
    (htarget : ∀ i < bound, (here = true → i ≠ m.scope) → i ≠ target) :
    m.Framed bound here m' where
  scope := hscope
  size := by rwa [hscopes, Array.size_modify]
  scopes i hi hne s hs := by
    have hi' := htarget i hi hne
    refine ⟨s, ?_, .refl⟩
    rw [hscopes, Array.getElem?_modify, if_neg hi'.symm]
    exact hs

/-- An assignment in one scope, which may be one of those to keep. -/
theorem of_update {name : String} {v : Value} {s : Scope} {b : Binding}
    (hscope : m'.scope = m.scope)
    (hscopes : m'.store.scopes = m.store.scopes.modify target (·.update name v))
    (hm : bound ≤ m.store.scopes.size) (hs : m.store.scopes[target]? = some s)
    (hb : s.find? name = some b) (free : b.binder = .hold) : m.Framed bound here m' where
  scope := hscope
  size := by rwa [hscopes, Array.size_modify]
  scopes i hi hne r hr := by
    by_cases htarget : target = i
    · subst htarget
      obtain rfl : s = r := Option.some.inj (hs.symm.trans hr)
      refine ⟨s.update name v, ?_, .single (.update v hb free)⟩
      rw [hscopes, Array.getElem?_modify, if_pos rfl, hs]
      rfl
    · refine ⟨r, ?_, .refl⟩
      rw [hscopes, Array.getElem?_modify, if_neg htarget]
      exact hr

end Machine.Framed

namespace Run.Frames

variable {α β : Type} {bound : Nat} {here : Bool} {p : Run α} {f : α → Run β}

theorem bind (h : p.Frames bound here) (hf : ∀ a, (f a).Frames bound here) :
    (p >>= f).Frames bound here := by
  intro m hm
  have hp := h m hm
  rw [bind_apply]
  cases hout : p m with
  | done a m' =>
    rw [hout] at hp
    exact hp.trans (hf a m' hp.size)
  | failed e m' | unfinished m' =>
    rw [hout] at hp
    exact hp

/-- An instruction that binds a name does so where it may; the others change no scope, or make an
assignment. -/
theorem act {i : Instr α} (h : i.Allowed (bound ≤ ·) here) : i.run.Frames bound here := by
  intro m hm
  have hscope := (i.stays_run m).scope
  have hscopes := i.scopes_run m
  cases i with
  | newScope => exact h.elim
  | define name v binder scope =>
    refine .of_modify hscope hscopes hm fun i hi hne => ?_
    cases scope with
    | none => exact hne h
    | some scope =>
      have hown : bound ≤ scope := h
      rw [Option.getD_some]
      omega
  | assign name v span =>
    cases htarget : m.store.assignable name m.scope with
    | error cause => exact .of_eq hscope (by rw [hscopes, Instr.scopesAfter, htarget]) hm
    | ok target =>
      obtain ⟨s, b, hs, hb, free⟩ := Store.assignable_eq_ok htarget
      exact .of_update hscope (by rw [hscopes, Instr.scopesAfter, htarget]) hm hs hb free
  | _ => exact .of_eq hscope hscopes hm

/-- A scope that is made lies above all that were there. -/
theorem withScope {f : Nat → Run α} (home : Option Nat)
    (hf : ∀ scope, bound ≤ scope → (f scope).Frames bound here) :
    (Interpreter.withScope home f : Run α).Frames bound here := by
  intro m hm
  let made : Machine := { m with store := (m.store.newScope (some (home.getD m.scope))).2 }
  have hmade : m.Framed bound here made := by
    refine ⟨rfl, ?_, fun i hi _ s hs => ⟨s, ?_, .refl⟩⟩
    · simp only [made, Store.newScope, Array.size_push]
      omega
    · simp only [made, Store.newScope]
      rw [Array.getElem?_push_lt (by omega)]
      rwa [Array.getElem?_eq_getElem (by omega)] at hs
  exact hmade.trans (hf m.store.scopes.size hm made hmade.size)

theorem inScope {scope : Nat} (hown : bound ≤ scope) (h : p.Frames bound true) :
    (Run.inScope scope p).Frames bound false := by
  intro m hm
  have hp := h { m with scope } hm
  rw [Run.inScope, Outcome.machine_mapMachine]
  refine ⟨rfl, hp.size, fun i hi _ s hs => hp.scopes i hi (fun _ => ?_) s hs⟩
  change i ≠ scope
  omega

theorem deeper (h : p.Frames bound false) : (Run.deeper p).Frames bound false := by
  intro m hm
  have hp := h { m with depth := m.depth + 1 } hm
  rw [Run.deeper, Outcome.machine_mapMachine]
  exact ⟨hp.scope, hp.size, hp.scopes⟩

theorem orElse {f : Fault → Run α} (h : p.Frames bound here)
    (hf : ∀ e, (f e).Frames bound here) : (Run.orElse p f).Frames bound here := by
  intro m hm
  have hp := h m hm
  unfold Run.orElse
  cases hout : p m with
  | failed e m' =>
    rw [hout] at hp
    exact hp.trans (hf e m' hp.size)
  | done a m' | unfinished m' =>
    rw [hout] at hp
    exact hp

end Run.Frames

/-- Every part of a run keeps the scopes below a bound, those made on the way being above it. -/
def framing (bound : Nat) : Correspondence Run Run where
  Rel here p _ := p.Frames bound here
  own scope := bound ≤ scope
  anywhere h m hm := (h m hm).anywhere
  pure _ _ _ hm := .refl hm
  bind h hf := h.bind hf
  act h := .act h
  withScope home hf := .withScope home hf
  inScope hown h := .inScope hown h
  asCall _ h := Run.Frames.bind (.act trivial) fun _ => h.deeper
  orElse h hf := h.orElse hf

/-- Evaluating an expression, and executing a statement that opens a scope, leaves each scope as it
is but for assignments to what is not locked, however it ends. Every other statement does the same
apart from the current scope. -/
theorem Machine.scopes_kept (n : Nat) (m : Machine) :
    (∀ (e : Expr) (i : Nat) (s : Scope), m.store.scopes[i]? = some s →
      ∃ s', ((Interpreter.eval n e : Run Value) m).machine.store.scopes[i]? = some s' ∧
        s.Kept s') ∧
    (∀ (st : Stmt), st.opensScope = true → ∀ (i : Nat) (s : Scope),
      m.store.scopes[i]? = some s →
      ∃ s', ((Interpreter.exec n st : Run Flow) m).machine.store.scopes[i]? = some s' ∧
        s.Kept s') ∧
    (∀ (st : Stmt) (i : Nat) (s : Scope), i ≠ m.scope → m.store.scopes[i]? = some s →
      ∃ s', ((Interpreter.exec n st : Run Flow) m).machine.store.scopes[i]? = some s' ∧
        s.Kept s') := by
  obtain ⟨heval, hexec⟩ := (framing m.store.scopes.size).eval_exec n
  have hbound : ∀ {i : Nat} {s : Scope}, m.store.scopes[i]? = some s →
      i < m.store.scopes.size := fun hs => (Array.getElem?_eq_some_iff.1 hs).1
  refine ⟨fun e i s hs => ?_, fun st hst i s hs => ?_, fun st i s hi hs => ?_⟩
  · have h := heval e m (Nat.le_refl _)
    obtain ⟨s', hs', hkept⟩ := h.scopes i (hbound hs) (by simp) s hs
    exact ⟨s', hs', hkept.kept⟩
  · have h := hexec st m (Nat.le_refl _)
    rw [hst] at h
    obtain ⟨s', hs', hkept⟩ := h.scopes i (hbound hs) (by simp) s hs
    exact ⟨s', hs', hkept.kept⟩
  · have h := hexec st m (Nat.le_refl _)
    obtain ⟨s', hs', hkept⟩ := h.scopes i (hbound hs) (fun _ => hi) s hs
    exact ⟨s', hs', hkept.kept⟩

/-- A scope with something that may be assigned to and something that may not. -/
def Scope.sample : Scope where
  bindings := [⟨"x", .null, .hold⟩, ⟨"y", .null, .lock⟩]
  distinct := by decide

/-- A machine whose current scope lies in the sample scope. -/
def Machine.sample : Machine where
  store := { scopes := #[.sample, { parent := some 0 }] }
  scope := 1
  limits := {}
  console := {}

/-- `{ x = bet }`. -/
def Stmt.sample : Stmt :=
  .block [.expr (.assign "x" (.literal (.bool true) .nowhere) .nowhere)] .nowhere

theorem Machine.scopes_kept_sample :
    Machine.sample.store.scopes[0]? = some .sample ∧ Stmt.sample.opensScope = true ∧
      0 ≠ Machine.sample.scope ∧
      (∃ s', ((Interpreter.exec 5 .sample : Run Flow) .sample).machine.store.scopes[0]? = some s' ∧
        Scope.sample.Kept s') ∧
      ∃ s', ((Interpreter.exec 5 (.bind .hold "z" (.ident "x" .nowhere) .nowhere) : Run Flow)
        .sample).machine.store.scopes[0]? = some s' ∧ Scope.sample.Kept s' := by
  have hs : Machine.sample.store.scopes[0]? = some .sample := rfl
  have hopens : Stmt.sample.opensScope = true := rfl
  have hne : 0 ≠ Machine.sample.scope := by decide
  obtain ⟨-, hblock, hother⟩ := Machine.scopes_kept 5 .sample
  exact ⟨hs, hopens, hne, hblock _ hopens 0 _ hs, hother _ 0 _ hne hs⟩

end Vibe
