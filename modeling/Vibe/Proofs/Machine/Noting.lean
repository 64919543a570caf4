import Vibe.Proofs.Machine.Correspondence

/-! Runs that note how statements end: those that are executed directly in an expression or in
another statement, and not those further inside. -/

namespace Vibe

/-- A part of a run that notes how the statements that are executed directly in it end. -/
def Noted (α : Type) : Type :=
  Machine → Outcome α × List Flow

namespace Noted

variable {α β : Type}

instance : Monad Noted where
  pure a m := (.done a m, [])
  bind p next m := match p m with
    | (.done a m, ends) => ((next a m).1, ends ++ (next a m).2)
    | (.failed f m, ends) => (.failed f m, ends)
    | (.unfinished m, ends) => (.unfinished m, ends)

theorem bind_apply (p : Noted α) (next : α → Noted β) (m : Machine) :
    (p >>= next) m = match p m with
      | (.done a m, ends) => ((next a m).1, ends ++ (next a m).2)
      | (.failed f m, ends) => (.failed f m, ends)
      | (.unfinished m, ends) => (.unfinished m, ends) :=
  rfl

/-- Does something of which nothing is noted. -/
def quiet (p : Run α) : Noted α := fun m =>
  (p m, [])

/-- Notes how something ends. -/
def note (p : Run Flow) : Noted Flow := fun m =>
  match p m with
  | .done flow m => (.done flow m, [flow])
  | outcome => (outcome, [])

def inScope (scope : Nat) (p : Noted α) : Noted α := fun m =>
  ((p { m with scope }).1.mapMachine fun m' => { m' with scope := m.scope },
    (p { m with scope }).2)

def deeper (p : Noted α) : Noted α := fun m =>
  ((p { m with depth := m.depth + 1 }).1.mapMachine fun m' => { m' with depth := m'.depth - 1 },
    (p { m with depth := m.depth + 1 }).2)

def orElse (p : Noted α) (handler : Fault → Noted α) : Noted α := fun m =>
  match p m with
  | (.failed f m, ends) => ((handler f m).1, ends ++ (handler f m).2)
  | (outcome, ends) => (outcome, ends)

instance : Interpreter Noted where
  act i := quiet i.run
  inScope := inScope
  asCall span p := do
    quiet (Instr.enter span).run
    deeper p
  orElse := orElse

/-- Evaluates an expression, noting how the statements directly in it end. -/
def eval : Nat → Expr → Noted Value
  | 0, _ => Interpreter.halt
  | n + 1, e => do
    Interpreter.tick e.span
    Interpreter.evalStep (fun e => quiet (Interpreter.eval n e))
      (fun s => note (Interpreter.exec n s)) e

/-- Executes a statement, noting how those directly in it end. -/
def exec : Nat → Stmt → Noted Flow
  | 0, _ => Interpreter.halt
  | n + 1, s => do
    Interpreter.tick s.span
    Interpreter.execStep n (fun e => quiet (Interpreter.eval n e))
      (fun s => note (Interpreter.exec n s)) s

/-- Noting changes nothing. -/
def Erases (p : Noted α) (q : Run α) : Prop :=
  ∀ m, (p m).1 = q m

namespace Erases

variable {p : Noted α} {q : Run α}

theorem quiet (q : Run α) : (Noted.quiet q).Erases q :=
  fun _ => rfl

theorem note (q : Run Flow) : (Noted.note q).Erases q := by
  intro m
  rw [Noted.note]
  cases q m <;> rfl

theorem bind {f : α → Noted β} {g : α → Run β} (h : p.Erases q) (hf : ∀ a, (f a).Erases (g a)) :
    (p >>= f).Erases (q >>= g) := by
  intro m
  rw [bind_apply, Run.bind_apply, ← h m]
  rcases p m with ⟨⟨a, m'⟩ | ⟨e, m'⟩ | m', ends⟩
  · exact hf a m'
  · rfl
  · rfl

theorem orElse {f : Fault → Noted α} {g : Fault → Run α} (h : p.Erases q)
    (hf : ∀ e, (f e).Erases (g e)) : (Noted.orElse p f).Erases (Run.orElse q g) := by
  intro m
  rw [Noted.orElse, Run.orElse, ← h m]
  rcases p m with ⟨⟨a, m'⟩ | ⟨e, m'⟩ | m', ends⟩
  · rfl
  · exact hf e m'
  · rfl

theorem inScope (scope : Nat) (h : p.Erases q) :
    (Noted.inScope scope p).Erases (Run.inScope scope q) := by
  intro m
  rw [Noted.inScope, Run.inScope, h]

theorem deeper (h : p.Erases q) : (Noted.deeper p).Erases (Run.deeper q) := by
  intro m
  rw [Noted.deeper, Run.deeper, h]

end Erases

/-- Noting changes nothing in all that programs do. -/
def erasing : Correspondence Noted Run where
  Rel _ p q := p.Erases q
  own _ := True
  anywhere h := h
  pure _ _ _ := rfl
  bind h hf := h.bind hf
  act _ := .quiet _
  withScope home hf := (Erases.quiet (Instr.newScope home).run).bind fun scope => hf scope trivial
  inScope _ h := h.inScope _
  asCall span h := (Erases.quiet (Instr.enter span).run).bind fun _ => h.deeper
  orElse h hf := h.orElse hf

theorem erases_eval (n : Nat) (e : Expr) : (eval n e).Erases (Interpreter.eval n e) := by
  cases n with
  | zero => exact erasing.halt
  | succ n =>
    rw [eval, Interpreter.eval]
    refine .bind (.quiet (Instr.tick e.span).run) fun _ => ?_
    exact erasing.evalStep (fun e => .quiet _) (fun s => .note _) e

theorem erases_exec (n : Nat) (s : Stmt) : (exec n s).Erases (Interpreter.exec n s) := by
  cases n with
  | zero => exact erasing.halt
  | succ n =>
    rw [exec, Interpreter.exec]
    refine .bind (.quiet (Instr.tick s.span).run) fun _ => ?_
    exact erasing.execStep (fun e => .quiet _) (fun s => .note _) n s

/-- Nothing is noted in a part of a run. -/
def Silent (p : Noted α) : Prop :=
  ∀ m, (p m).2 = []

/-- What is noted in a part of a run that comes to a result, and in one that fails. -/
structure Ends (Q : List Flow → α → Prop) (E : List Flow → Prop) (p : Noted α) : Prop where
  done : ∀ m a m', (p m).1 = .done a m' → Q (p m).2 a
  failed : ∀ m f m', (p m).1 = .failed f m' → E (p m).2

namespace Silent

variable {p : Noted α}

theorem bind {f : α → Noted β} (h : p.Silent) (hf : ∀ a, (f a).Silent) : (p >>= f).Silent := by
  intro m
  have hp := h m
  rw [bind_apply]
  rcases hout : p m with ⟨⟨a, m'⟩ | ⟨e, m'⟩ | m', ends⟩ <;> rw [hout] at hp
  · obtain rfl : ends = [] := hp
    exact hf a m'
  · exact hp
  · exact hp

theorem orElse {f : Fault → Noted α} (h : p.Silent) (hf : ∀ e, (f e).Silent) :
    (Noted.orElse p f).Silent := by
  intro m
  have hp := h m
  rw [Noted.orElse]
  rcases hout : p m with ⟨⟨a, m'⟩ | ⟨e, m'⟩ | m', ends⟩ <;> rw [hout] at hp
  · exact hp
  · obtain rfl : ends = [] := hp
    exact hf e m'
  · exact hp

theorem ends {Q : List Flow → α → Prop} {E : List Flow → Prop} (h : p.Silent)
    (hQ : ∀ a, Q [] a) (hE : E []) : p.Ends Q E where
  done m a _ _ := by
    rw [h m]
    exact hQ a
  failed m _ _ _ := by
    rw [h m]
    exact hE

end Silent

/-- Nothing is noted unless something is to be noted. -/
def silence : Correspondence Noted Noted where
  Rel _ p _ := p.Silent
  own _ := True
  anywhere h := h
  pure _ _ _ := rfl
  bind h hf := h.bind hf
  act _ _ := rfl
  withScope home hf := Silent.bind (p := quiet (Instr.newScope home).run) (fun _ => rfl)
    fun scope => hf scope trivial
  inScope _ h _ := h _
  asCall span h := Silent.bind (p := quiet (Instr.enter span).run) (fun _ => rfl) fun _ _ => h _
  orElse h hf := h.orElse hf

namespace Ends

variable {Q : List Flow → α → Prop} {S : List Flow → β → Prop} {E F : List Flow → Prop}
  {p : Noted α}

theorem mono {Q' : List Flow → α → Prop} {E' : List Flow → Prop} (h : p.Ends Q E)
    (hQ : ∀ ends a, Q ends a → Q' ends a) (hE : ∀ ends, E ends → E' ends) : p.Ends Q' E' where
  done m a m' hp := hQ _ a (h.done m a m' hp)
  failed m f m' hp := hE _ (h.failed m f m' hp)

theorem pure {a : α} (h : Q [] a) : (Pure.pure a : Noted α).Ends Q E where
  done _ _ _ hp := by
    cases hp
    exact h
  failed _ _ _ hp := by cases hp

theorem halt : (Interpreter.halt : Noted α).Ends Q E where
  done _ _ _ hp := by cases hp
  failed _ _ _ hp := by cases hp

theorem fail (cause : RuntimeCause) (span : Span) (h : E []) :
    (Interpreter.fail cause span : Noted α).Ends Q E where
  done _ _ _ hp := by cases hp
  failed _ _ _ _ := h

theorem note (p : Run Flow) : (Noted.note p).Ends (fun ends flow => ends = [flow]) (· = []) where
  done m flow m' hp := by
    rw [Noted.note] at hp ⊢
    cases hout : p m <;> rw [hout] at hp <;> cases hp
    rfl
  failed m f m' hp := by
    rw [Noted.note] at hp ⊢
    cases hout : p m with
    | done flow m'' =>
      rw [hout] at hp
      cases hp
    | failed | unfinished => rfl

theorem bind {f : α → Noted β} (h : p.Ends Q E)
    (hf : ∀ ends a, Q ends a →
      (f a).Ends (fun later b => S (ends ++ later) b) fun later => F (ends ++ later))
    (hE : ∀ ends, E ends → F ends) : (p >>= f).Ends S F where
  done m b m'' hout := by
    have hdone := h.done m
    rw [bind_apply] at hout ⊢
    rcases hp : p m with ⟨⟨a, m'⟩ | ⟨e, m'⟩ | m', ends⟩ <;> rw [hp] at hout hdone
    · exact (hf ends a (hdone a m' rfl)).done m' b m'' hout
    · cases hout
    · cases hout
  failed m e m'' hout := by
    have hdone := h.done m
    have hfailed := h.failed m
    rw [bind_apply] at hout ⊢
    rcases hp : p m with ⟨⟨a, m'⟩ | ⟨e, m'⟩ | m', ends⟩ <;> rw [hp] at hout hdone hfailed
    · exact (hf ends a (hdone a m' rfl)).failed m' e m'' hout
    · exact hE ends (hfailed e m' rfl)
    · cases hout

/-- Something of which nothing is noted comes first. -/
theorem silent_bind {f : α → Noted β} (h : p.Silent) (hf : ∀ a, (f a).Ends S F) (hF : F []) :
    (p >>= f).Ends S F := by
  refine (h.ends (Q := fun ends _ => ends = []) (E := (· = [])) (fun _ => rfl) rfl).bind ?_ ?_
  · rintro _ a rfl
    exact hf a
  · rintro _ rfl
    exact hF

theorem act_bind {i : Instr α} {f : α → Noted β} (hf : ∀ a, (f a).Ends S F) (hF : F []) :
    ((Interpreter.act i : Noted α) >>= f).Ends S F :=
  .silent_bind (fun _ => rfl) hf hF

theorem orElse {f : Fault → Noted α} (h : p.Ends Q E)
    (hf : ∀ ends e, E ends →
      (f e).Ends (fun later a => Q (ends ++ later) a) fun later => F (ends ++ later)) :
    (Noted.orElse p f).Ends Q F where
  done m a m'' hout := by
    have hdone := h.done m
    have hfailed := h.failed m
    rw [Noted.orElse] at hout ⊢
    rcases hp : p m with ⟨⟨b, m'⟩ | ⟨e, m'⟩ | m', ends⟩ <;> rw [hp] at hout hdone hfailed
    · exact hdone a m'' hout
    · exact (hf ends e (hfailed e m' rfl)).done m' a m'' hout
    · cases hout
  failed m e m'' hout := by
    have hfailed := h.failed m
    rw [Noted.orElse] at hout ⊢
    rcases hp : p m with ⟨⟨b, m'⟩ | ⟨e, m'⟩ | m', ends⟩ <;> rw [hp] at hout hfailed
    · cases hout
    · exact (hf ends e (hfailed e m' rfl)).failed m' _ m'' hout
    · cases hout

theorem inScope (scope : Nat) (h : p.Ends Q E) : (Noted.inScope scope p).Ends Q E where
  done m a m' hout := by
    rw [Noted.inScope] at hout ⊢
    cases hp : (p { m with scope }).1 <;> simp only [hp] at hout <;> cases hout
    exact h.done { m with scope } _ _ hp
  failed m e m' hout := by
    rw [Noted.inScope] at hout ⊢
    cases hp : (p { m with scope }).1 <;> simp only [hp] at hout <;> cases hout
    exact h.failed { m with scope } _ _ hp

theorem deeper (h : p.Ends Q E) : (Noted.deeper p).Ends Q E where
  done m a m' hout := by
    rw [Noted.deeper] at hout ⊢
    cases hp : (p { m with depth := m.depth + 1 }).1 <;> simp only [hp] at hout <;> cases hout
    exact h.done { m with depth := m.depth + 1 } _ _ hp
  failed m e m' hout := by
    rw [Noted.deeper] at hout ⊢
    cases hp : (p { m with depth := m.depth + 1 }).1 <;> simp only [hp] at hout <;> cases hout
    exact h.failed { m with depth := m.depth + 1 } _ _ hp

end Ends

end Noted
end Vibe
