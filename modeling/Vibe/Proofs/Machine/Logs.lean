import Vibe.Proofs.Machine.Lasting
import Vibe.Proofs.Machine.Operations

/-! What is printed and asked. Each line goes into the output of the run and to the console, and
each prompt takes the next answer, however the run ends and whatever is run after it. -/

namespace Vibe

/-- As many answers of a script have been taken as prompts have been put. -/
def Console.Follows (script : List String) (c : Console) : Prop :=
  c.answers = script.drop c.prompts.length

/-- The answer to the next prompt is the next one of the script, or empty if there is none. -/
theorem Console.Follows.answer {script : List String} {c : Console} (h : c.Follows script)
    (prompt : String) : (c.ask prompt).1 = script[c.prompts.length]? := by
  simp [ask, show c.answers = _ from h]

/-- The line that an instruction prints. -/
def Instr.line? {α : Type} : Instr α → Option String
  | print line => some line
  | _ => none

/-- The prompt that an instruction puts, and the answer that comes of it. -/
def Instr.exchange? {α : Type} : Instr α → Outcome α → Option (String × String)
  | ask prompt, .done answer _ => some (prompt, answer)
  | _, _ => none

/-- The lines that are printed in a part of a run. -/
def linesOf (seen : List Moment) : List String :=
  seen.filterMap fun mo => mo.next.2.line?

/-- The prompts that are put in a part of a run, each with its answer. -/
def exchangesOf (seen : List Moment) : List (String × String) :=
  seen.filterMap fun mo => mo.next.2.exchange? mo.outcome

@[simp] theorem linesOf_append (seen later : List Moment) :
    linesOf (seen ++ later) = linesOf seen ++ linesOf later :=
  List.filterMap_append

@[simp] theorem exchangesOf_append (seen later : List Moment) :
    exchangesOf (seen ++ later) = exchangesOf seen ++ exchangesOf later :=
  List.filterMap_append

/-- Between two states of a console the lines that are seen were printed on it, and the prompts that
are seen were put to it, each for the next answer. -/
structure Console.Logged (c c' : Console) (seen : List Moment) : Prop where
  printed : c'.printed = c.printed ++ linesOf seen
  prompts : c'.prompts = c.prompts ++ (exchangesOf seen).map Prod.fst
  answers : c'.answers = c.answers.drop (exchangesOf seen).length
  given : ∀ (k : Nat) (x : String × String), (exchangesOf seen)[k]? = some x →
    x.2 = c.answers[k]?.getD ""

namespace Console.Logged

variable {c c' c'' : Console} {seen later : List Moment} {script : List String}

/-- Nothing is printed or asked. -/
theorem quiet (hlines : linesOf seen = []) (hexchanges : exchangesOf seen = []) :
    c.Logged c seen := by
  constructor <;> simp [hlines, hexchanges]

theorem trans (h : c.Logged c' seen) (h' : c'.Logged c'' later) :
    c.Logged c'' (seen ++ later) where
  printed := by rw [h'.printed, h.printed, linesOf_append, List.append_assoc]
  prompts := by
    rw [h'.prompts, h.prompts, exchangesOf_append, List.map_append, List.append_assoc]
  answers := by
    rw [h'.answers, h.answers, exchangesOf_append, List.length_append, List.drop_drop]
  given k x hk := by
    rw [exchangesOf_append] at hk
    by_cases hlt : k < (exchangesOf seen).length
    · rw [List.getElem?_append_left hlt] at hk
      exact h.given k x hk
    · have hle : (exchangesOf seen).length ≤ k := Nat.le_of_not_lt hlt
      rw [List.getElem?_append_right hle] at hk
      rw [h'.given _ x hk, h.answers, List.getElem?_drop, Nat.add_sub_cancel' hle]

theorem follows (h : c.Logged c' seen) (hc : c.Follows script) : c'.Follows script := by
  have hlength : c'.prompts.length = c.prompts.length + (exchangesOf seen).length := by
    rw [h.prompts, List.length_append, List.length_map]
  rw [Follows, h.answers, show c.answers = _ from hc, List.drop_drop, hlength]

end Console.Logged

/-- What is printed goes into the output of the run and to the console, line by line. -/
structure Machine.Logged (m m' : Machine) (seen : List Moment) : Prop where
  output : m'.output.toList = m.output.toList ++ linesOf seen
  console : m.console.Logged m'.console seen

/-- If the answers are those that a script has left, they are so at every moment and afterwards. -/
structure Machine.Scripted (script : List String) (m m' : Machine) (seen : List Moment) :
    Prop where
  after : m.console.Follows script → m'.console.Follows script
  amid : m.console.Follows script → ∀ mo ∈ seen, mo.machine.console.Follows script

theorem Instr.logged_run {α : Type} (i : Instr α) (calls : List Span) (m : Machine) :
    m.Logged (i.run m).machine [⟨calls, m, ⟨α, i⟩⟩] := by
  rw [machine_run]
  cases i with
  | print line =>
    have hlines : linesOf [⟨calls, m, ⟨Unit, print line⟩⟩] = [line] := rfl
    have hexchanges : exchangesOf [⟨calls, m, ⟨Unit, print line⟩⟩] = [] := rfl
    refine ⟨by simp [hlines, after], ?_⟩
    constructor <;> simp [hlines, hexchanges, after]
  | ask prompt =>
    have hlines : linesOf [⟨calls, m, ⟨String, ask prompt⟩⟩] = [] := rfl
    have hexchanges : exchangesOf [⟨calls, m, ⟨String, ask prompt⟩⟩] =
        [(prompt, (m.console.ask prompt).1.getD "")] := rfl
    refine ⟨by simp [hlines, after], ?_, ?_, ?_, fun k x hk => ?_⟩
    · simp [hlines, after]
    · simp [hexchanges, after]
    · simp [hexchanges, after]
    · -- There is one exchange, and its answer is the first that was left.
      rw [hexchanges] at hk
      obtain ⟨hlt, rfl⟩ := List.getElem?_eq_some_iff.1 hk
      obtain rfl : k = 0 := Nat.lt_one_iff.1 hlt
      simp [List.head?_eq_getElem?]
  | tick span =>
    simp only [after]
    split <;> exact ⟨(List.append_nil _).symm, .quiet rfl rfl⟩
  | _ => exact ⟨(List.append_nil _).symm, .quiet rfl rfl⟩

namespace Machine

variable {m m' : Machine} {seen : List Moment} {script : List String}

/-- Lines and prompts are logged in every part of a run. -/
theorem recorded_logged : Recorded Logged where
  refl m := ⟨(List.append_nil _).symm, .quiet rfl rfl⟩
  trans h h' := by
    refine ⟨?_, h.console.trans h'.console⟩
    rw [h'.output, h.output, linesOf_append, List.append_assoc]
  instr := Instr.logged_run
  scope h := ⟨h.output, h.console⟩
  depth h := ⟨h.output, h.console⟩

theorem logged_run (p : Program) (m : Machine) :
    m.reset.Logged (run p m).machine (watch p m).2 := by
  rw [← watch_fst]
  exact recorded_logged.watch p m

/-- The answers of a script are taken in its order. -/
theorem recorded_scripted (script : List String) : Recorded (Scripted script) where
  refl _ := ⟨id, fun _ _ hmo => (List.not_mem_nil hmo).elim⟩
  trans h h' := by
    refine ⟨fun hm => h'.after (h.after hm), fun hm => ?_⟩
    exact List.forall_mem_append.2 ⟨h.amid hm, h'.amid (h.after hm)⟩
  instr i calls m := by
    refine ⟨(i.logged_run calls m).console.follows, fun hm mo hmo => ?_⟩
    obtain rfl := List.mem_singleton.1 hmo
    exact hm
  scope h := ⟨h.after, h.amid⟩
  depth h := ⟨h.after, h.amid⟩

theorem scripted_run (script : List String) (p : Program) (m : Machine) :
    m.reset.Scripted script (run p m).machine (watch p m).2 := by
  rw [← watch_fst]
  exact (recorded_scripted script).watch p m

theorem console_interpret (p : Program) (m : Machine) :
    (m.interpret p).2.console = (run p m).machine.console := by
  rw [machine_interpret]

/-- The lines that are taken away are those that were printed, and behind them the failure if there
is one. -/
theorem lines_interpret (p : Program) (m : Machine) : (m.interpret p).1 =
    (run p m).machine.output.toList ++ ((run p m).fault?.map (·.toError.render)).toList := by
  rw [interpret]
  cases run p m <;> simp [Outcome.fault?, Outcome.machine]

/-- An answer is asked for with the printed form of a value. -/
theorem eval_ask {n : Nat} {e : Expr} {span : Span} {v : Value}
    (h : (Interpreter.eval (n + 1) (.ask e span) : Run Value) m = .done v m') :
    ∃ w m₁, (do Interpreter.tick span; Interpreter.eval n e : Run Value) m = .done w m₁ ∧
      m'.console = (m₁.console.ask (m₁.store.print w)).2 ∧
      v = .string ((m₁.console.ask (m₁.store.print w)).1.getD "") := by
  have hsplit : (Interpreter.eval (n + 1) (.ask e span) : Run Value) =
      (do Interpreter.tick span; Interpreter.eval n e : Run Value) >>= fun w => do
        let answer ← Interpreter.act (.ask (← Interpreter.act (.text w)))
        return .string answer := by
    rw [bind_assoc]
    rfl
  rw [hsplit, Run.bind_apply] at h
  cases hprompt : (do Interpreter.tick span; Interpreter.eval n e : Run Value) m with
  | done w m₁ =>
    rw [hprompt] at h
    cases h
    exact ⟨w, m₁, rfl, rfl, rfl⟩
  | failed | unfinished =>
    rw [hprompt] at h
    cases h

/-- What follows a script goes on following it. -/
theorem lasting_follows (script : List String) :
    Lasting fun m m' => m.console.Follows script → m'.console.Follows script where
  refl _ := id
  trans h h' hm := h' (h hm)
  instr i m := (i.logged_run [] m).console.follows
  scope h := h
  depth h := h

/-- Runs one after the other on one machine, with what is seen in them. The lines of a run may be
taken away when it has ended. -/
inductive Plays (m : Machine) : List Moment → Machine → Prop where
  | start : m.Plays [] m
  | run {seen : List Moment} {m' : Machine} (p : Program) :
    m.Plays seen m' → m.Plays (seen ++ (watch p m').2) (Machine.run p m').machine
  | interpret {seen : List Moment} {m' : Machine} (p : Program) :
    m.Plays seen m' → m.Plays (seen ++ (watch p m').2) (m'.interpret p).2

/-- Whatever runs are played, the console has the log of them all. -/
theorem Plays.logged (h : m.Plays seen m') : m.console.Logged m'.console seen := by
  induction h with
  | start => exact .quiet rfl rfl
  | run p _ ih => exact ih.trans (logged_run p _).console
  | interpret p _ ih =>
    rw [console_interpret]
    exact ih.trans (logged_run p _).console

theorem Plays.scripted (script : List String) (h : m.Plays seen m') :
    m.Scripted script m' seen := by
  have hrun : ∀ p (m' m'' : Machine), m''.console = (Machine.run p m').machine.console →
      m'.Scripted script m'' (watch p m').2 := by
    intro p m' m'' hconsole
    have hscripted := scripted_run script p m'
    refine ⟨fun hm => ?_, hscripted.amid⟩
    rw [hconsole]
    exact hscripted.after hm
  induction h with
  | start => exact (recorded_scripted script).refl m
  | run p _ ih => exact (recorded_scripted script).trans ih (hrun p _ _ rfl)
  | interpret p _ ih =>
    exact (recorded_scripted script).trans ih (hrun p _ _ (console_interpret p _))

/-- Where the script has been followed, an `ask` that comes to a value has put one more prompt, and
the value is the answer that the script has in its place. -/
theorem eval_ask_of_follows {n : Nat} {e : Expr} {span : Span} {v : Value}
    (hm : m.console.Follows script)
    (h : (Interpreter.eval (n + 1) (.ask e span) : Run Value) m = .done v m') :
    ∃ w m₁, (do Interpreter.tick span; Interpreter.eval n e : Run Value) m = .done w m₁ ∧
      m'.console.prompts = m₁.console.prompts ++ [m₁.store.print w] ∧
      v = .string (script[m₁.console.prompts.length]?.getD "") := by
  obtain ⟨w, m₁, hprompt, hconsole, rfl⟩ := eval_ask h
  have hfollows : m₁.console.Follows script := by
    have hlasting := lasting_follows script
    have hafter := hlasting.bind (hlasting.instr (.tick span))
      (fun _ => (hlasting.correspondence.eval_exec n).1 e) m hm
    change Console.Follows script
      ((Interpreter.tick span >>= fun _ => Interpreter.eval n e : Run Value) m).machine.console
      at hafter
    rwa [hprompt] at hafter
  refine ⟨w, m₁, hprompt, ?_, ?_⟩
  · rw [hconsole, Console.prompts_ask]
  · rw [hfollows.answer]

/-- Lines and prompts are logged faithfully in all runs on one machine. The lines that a run prints
are its output and reach the console in the same order, also if it fails; the failure is one more
line for whoever takes the output away, and does not reach the console. The prompts of all runs are
logged in their order, each with the answer of the script in its place, and an `ask` comes to this
answer. -/
theorem logs_faithful {limits : Limits} {dice : Dice}
    (h : (start limits { answers := script } dice).Plays seen m) (p : Program) :
    (watch p m).1 = run p m ∧
    (run p m).machine.output.toList = linesOf (watch p m).2 ∧
    (run p m).machine.console.printed =
      m.console.printed ++ (run p m).machine.output.toList ∧
    (m.interpret p).1 = (run p m).machine.output.toList ++
      ((run p m).fault?.map (·.toError.render)).toList ∧
    (m.interpret p).2.console = (run p m).machine.console ∧
    (run p m).machine.console.prompts =
      (exchangesOf (seen ++ (watch p m).2)).map Prod.fst ∧
    (∀ (k : Nat) (prompt answer : String),
      (exchangesOf (seen ++ (watch p m).2))[k]? = some (prompt, answer) →
        answer = script[k]?.getD "") ∧
    ∀ mo ∈ seen ++ (watch p m).2, ∀ (n : Nat) (e : Expr) (span : Span) (v : Value) (m' : Machine),
      (Interpreter.eval (n + 1) (.ask e span) : Run Value) mo.machine = .done v m' →
        ∃ w m₁, (do Interpreter.tick span; Interpreter.eval n e : Run Value) mo.machine =
            .done w m₁ ∧
          m'.console.prompts = m₁.console.prompts ++ [m₁.store.print w] ∧
          v = .string (script[m₁.console.prompts.length]?.getD "") := by
  have hrun := logged_run p m
  have hoverall := h.logged.trans hrun.console
  have hscripted := (h.run p).scripted script
  have houtput : (run p m).machine.output.toList = linesOf (watch p m).2 := hrun.output
  have hstart : (start limits { answers := script } dice).console.Follows script := rfl
  refine ⟨watch_fst p m, houtput, ?_, lines_interpret p m, console_interpret p m, ?_, ?_, ?_⟩
  · rw [houtput]
    exact hrun.console.printed
  · exact hoverall.prompts
  · exact fun k prompt answer => hoverall.given k (prompt, answer)
  · intro mo hmo n e span v m'
    exact eval_ask_of_follows (hscripted.amid hstart mo hmo)

/-- `say ask "a"` and then `say b`. -/
def asking : Program :=
  [.say (.ask (.literal (.string "a") .nowhere) .nowhere) .nowhere,
    .say (.ident "b" .nowhere) .nowhere]

/-- The machine after one run of it, with one answer given in advance. -/
def asked : Machine :=
  ((start {} { answers := ["c"] } 0).interpret asking).2

/-- The second run has no answer left, and both fail. -/
theorem logs_faithful_asking : ∃ seen, (start {} { answers := ["c"] } 0).Plays seen asked ∧
    (run asking asked).machine.console.printed = ["c", ""] ∧
    (asked.interpret asking).1 =
      ["", (Fault.mk (.undefinedVariable "b") .nowhere).toError.render] ∧
    exchangesOf (seen ++ (watch asking asked).2) = [("a", "c"), ("a", "")] ∧
    (run asking asked).machine.console.prompts = ["a", "a"] := by
  let seen := [] ++ (watch asking (start {} { answers := ["c"] } 0)).2
  have hplays : (start {} { answers := ["c"] } 0).Plays seen asked := Plays.start.interpret asking
  have hbefore : asked.console.printed = ["c"] := by decide +kernel
  have hsaid : linesOf (watch asking asked).2 = [""] := by decide +kernel
  have hfault : (run asking asked).fault? = some ⟨.undefinedVariable "b", .nowhere⟩ := by
    decide +kernel
  have hexchanges : exchangesOf (seen ++ (watch asking asked).2) = [("a", "c"), ("a", "")] := by
    decide +kernel
  obtain ⟨-, houtput, hprinted, hlines, -, hprompts, -, -⟩ := logs_faithful hplays asking
  rw [hsaid] at houtput
  rw [houtput, hbefore] at hprinted
  rw [houtput, hfault] at hlines
  rw [hexchanges] at hprompts
  exact ⟨seen, hplays, hprinted, hlines, hexchanges, hprompts⟩

end Machine

end Vibe
