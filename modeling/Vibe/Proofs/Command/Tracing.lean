import Vibe.Command
import Vibe.Proofs.Machine.Lasting
import Vibe.Proofs.Machine.Moving
import Vibe.Proofs.Text.Lines

/-! Shells that are followed by a machine of the same trees, with their places on the lines of input
that they were read from. So it is known of each place in a shell which line it was read from. -/

namespace Vibe

/-- The same place on another line. -/
def Span.onLine (line : Nat) (s : Span) : Span :=
  { s with line }

namespace Program

variable {source : String} {p : Program}

/-- All places in a program that a line forms are on the first line. -/
theorem onLine_one (h : parseAll source = .ok p) (hline : '\n' ∉ source.toList) :
    p.moved (Span.onLine 1) = p := by
  refine (Stmt.movedEach_eq_self p).2 fun s hs => ?_
  obtain ⟨hfirst, -⟩ := exists_token_above h hline hs
  cases s
  simp_all [Span.onLine]

end Program

namespace Machine

/-- The machine of a shell that takes the next line of input. -/
def taken (m : Machine) : Machine :=
  { m with console := { m.console with answers := m.console.answers.tail } }

/-- What happened on the console has been written down. -/
def quiet (m : Machine) : Machine :=
  { m with console := { m.console with events := #[] } }

end Machine

namespace Shell

/-- The lines that are no programs. -/
def commands : List String :=
  ["", "exit", "quit", "help", "vars", "clear"]

end Shell

/-- What a line of input makes of the machine of a shell. The program that is read from it is put on
a line of its own. -/
def Machine.afterLine (k : Nat) (text : String) (m : Machine) : Machine :=
  if text = "clear" then m.restart
  else if text ∈ Shell.commands then m
  else match Program.parseAll text with
    | .error _ => m
    | .ok p => (run (p.moved (Span.onLine k)) m).machine.quiet

/-- A text without the white space around it. -/
def Text.trimmed (line : String) : String :=
  String.ofList (trim line.toList)

namespace Shell

/-- The shell at the beginning of its session on a text. -/
def opened (input : String) (dice : Dice) (clock : Clock) : Shell :=
  let lines := (Text.pieces input.toList).map fun p => String.ofList (Text.withoutEndings p)
  { machine := Machine.start { unhurried := clock } { answers := lines } dice : Shell }.say greeting

/-- A shell after some lines of input, followed by the machine that holds the same trees with their
places on the lines that they were read from. -/
inductive Traced (input : String) (dice : Dice) (clock : Clock) :
    List String → Shell → Machine → Prop
  | opened : Traced input dice clock [] (opened input dice clock) (opened input dice clock).machine
  | line {lines : List String} {sh sh' : Shell} {m : Machine} {line : String}
      (h : Traced input dice clock lines sh m) (hline : sh.nextLine = some (line, sh'))
      (hgoes : (sh'.step line).2 = true) :
      Traced input dice clock (lines ++ [Text.trimmed line]) (sh'.step line).1
        (m.taken.afterLine lines.length (Text.trimmed line))

/-- A place that stands in a program read from one of the lines: its line is the number of that
line. -/
def ReadFrom (lines : List String) (s : Span) : Prop :=
  ∃ source p, lines[s.line]? = some source ∧ '\n' ∉ source.toList ∧
    Program.parseAll source = .ok p ∧ s.onLine 1 ∈ p.spans

/-- The shell and the machine that follows it differ in the lines of places only, and the lines of
the machine's places are true. -/
structure Follows (lines : List String) (sh : Shell) (m : Machine) : Prop where
  machine : sh.machine = m.moved (Span.onLine 1)
  places : ∀ s ∈ m.store.spans, ReadFrom lines s
  answers : ∀ line ∈ sh.machine.console.answers, '\n' ∉ line.toList

variable {input : String} {dice : Dice} {clock : Clock} {lines : List String} {sh sh' : Shell}
  {m : Machine} {line text : String} {p : Program} {s : Span}

theorem ReadFrom.append (h : ReadFrom lines s) (text : String) : ReadFrom (lines ++ [text]) s := by
  obtain ⟨source, p, hsource, hread⟩ := h
  obtain ⟨hlt, -⟩ := List.getElem?_eq_some_iff.1 hsource
  exact ⟨source, p, by rw [List.getElem?_append_left hlt, hsource], hread⟩

/-- The places of a program that is put on the next line. -/
theorem readFrom_of_parseAll (h : Program.parseAll text = .ok p) (hline : '\n' ∉ text.toList)
    (hs : s ∈ Program.spans (p.moved (Span.onLine lines.length))) :
    ReadFrom (lines ++ [text]) s := by
  rw [Program.spans, Program.moved, Stmt.spansEach_moved] at hs
  obtain ⟨first, hfirst, rfl⟩ := List.mem_map.1 hs
  obtain ⟨hone, -⟩ := Program.exists_token_above h hline hfirst
  have hback : (first.onLine lines.length).onLine 1 = first := by
    cases first
    simp_all [Span.onLine]
  exact ⟨text, p, by simp [Span.onLine], hline, h, hback ▸ hfirst⟩

theorem moved_of_spans_nil (move : Span → Span) (h : m.store.spans = []) : m.moved move = m := by
  rw [Machine.moved_eq_self, h]
  exact fun _ h => (List.not_mem_nil h).elim

/-- The machine that follows comes to be like the one of the shell, whatever the line is. -/
theorem moved_afterLine (k : Nat) (text : String) (m : Machine) :
    (m.afterLine k text).moved (Span.onLine 1) =
      (m.moved (Span.onLine 1)).afterLine 1 text := by
  unfold Machine.afterLine
  split
  · exact moved_of_spans_nil _ m.spans_restart
  split
  · rfl
  cases Program.parseAll text with
  | error es => rfl
  | ok p =>
    have hmoved : Program.moved (Span.onLine 1) (p.moved (Span.onLine k)) =
        p.moved (Span.onLine 1) := Stmt.movedEach_moved p
    have hrun := Machine.run_moved (Span.onLine 1) (p.moved (Span.onLine k)) m
    rw [hmoved] at hrun
    simp only
    rw [hrun, Outcome.machine_moved]
    rfl

/-- A line that is a program is run, and what happened on the console is written down. -/
theorem machine_runLine (text : String) (sh : Shell) : (sh.runLine text).machine =
    match Program.parseAll text with
    | .error _ => sh.machine
    | .ok p => (Machine.run p sh.machine).machine.quiet := by
  unfold runLine
  cases Program.parseAll text with
  | error es => rfl
  | ok p =>
    simp only
    cases Machine.run p sh.machine <;> rfl

theorem machine_runLine_onLine (hline : '\n' ∉ text.toList) : (sh.runLine text).machine =
    match Program.parseAll text with
    | .error _ => sh.machine
    | .ok p => (Machine.run (p.moved (Span.onLine 1)) sh.machine).machine.quiet := by
  rw [machine_runLine]
  cases hparse : Program.parseAll text with
  | error es => rfl
  | ok p => simp only [Program.onLine_one hparse hline]

theorem newline_not_mem_trimmed (h : '\n' ∉ line.toList) :
    '\n' ∉ (Text.trimmed line).toList := by
  rw [Text.trimmed, String.toList_ofList]
  exact fun hmem => h (Text.mem_of_mem_trim hmem)

@[simp] theorem machine_say (texts : List String) : (sh.say texts).machine = sh.machine :=
  rfl

/-- What a line does, told from its text without the white space around it. -/
theorem step_eq (line : String) (sh : Shell) : sh.step line =
    match Text.trimmed line with
    | "" => (sh, true)
    | "exit" | "quit" => (sh, false)
    | "help" => (sh.say help, true)
    | "clear" => (sh.clear.say ["State cleared."], true)
    | "vars" => (sh.say (listing sh.machine), true)
    | text => (sh.runLine text, true) :=
  rfl

theorem ne_clear_of_not_mem (h : text ∉ commands) : text ≠ "clear" := by
  rintro rfl
  exact h (by simp [commands])

/-- Lines that are no commands are run as programs. -/
theorem step_of_not_mem (h : Text.trimmed line ∉ commands) :
    sh.step line = (sh.runLine (Text.trimmed line), true) := by
  simp only [commands, List.mem_cons, List.not_mem_nil, or_false, not_or] at h
  rw [step_eq]
  split <;> simp_all

theorem machine_step_of_mem (h : Text.trimmed line ∈ commands) : (sh.step line).1.machine =
    if Text.trimmed line = "clear" then sh.machine.restart else sh.machine := by
  simp only [commands, List.mem_cons, List.not_mem_nil, or_false] at h
  rw [step_eq]
  rcases h with h | h | h | h | h | h <;> simp [h, clear]

/-- The shell does to its machine what a line makes of it, with the places where they are read. -/
theorem machine_step (sh : Shell) (h : '\n' ∉ line.toList) :
    (sh.step line).1.machine = sh.machine.afterLine 1 (Text.trimmed line) := by
  unfold Machine.afterLine
  by_cases hcommand : Text.trimmed line ∈ commands
  · rw [machine_step_of_mem hcommand, if_pos hcommand]
  · rw [step_of_not_mem hcommand, if_neg (ne_clear_of_not_mem hcommand), if_neg hcommand]
    exact machine_runLine_onLine (newline_not_mem_trimmed h)

/-- The shell when it has taken the next line of input. -/
def taken (sh : Shell) : Shell :=
  { sh with machine := sh.machine.taken }

theorem nextLine_eq_some : sh.nextLine = some (line, sh') ↔
    sh.machine.console.answers = line :: sh'.machine.console.answers ∧ sh' = sh.taken := by
  simp only [nextLine, taken, Machine.taken]
  cases sh.machine.console.answers with
  | nil => simp
  | cons first rest =>
    simp only [Option.some.injEq, Prod.mk.injEq, List.tail_cons, List.cons.injEq]
    constructor
    · rintro ⟨rfl, rfl⟩
      exact ⟨⟨rfl, rfl⟩, rfl⟩
    · rintro ⟨⟨rfl, -⟩, rfl⟩
      exact ⟨rfl, rfl⟩

/-- What a line makes of the machine that follows has only places on the lines so far. -/
theorem readFrom_afterLine (hline : '\n' ∉ text.toList)
    (h : ∀ s ∈ m.store.spans, ReadFrom lines s) :
    ∀ s ∈ (m.afterLine lines.length text).store.spans, ReadFrom (lines ++ [text]) s := by
  have hearlier : ∀ s ∈ m.store.spans, ReadFrom (lines ++ [text]) s :=
    fun s hs => (h s hs).append text
  unfold Machine.afterLine
  split
  · rw [m.spans_restart]
    exact fun _ hs => (List.not_mem_nil hs).elim
  split
  · exact hearlier
  cases hparse : Program.parseAll text with
  | error es => exact hearlier
  | ok p =>
    have hprogram : ∀ s ∈ Program.spans (p.moved (Span.onLine lines.length)),
        ReadFrom (lines ++ [text]) s := fun s hs => readFrom_of_parseAll hparse hline hs
    exact (Machine.run_places hprogram hearlier).2

theorem answers_afterLine (k : Nat) (text : String) (m : Machine) :
    (m.afterLine k text).console.answers <:+ m.console.answers := by
  unfold Machine.afterLine
  split
  · exact List.suffix_rfl
  split
  · exact List.suffix_rfl
  cases Program.parseAll text with
  | error es => exact List.suffix_rfl
  | ok p => exact Machine.answers_run _ m

theorem Follows.machine_taken (h : Follows lines sh m) :
    sh.taken.machine = m.taken.moved (Span.onLine 1) := by
  change sh.machine.taken = _
  rw [h.machine]
  rfl

/-- The machine that follows is like the one of the shell, and knows where its trees were read. -/
theorem Traced.follows (h : Traced input dice clock lines sh m) :
    Follows lines sh m := by
  induction h with
  | opened =>
    refine ⟨(moved_of_spans_nil _ (Machine.spans_start _ _ _)).symm, fun s hs => ?_,
      fun line hline => ?_⟩
    · rw [Shell.opened, machine_say, Machine.spans_start] at hs
      exact (List.not_mem_nil hs).elim
    · obtain ⟨piece, hpiece, rfl⟩ := List.mem_map.1 hline
      rw [String.toList_ofList]
      exact Text.not_mem_withoutEndings hpiece
  | @line lines sh sh' m line _ hnext hgoes ih =>
    obtain ⟨hanswers, rfl⟩ := nextLine_eq_some.1 hnext
    have hline : '\n' ∉ line.toList :=
      ih.answers line (by rw [hanswers]; exact List.mem_cons_self)
    have hstep := machine_step sh.taken hline
    refine ⟨?_, ?_, ?_⟩
    · rw [hstep, ih.machine_taken, moved_afterLine]
    · exact readFrom_afterLine (newline_not_mem_trimmed hline) ih.places
    · intro next hmem
      rw [hstep] at hmem
      have hrest := (answers_afterLine 1 (Text.trimmed line) sh.taken.machine).subset hmem
      exact ih.answers next (by rw [hanswers]; exact List.mem_cons_of_mem _ hrest)

/-- The loop of the shell goes from one traced shell to the next, up to the end or to a line that
ends it. -/
theorem Traced.loop (h : Traced input dice clock lines sh m) (n : Nat) :
    ∃ lines' sh' m', Traced input dice clock lines' sh' m' ∧ (sh.loop n = sh' ∨
      ∃ line sh'', sh'.nextLine = some (line, sh'') ∧ sh.loop n = (sh''.step line).1) := by
  induction n generalizing lines sh m with
  | zero => exact ⟨lines, sh, m, h, .inl rfl⟩
  | succ n ih =>
    rw [Shell.loop]
    cases hnext : sh.nextLine with
    | none => exact ⟨lines, sh, m, h, .inl rfl⟩
    | some taken =>
      obtain ⟨line, sh'⟩ := taken
      simp only
      cases hstep : sh'.step line with
      | mk sh'' goes =>
        cases goes with
        | true =>
          have hgoes : (sh'.step line).2 = true := by rw [hstep]
          have htraced := h.line hnext hgoes
          rw [hstep] at htraced
          exact ih htraced
        | false => exact ⟨lines, sh, m, h, .inr ⟨line, sh', hnext, by rw [hstep]⟩⟩

/-- A session on a text is the loop of a shell that is opened on it. -/
theorem run_repl (content : String → Option ByteArray) (input : String) (dice : Dice)
    (clock : Clock) : ∃ n, Command.run ["repl"] content input dice clock =
      ⟨(((opened input dice clock).loop n).say ["Goodbye!"]).transcript, 0⟩ :=
  ⟨_, rfl⟩

end Shell

end Vibe
