import Vibe.Proofs.Command.Tracing
import Vibe.Proofs.Machine.Operations

/-! The excerpts under the failures of a shell. -/

namespace Vibe

namespace Shell

variable {lines : List String} {sh sh' : Shell} {m : Machine} {line : String} {p : Program}

/-- What is printed for a failure with a line as its excerpt: the line, and under it a caret at the
column of the failure. -/
def report (f : Fault) (line : String) : String :=
  Error.render { f.toError with sourceLine := some line } ++ "\n"

/-- What happens on the console is not written on the stream for errors. -/
theorem err_events (c : Console) (t : Transcript) : (t.events c).err = t.err := by
  have hfold : ∀ (write : Transcript → ConsoleEvent → Transcript) (es : List ConsoleEvent)
      (t : Transcript), (∀ t e, (write t e).err = t.err) → (es.foldl write t).err = t.err := by
    intro write es t hwrite
    induction es generalizing t with
    | nil => rfl
    | cons e es ih => rw [List.foldl_cons, ih, hwrite]
  rw [Transcript.events, ← Array.foldl_toList]
  refine hfold _ _ t fun t e => ?_
  cases e <;> rfl

theorem err_step_of_failed {f : Fault} {m' : Machine} (hprogram : Text.trimmed line ∉ commands)
    (hline : '\n' ∉ line.toList) (hparse : Program.parseAll (Text.trimmed line) = .ok p)
    (hfailed : Machine.run p sh.machine = .failed f m') (hfirst : f.span.line = 1) :
    (sh.step line).1.transcript.err = sh.transcript.err ++ report f (Text.trimmed line) := by
  have hne : Text.trimmed line ≠ "" := by
    intro heq
    exact hprogram (by simp [heq, commands])
  have hexcerpt : f.toError.withSource (Text.trimmed line) =
      { f.toError with sourceLine := some (Text.trimmed line) } := by
    simp [Error.withSource, Fault.toError, hfirst,
      Text.line?_one (newline_not_mem_trimmed hline) hne]
  rw [step_of_not_mem hprogram]
  simp [runLine, hparse, hfailed, Transcript.errors, Transcript.errorLine, flush, err_events,
    hexcerpt, report, String.append_assoc]

/-- Every failure of a line comes from a node that was read from this line or an earlier one. The
excerpt under it is this line in any case, so the caret stands under the token of the node if the
node was read from this line. -/
theorem excerpt_of_failed {input : String} {dice : Dice} {clock : Clock} {f : Fault} {m' : Machine}
    (h : Traced input dice clock lines sh m) (hnext : sh.nextLine = some (line, sh'))
    (hprogram : Text.trimmed line ∉ commands)
    (hparse : Program.parseAll (Text.trimmed line) = .ok p)
    (hfailed : Machine.run p sh'.machine = .failed f m') :
    sh'.machine = m.taken.moved (Span.onLine 1) ∧
    ∃ k source m'', Machine.run (p.moved (Span.onLine lines.length)) m.taken =
        .failed ⟨f.cause, f.span.onLine k⟩ m'' ∧
      (lines ++ [Text.trimmed line])[k]? = some source ∧
      (∃ q, Program.parseAll source = .ok q ∧ f.span ∈ q.spans) ∧
      (∃ tokens, Token.scan source = .ok tokens ∧
        ∃ t ∈ tokens, t.span = f.span ∧ t.Above source f.span.column) ∧
      (sh'.step line).1.transcript.err = sh'.transcript.err ++ report f (Text.trimmed line) ∧
      (k = lines.length → source = Text.trimmed line) := by
  have hfollows := h.follows
  obtain ⟨hanswers, rfl⟩ := nextLine_eq_some.1 hnext
  have hline : '\n' ∉ line.toList :=
    hfollows.answers line (by rw [hanswers]; exact List.mem_cons_self)
  have htrimmed := newline_not_mem_trimmed hline
  -- The machine that follows fails too, at a place that says where the node was read.
  have hback : Program.moved (Span.onLine 1) (p.moved (Span.onLine lines.length)) = p :=
    (Stmt.movedEach_moved p).trans (Program.onLine_one hparse htrimmed)
  have hsame := Machine.run_moved (Span.onLine 1) (p.moved (Span.onLine lines.length)) m.taken
  rw [hback, ← hfollows.machine_taken, hfailed] at hsame
  have hplaces := (Machine.run_places (P := ReadFrom (lines ++ [Text.trimmed line]))
    (fun s hs => readFrom_of_parseAll hparse htrimmed hs)
    (m := m.taken) (fun s hs => (hfollows.places s hs).append _)).1
  cases hrun : Machine.run (p.moved (Span.onLine lines.length)) m.taken with
  | done a m'' | unfinished m'' =>
    rw [hrun] at hsame
    cases hsame
  | failed e m'' =>
    rw [hrun] at hsame
    obtain ⟨rfl, -⟩ := Outcome.failed.inj hsame
    obtain ⟨source, q, hsource, hfeed, hq, hspan⟩ := hplaces e m'' hrun
    obtain ⟨hfirst, htoken⟩ := Program.exists_token_above hq hfeed hspan
    refine ⟨hfollows.machine_taken, e.span.line, source, m'', rfl, hsource, ⟨q, hq, hspan⟩, htoken,
      err_step_of_failed hprogram hline hparse hfailed rfl, ?_⟩
    intro hlast
    simpa [hlast, eq_comm] using hsource

/-! A skill that is defined by one line fails in another. -/

def defining : String :=
  "skill f() \x7b say nope \x7d"

def calling : String :=
  "f()"

/-- The place of `nope` in the first line. -/
def nope : Span :=
  ⟨16, 20, 1, 17⟩

/-- The failure of the second line. -/
def undefined : Fault :=
  ⟨.undefinedVariable "nope", nope⟩

def definingProgram : Program :=
  [.skill "f" [] [.say (.ident "nope" nope) ⟨12, 15, 1, 13⟩] ⟨6, 7, 1, 7⟩]

def callingProgram : Program :=
  [.expr (.call (.ident "f" ⟨0, 1, 1, 1⟩) [] ⟨1, 2, 1, 2⟩)]

/-- The shell that has read the first line. -/
def defined : Shell :=
  ((opened (defining ++ "\n" ++ calling) 0 false).taken.step defining).1

theorem parseAll_defining : Program.parseAll defining = .ok definingProgram := by
  have hscan : Token.scan defining = .ok [⟨.keyword .skill, ⟨0, 5, 1, 1⟩, "skill"⟩,
      ⟨.ident "f", ⟨6, 7, 1, 7⟩, "f"⟩, ⟨.symbol .leftParen, ⟨7, 8, 1, 8⟩, "("⟩,
      ⟨.symbol .rightParen, ⟨8, 9, 1, 9⟩, ")"⟩, ⟨.symbol .leftBrace, ⟨10, 11, 1, 11⟩, "\x7b"⟩,
      ⟨.keyword .say, ⟨12, 15, 1, 13⟩, "say"⟩, ⟨.ident "nope", nope, "nope"⟩,
      ⟨.symbol .rightBrace, ⟨21, 22, 1, 22⟩, "\x7d"⟩, ⟨.finish, ⟨22, 22, 1, 23⟩, ""⟩] := by
    decide +kernel
  rw [Program.parseAll, hscan]
  rfl

theorem parseAll_calling : Program.parseAll calling = .ok callingProgram := by
  have hscan : Token.scan calling = .ok [⟨.ident "f", ⟨0, 1, 1, 1⟩, "f"⟩,
      ⟨.symbol .leftParen, ⟨1, 2, 1, 2⟩, "("⟩, ⟨.symbol .rightParen, ⟨2, 3, 1, 3⟩, ")"⟩,
      ⟨.finish, ⟨3, 3, 1, 4⟩, ""⟩] := by
    decide +kernel
  rw [Program.parseAll, hscan]
  rfl

theorem exists_run_calling : ∃ m', Machine.run callingProgram defined.taken.machine =
    .failed undefined m' := by
  have hfails : (Machine.run callingProgram defined.taken.machine).fault? = some undefined := by
    decide +kernel
  exact Outcome.exists_of_fault? hfails

/-- The node that fails was read from the first line, and the excerpt is the second line. -/
theorem excerpt_of_failed_calling : ∃ m m',
    Traced (defining ++ "\n" ++ calling) 0 false [defining] defined m ∧
    defined.nextLine = some (calling, defined.taken) ∧ Text.trimmed calling ∉ commands ∧
    Program.parseAll (Text.trimmed calling) = .ok callingProgram ∧
    Machine.run callingProgram defined.taken.machine = .failed undefined m' ∧
    (∃ m'', Machine.run (callingProgram.moved (Span.onLine 1)) m.taken =
      .failed ⟨undefined.cause, nope.onLine 0⟩ m'') ∧
    (defined.taken.step calling).1.transcript.err =
      defined.taken.transcript.err ++ report undefined calling := by
  have htrimmed : Text.trimmed defining = defining := by decide +kernel
  have htrimmed' : Text.trimmed calling = calling := by decide +kernel
  have hfirst : (opened (defining ++ "\n" ++ calling) 0 false).nextLine =
      some (defining, (opened (defining ++ "\n" ++ calling) 0 false).taken) :=
    nextLine_eq_some.2 ⟨by decide +kernel, rfl⟩
  have hnext : defined.nextLine = some (calling, defined.taken) :=
    nextLine_eq_some.2 ⟨by decide +kernel, rfl⟩
  have hgoes : ((opened (defining ++ "\n" ++ calling) 0 false).taken.step defining).2 = true := by
    decide +kernel
  have hcommand : Text.trimmed calling ∉ commands := by decide +kernel
  obtain ⟨m', hfailed⟩ := exists_run_calling
  have htraced := Traced.opened.line hfirst hgoes
  have hparse : Program.parseAll (Text.trimmed calling) = .ok callingProgram := by
    rw [htrimmed', parseAll_calling]
  obtain ⟨-, k, source, m'', hrun, hsource, ⟨q, hq, hspan⟩, -, herr, -⟩ :=
    excerpt_of_failed htraced hnext hcommand hparse hfailed
  rw [htrimmed'] at hsource herr
  rw [htrimmed] at htraced hsource
  have hk : k = 0 := by
    match k with
    | 0 => rfl
    | 1 =>
      obtain rfl : calling = source := by simpa using hsource
      obtain rfl := Except.ok.inj (parseAll_calling.symm.trans hq)
      exact absurd hspan (by decide)
    | k + 2 => simp at hsource
  subst hk
  exact ⟨_, m', htraced, hnext, hcommand, hparse, hfailed, ⟨m'', hrun⟩, herr⟩

/-- The caret stands under nothing: the token is in the line before. -/
theorem excerpt_misplaced : (session [defining, calling] 0 false).err = report undefined calling ∧
    report undefined calling ≠ report undefined defining ∧
    (∃ p, Program.parseAll defining = .ok p ∧ undefined.span ∈ p.spans) ∧
    ∀ p, Program.parseAll calling = .ok p → undefined.span ∉ p.spans := by
  refine ⟨by decide +kernel, by decide +kernel, ⟨_, parseAll_defining, by decide⟩, ?_⟩
  intro p hp
  obtain rfl := Except.ok.inj (parseAll_calling.symm.trans hp)
  decide

end Shell

end Vibe
