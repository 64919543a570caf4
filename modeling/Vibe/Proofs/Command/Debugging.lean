import Vibe.Command
import Vibe.Proofs.Command.Excerpts

/-! Listing the tokens and trees of a file only adds to the output of its run, before everything
else. The errors and the exit code are the same without the listing. -/

namespace Vibe

namespace Transcript

/-- The same with a text before all that is written on the stream for results. -/
def behind (text : String) (t : Transcript) : Transcript :=
  { t with out := text ++ t.out }

variable {t : Transcript} {es : List Error}

theorem line_behind (before text : String) (t : Transcript) :
    (t.behind before).line text = (t.line text).behind before := by
  simp [line, behind, String.append_assoc]

theorem events_behind (before : String) (c : Console) (t : Transcript) :
    (t.behind before).events c = (t.events c).behind before := by
  rw [events, events, ← Array.foldl_toList, ← Array.foldl_toList]
  refine List.foldl_hom (behind before) fun t event => ?_
  cases event with
  | printed text => exact line_behind before text t
  | asked prompt => simp [behind, String.append_assoc]

theorem errors_behind (before : String) (es : List Error) (source : String) (t : Transcript) :
    (t.behind before).errors es source = (t.errors es source).behind before :=
  List.foldl_hom (behind before) fun _ _ => rfl

/-- Lines on one stream leave the other one alone. -/
theorem err_lines (texts : List String) (t : Transcript) : (t.lines texts).err = t.err := by
  induction texts generalizing t with
  | nil => rfl
  | cons text texts ih => exact ih (t.line text)

/-- Where there are no errors there is the output and nothing more. -/
theorem eq_behind (h : t.err = "") : t = ({} : Transcript).behind t.out := by
  cases t
  simp_all [behind]

/-- Errors are told. -/
theorem err_errors_ne (h : es ≠ []) (source : String) (t : Transcript) :
    (t.errors es source).err ≠ "" := by
  obtain rfl | ⟨es, e, rfl⟩ := List.eq_nil_or_concat' es
  · exact (h rfl).elim
  · rw [errors, List.foldl_append, List.foldl_cons, List.foldl_nil]
    simp [errorLine, String.append_assoc]

end Transcript

/-- The same report with a text before its output. -/
def Report.behind (text : String) (r : Report) : Report :=
  { r with transcript := r.transcript.behind text }

/-- A report fails if it has errors, and else not. -/
def Report.Truthful (r : Report) : Prop :=
  r.code = if r.transcript.err = "" then 0 else 1

namespace Command

variable {source path : String} {tokens : List Token} {p : Program}

/-- What a text is listed as: its tokens and trees, as far as it has them. -/
def listing (source : String) : String :=
  match Token.scan source with
  | .error _ => ""
  | .ok tokens =>
    match Program.ofTokens tokens with
    | .error _ => (listTokens tokens {}).out
    | .ok p => (listTrees p (listTokens tokens {})).out

theorem err_listTokens (tokens : List Token) (t : Transcript) :
    (listTokens tokens t).err = t.err :=
  Transcript.err_lines _ (t.line "TOKENS:")

theorem err_listTrees (p : Program) (t : Transcript) : (listTrees p t).err = t.err :=
  (Transcript.err_lines _ _).trans (Transcript.err_lines _ (t.line "SYNTAX TREE:"))

/-- The report on a run whose output comes behind what has been written. -/
def report (source : String) (o : Outcome Unit) (t : Transcript) : Report :=
  match o with
  | .failed f m => ⟨(t.events m.console).errors [f.toError] source, 1⟩
  | o => ⟨t.events o.machine.console, 0⟩

theorem report_behind (before source : String) (o : Outcome Unit) (t : Transcript) :
    report source o (t.behind before) = (report source o t).behind before := by
  cases o with
  | failed f m => simp [report, Report.behind, Transcript.events_behind, Transcript.errors_behind]
  | done | unfinished => simp [report, Report.behind, Transcript.events_behind]

/-- A text that forms a program is run. -/
theorem runText_of_program (hscan : Token.scan source = .ok tokens)
    (hparse : Program.ofTokens tokens = .ok p) (debug : Bool) (input : List String)
    (dice : Dice) (clock : Clock) : runText source debug input dice clock =
      report source (Machine.run p (Machine.start { unhurried := clock } { answers := input } dice))
        (if debug then listTrees p (listTokens tokens {}) else {}) := by
  unfold runText report
  cases debug <;> simp only [Program.parseAll, hscan, hparse, Except.map] <;>
    cases Machine.run p (Machine.start { unhurried := clock } { answers := input } dice) <;> rfl

theorem runText_debug (source : String) (input : List String) (dice : Dice) (clock : Clock) :
    runText source true input dice clock =
      (runText source false input dice clock).behind (listing source) := by
  cases hscan : Token.scan source with
  | error e =>
    simp [runText, Program.parseAll, listing, hscan, Except.map, Report.behind, Transcript.behind]
  | ok tokens =>
    have htokens := Transcript.eq_behind (err_listTokens tokens {})
    cases hparse : Program.ofTokens tokens with
    | error es =>
      have herrors := Transcript.errors_behind (listTokens tokens {}).out es source {}
      rw [← htokens] at herrors
      simp [runText, Program.parseAll, listing, hscan, hparse, Except.map, Report.behind, herrors]
    | ok p =>
      have htrees := Transcript.eq_behind ((err_listTrees p _).trans (err_listTokens tokens {}))
      have hlisting : listing source = (listTrees p (listTokens tokens {})).out := by
        simp [listing, hscan, hparse]
      rw [runText_of_program hscan hparse, runText_of_program hscan hparse, hlisting,
        ← report_behind]
      exact congrArg _ htrees

theorem truthful_report (source : String) (o : Outcome Unit) : (report source o {}).Truthful := by
  cases o with
  | failed f m =>
    have hne := Transcript.err_errors_ne (List.cons_ne_nil f.toError []) source
      (({} : Transcript).events m.console)
    simp [Report.Truthful, report, hne]
  | done | unfinished => simp [Report.Truthful, report, Shell.err_events]

/-- A text that is no program has errors. -/
theorem ne_nil_of_ofTokens {es : List Error} (h : Program.ofTokens tokens = .error es) :
    es ≠ [] := by
  rintro rfl
  simp only [Program.ofTokens] at h
  split at h <;> simp_all

/-- A text is run without a failure, or errors are told. -/
theorem truthful_runText (source : String) (input : List String) (dice : Dice) (clock : Clock) :
    (runText source false input dice clock).Truthful := by
  cases hscan : Token.scan source with
  | error e =>
    have hne := Transcript.err_errors_ne (List.cons_ne_nil e []) source {}
    simp [Report.Truthful, runText, Program.parseAll, hscan, hne]
  | ok tokens =>
    cases hparse : Program.ofTokens tokens with
    | error es =>
      have hne := Transcript.err_errors_ne (ne_nil_of_ofTokens hparse) source {}
      simp [Report.Truthful, runText, Program.parseAll, hscan, hparse, hne]
    | ok p =>
      rw [runText_of_program hscan hparse]
      exact truthful_report source _

/-- A name that ends like a file of a program is no other word of the command line. -/
theorem ofArgs_file (h : path.endsWith ".vibe" = true) (options : List String) :
    Request.ofArgs (path :: options) = .runFile path (options.contains "--debug") := by
  have hne : ∀ word : String, word.endsWith ".vibe" = false → path ≠ word := by
    rintro word hword rfl
    exact Bool.false_ne_true (hword.symm.trans h)
  have hwords : path ≠ "run" ∧ path ≠ "repl" ∧ path ≠ "help" ∧ path ≠ "--help" ∧ path ≠ "-h" ∧
      path ≠ "version" ∧ path ≠ "--version" ∧ path ≠ "-v" := by
    refine ⟨?_, ?_, ?_, ?_, ?_, ?_, ?_, ?_⟩ <;> exact hne _ (by decide +kernel)
  unfold Request.ofArgs
  split <;> simp_all

section Run

variable {content : String → Option ByteArray} {options : List String}

/-- A file is run the same by its name alone. -/
theorem run_file (h : path.endsWith ".vibe" = true) (content : String → Option ByteArray)
    (options : List String) (input : String) (dice : Dice) (clock : Clock) :
    run (path :: options) content input dice clock =
      run ("run" :: path :: options) content input dice clock := by
  rw [run, run, ofArgs_file h]
  rfl

/-- A file that is a text is run as this text. -/
theorem run_readable (h : readText (content path) = .ok source) (options : List String)
    (input : String) (dice : Dice) (clock : Clock) :
    run ("run" :: path :: options) content input dice clock =
      runText source (options.contains "--debug")
        ((Text.pieces input.toList).map fun p => String.ofList (Text.withoutEndings p)) dice
        clock := by
  simp [run, Request.ofArgs, h]

/-- With `--debug` the output has the listing before it. -/
theorem run_debug {plain debug : List String} (hreadable : readText (content path) = .ok source)
    (hplain : "--debug" ∉ plain) (hdebug : "--debug" ∈ debug) (input : String) (dice : Dice)
    (clock : Clock) : run ("run" :: path :: debug) content input dice clock =
      (run ("run" :: path :: plain) content input dice clock).behind (listing source) := by
  rw [run_readable hreadable, run_readable hreadable, List.contains_iff_mem.2 hdebug, runText_debug,
    Bool.eq_false_iff.2 fun h => hplain (List.contains_iff_mem.1 h)]

theorem truthful_run (hreadable : readText (content path) = .ok source)
    (hplain : "--debug" ∉ options) (input : String) (dice : Dice) (clock : Clock) :
    (run ("run" :: path :: options) content input dice clock).Truthful := by
  rw [run_readable hreadable, Bool.eq_false_iff.2 fun h => hplain (List.contains_iff_mem.1 h)]
  exact truthful_runText source _ dice clock

/-- With `--debug` the tokens and trees are listed, and after that all is as without it: the output,
the errors and the exit code, which is that of a failure where there are errors and only there. The
name of the file is enough if it ends in `.vibe`. -/
theorem debug_observes {plain debug : List String}
    (hreadable : readText (content path) = .ok source) (hplain : "--debug" ∉ plain)
    (hdebug : "--debug" ∈ debug) (input : String) (dice : Dice) (clock : Clock) :
    let r := run ("run" :: path :: plain) content input dice clock
    let s := run ("run" :: path :: debug) content input dice clock
    s.transcript.err = r.transcript.err ∧ s.code = r.code ∧
      s.transcript.out = listing source ++ r.transcript.out ∧
      (r.code = 1 ↔ r.transcript.err ≠ "") ∧ (r.code = 0 ↔ r.transcript.err = "") ∧
      (path.endsWith ".vibe" = true →
        run (path :: plain) content input dice clock = r ∧
          run (path :: debug) content input dice clock = s) := by
  intro r s
  have hs : s = r.behind (listing source) := run_debug hreadable hplain hdebug input dice clock
  have hcode : r.code = if r.transcript.err = "" then 0 else 1 :=
    truthful_run hreadable hplain input dice clock
  refine ⟨hs ▸ rfl, hs ▸ rfl, hs ▸ rfl, ?_, ?_, ?_⟩
  · rw [hcode]
    split <;> simp [*]
  · rw [hcode]
    split <;> simp [*]
  · exact fun hfile =>
      ⟨run_file hfile content plain input dice clock,
        run_file hfile content debug input dice clock⟩

/-- A program that prints a line and then fails. -/
def failing : String :=
  "say \"a\"\nsay b"

/-- What the text of a file is written as is read as this text. -/
theorem readText_toUTF8 (source : String) : readText (some source.toUTF8) = .ok source := by
  have htext : String.fromUTF8? source.toUTF8 = some source :=
    dif_pos (e := fun _ => none) source.isValidUTF8
  rw [readText, htext]

/-- The line is printed with and without the listing, and the failure is told. -/
theorem debug_observes_failing :
    let content : String → Option ByteArray := fun _ => some failing.toUTF8
    let r := run ["run", "f.vibe"] content "" 0 false
    let s := run ["f.vibe", "--debug"] content "" 0 false
    r.transcript.out = "a\n" ∧ s.transcript.out = listing failing ++ "a\n" ∧
      listing failing ≠ "" ∧ s.transcript.err = r.transcript.err ∧ s.code = 1 := by
  intro content r s
  have hout : r.transcript.out = "a\n" := by decide +kernel
  have hcode : r.code = 1 := by decide +kernel
  have hreadable : readText (content "f.vibe") = .ok failing := readText_toUTF8 failing
  have hplain : "--debug" ∉ ([] : List String) := List.not_mem_nil
  have hdebug : "--debug" ∈ ["--debug"] := List.mem_singleton_self _
  obtain ⟨herr, hsame, hlisted, -, -, hname⟩ := debug_observes hreadable hplain hdebug "" 0 false
  obtain ⟨-, hs⟩ := hname (by decide +kernel)
  rw [← hs] at herr hsame hlisted
  exact ⟨hout, hlisted.trans (congrArg _ hout), by decide +kernel, herr, hsame.trans hcode⟩

end Run

end Command

end Vibe
