import Vibe.Proofs.Machine.Moving
import Vibe.Proofs.Machine.Operations
import Vibe.Proofs.Syntax.Progress.Programs
import Vibe.Proofs.Text.Carets

/-! Errors and the text that they come from: whichever stage refuses a text, the line that is shown
is the one where the error begins, and the caret stands under its first character. -/

namespace Vibe

open Position (behind offset_behind_append offset_behind_pos)
open Text (Caret)

variable {source : String} {e : Error} {s : Span} {t : Token} {tokens ts : List Token}
  {p : Program}

/-- The errors that a text gives rise to: when it is cut into tokens, when these are read as a
program, up to the first error or with all of them, and when the program is run on a new machine. -/
inductive Raises (source : String) : Error → Prop
  | scan {e : Error} (h : Token.scan source = .error e) : Raises source e
  | parse {e : Error} (h : Program.parse source = .error e) : Raises source e
  | parseAll {es : List Error} {e : Error} (h : Program.parseAll source = .error es) (he : e ∈ es) :
      Raises source e
  | run {p : Program} {limits : Limits} {console : Console} {dice : Dice} {f : Fault}
      {m : Machine} (hparse : Program.parse source = .ok p)
      (hfailed : Machine.run p (Machine.start limits console dice) = .failed f m) :
      Raises source f.toError

/-- The place of the end of a text, where the mark of the end stands. -/
def Span.atEnd (source : String) : Span :=
  .between (behind source.toList) (behind source.toList)

/-- A stretch begins in the text, at a character that is no space or at the end. -/
def Begins (source : String) (s : Span) : Prop :=
  ∃ before after, source.toList = before ++ after ∧ s.start = (behind before).offset ∧
    s.line = (behind before).line ∧ s.column = (behind before).column ∧
    (∀ c ∈ after.head?, Token.isSpace c = false) ∧ (after = [] ↔ s = .atEnd source)

/-! ### Where errors begin -/

namespace Token

theorem Lexeme.not_isSpace_head {c : Char} {w : List Char} {kind : Kind}
    (h : Lexeme (c :: w) kind) : isSpace c = false := by
  refine Bool.eq_false_iff.2 fun hspace => ?_
  obtain ⟨body, -, hstring⟩ := h.exists_quote List.mem_cons_self hspace
  obtain ⟨rfl, -⟩ := List.cons.inj hstring
  cases hspace

end Token

/-- What begins before a character does not begin at the end. -/
theorem begins_of_cons {before after : List Char} {c : Char} {stop : Position}
    (hsource : source.toList = before ++ c :: after) (hc : Token.isSpace c = false) :
    Begins source (.between (behind before) stop) := by
  refine ⟨before, c :: after, hsource, rfl, rfl, rfl, fun d hd => ?_, by simp, fun hend => ?_⟩
  · rwa [← Option.some.inj hd]
  · have hstart : (behind before).offset = (behind source.toList).offset :=
      congrArg Span.start hend
    have hlength := offset_behind_append before (c :: after)
    have hpos := offset_behind_pos (List.cons_ne_nil c after)
    rw [hsource] at hstart
    omega

theorem begins_of_mem (h : Token.scan source = .ok tokens) (ht : t ∈ tokens) :
    Begins source t.span := by
  obtain ⟨ts, hcut, rfl⟩ := Token.cut_of_scan h
  rcases List.mem_append.1 ht with ht | ht
  · obtain ⟨before, after, hsource, hspan⟩ := hcut.stands t ht
    have hmeans := hcut.means t ht
    obtain ⟨c, w, hlexeme⟩ := List.exists_cons_of_ne_nil hmeans.ne_nil
    rw [hlexeme] at hmeans hsource
    rw [hspan]
    exact begins_of_cons (by simpa using hsource) hmeans.not_isSpace_head
  · rw [List.mem_singleton.1 ht, Token.finishAt_eq]
    exact ⟨source.toList, [], by simp, rfl, rfl, rfl, by simp, by simp [Span.atEnd]⟩

namespace Program

theorem parse_of_scan (h : Token.scan source = .ok tokens) :
    parse source = match recover tokens with
      | (stmts, []) => .ok stmts
      | (_, e :: _) => .error e := by
  rw [parse, h]
  rfl

theorem parseAll_of_scan (h : Token.scan source = .ok tokens) :
    parseAll source = ofTokens tokens := by
  rw [parseAll, h]

/-- Reading with a stop at the first error gives the same program, or the first of the errors that
are given without. -/
theorem parseAll_of_parse : (∀ p, parse source = .ok p → parseAll source = .ok p) ∧
    ∀ e, parse source = .error e → ∃ es, parseAll source = .error (e :: es) := by
  cases hscan : Token.scan source with
  | error e =>
    rw [parse, parseAll, hscan]
    exact ⟨nofun, fun _ h => ⟨[], by rw [Except.error.inj h]⟩⟩
  | ok tokens =>
    rw [parse_of_scan hscan, parseAll_of_scan hscan, ofTokens]
    rcases recover tokens with ⟨stmts, _ | ⟨e, es⟩⟩
    · exact ⟨fun _ h => by rw [Except.ok.inj h], nofun⟩
    · exact ⟨nofun, fun _ h => ⟨es, by rw [Except.error.inj h]⟩⟩

/-- What is refused without a stop is refused for one of the errors of its tokens, or for one that
they could not be cut for. -/
theorem errors_of_parseAll {es : List Error} (h : parseAll source = .error es) (he : e ∈ es) :
    Token.scan source = .error e ∨
      ∃ tokens, Token.scan source = .ok tokens ∧ e ∈ (recover tokens).2 := by
  cases hscan : Token.scan source with
  | error e' =>
    rw [parseAll, hscan] at h
    cases h
    rw [List.mem_singleton.1 he]
    exact .inl rfl
  | ok tokens =>
    rw [parseAll_of_scan hscan, ofTokens] at h
    refine .inr ⟨tokens, rfl, ?_⟩
    split at h
    · cases h
    · next herrors =>
      cases h
      rwa [herrors]

/-- The errors of a cut text are at its tokens, the mark of the end among them. -/
theorem exists_token_of_error (h : Token.scan source = .ok tokens) (he : e ∈ (recover tokens).2) :
    ∃ t ∈ tokens, e.span = some t.span := by
  obtain ⟨ts, hcut, rfl⟩ := Token.cut_of_scan h
  obtain ⟨last, behind, hended, -, hlast⟩ := ended_eq (ts ++ [Token.finishAt source.toList])
  have hsame : ended (ts ++ [Token.finishAt source.toList]) =
      ts ++ [Token.finishAt source.toList] := by
    simp [ended, Token.finishAt, Token.placed]
  rw [hsame] at hended
  obtain ⟨struck, k, hstruck, hspans⟩ := exists_struck (ts ++ [Token.finishAt source.toList])
  have hmem : e.span ∈ (recover (ts ++ [Token.finishAt source.toList])).2.map Error.span :=
    List.mem_map_of_mem he
  rw [hspans, List.mem_map] at hmem
  obtain ⟨s, hs, hspan⟩ := hmem
  rw [hended]
  rcases List.mem_append.1 hs with hs | hs
  · obtain ⟨t, ht, rfl⟩ := List.mem_map.1 hs
    exact ⟨t, List.mem_append_left _ (hstruck.subset ht), hspan.symm⟩
  · refine ⟨last, by simp, ?_⟩
    rw [hlast, ← List.eq_of_mem_replicate hs, hspan]

end Program

theorem begins_of_scan (h : Token.scan source = .error e) :
    ∃ s, e.span = some s ∧ Begins source s := by
  obtain ⟨before, c, r, ts, hsource, hcut, -, rfl⟩ := Token.blocked_of_scan h
  obtain ⟨-, -, hsolid, -⟩ := Token.scanFrom_cut hcut #[]
  have hc : Token.isSpace c = false := by
    refine Bool.eq_false_iff.2 fun hspace => ?_
    cases hsolid [c] r rfl (.space hspace .nil)
  unfold Token.refusal
  split
  · exact ⟨_, rfl, begins_of_cons hsource hc⟩
  · exact ⟨_, rfl, begins_of_cons hsource hc⟩

theorem begins_of_parseAll {es : List Error} (h : Program.parseAll source = .error es)
    (he : e ∈ es) : ∃ s, e.span = some s ∧ Begins source s := by
  rcases Program.errors_of_parseAll h he with h | ⟨tokens, htokens, he⟩
  · exact begins_of_scan h
  · obtain ⟨t, ht, hspan⟩ := Program.exists_token_of_error htokens he
    exact ⟨t.span, hspan, begins_of_mem htokens ht⟩

/-- Every error of a text begins in the text. -/
theorem Raises.begins (h : Raises source e) : ∃ s, e.span = some s ∧ Begins source s := by
  cases h with
  | scan h => exact begins_of_scan h
  | parse h =>
    obtain ⟨es, hes⟩ := Program.parseAll_of_parse.2 _ h
    exact begins_of_parseAll hes List.mem_cons_self
  | parseAll h he => exact begins_of_parseAll h he
  | @run p limits console dice f m hparse hfailed =>
    have hstore : ∀ s ∈ (Machine.start limits console dice).store.spans, s ∈ p.spans := by
      simp [Machine.spans_start]
    have hspan := (Machine.run_places (fun s hs => hs) hstore).1 f m hfailed
    obtain ⟨tokens, htokens, t, ht, -, hplace⟩ :=
      Program.exists_token_of_span (Program.parseAll_of_parse.1 p hparse) hspan
    exact ⟨f.span, rfl, hplace ▸ begins_of_mem htokens ht⟩

/-! ### Excerpts -/

theorem Begins.line_pos (h : Begins source s) : s.line ≠ 0 := by
  obtain ⟨before, after, -, -, hline, -⟩ := h
  rw [hline]
  exact Nat.succ_ne_zero _

theorem Error.sourceLine_withSource (he : e.span = some s) (hs : Begins source s) :
    (e.withSource source).sourceLine = Text.line? source s.line := by
  simp only [withSource, he, hs.line_pos, if_false]

theorem Error.render_withSource {line : String} (he : e.span = some s)
    (hline : (e.withSource source).sourceLine = some line) :
    (e.withSource source).render =
      { e with sourceLine := none }.render ++ excerpt line s.column := by
  have hspan : (e.withSource source).span = some s := by
    simp only [withSource, he]
    split
    · exact he
    · rfl
  have hcause : (e.withSource source).cause = e.cause := by
    simp only [withSource, he]
    split <;> rfl
  simp [render, hspan, hcause, hline, he, String.append_assoc]

/-- Where a stretch begins there is a line for its caret. At the end of the text nothing stands
behind it any more. -/
theorem Begins.exists_caret (h : Begins source s) : ∃ above left right below,
    Caret source.toList s above left right below ∧ (s = .atEnd source → right = [] ∧ below = []) ∧
      (s ≠ .atEnd source → right ≠ []) := by
  obtain ⟨before, after, hsource, hstart, hline, hcolumn, hafter, hend⟩ := h
  obtain ⟨above, left, rfl, habove, hleft⟩ := Text.exists_above before
  have hending : ∀ c ∈ after.head?, c ≠ '\n' ∧ c ≠ '\r' := by
    intro c hc
    have hspace := hafter c hc
    constructor <;> rintro rfl <;> cases hspace
  obtain ⟨right, below, rfl, hright, hbelow⟩ := Text.exists_below left after hleft hending
  obtain ⟨hnumber, hplace⟩ := Text.behind_of_line habove hleft
  refine ⟨above, left, right, below, ⟨hsource ▸ hbelow above habove, hstart, hline.trans hnumber,
    hcolumn.trans hplace⟩, fun hs => ?_, fun hs => hright fun hnil => hs (hend.1 hnil)⟩
  exact List.append_eq_nil_iff.1 (hend.2 hs)

/-- The line of a stretch is found, unless the stretch begins at the end of a text that is empty or
ends in a line feed. -/
theorem Begins.line?_eq_none_iff (h : Begins source s) : Text.line? source s.line = none ↔
    s = .atEnd source ∧ (source = "" ∨ source.toList.getLast? = some '\n') := by
  obtain ⟨above, left, right, below, hcaret, hend, hright⟩ := h.exists_caret
  have htext := hcaret.isLine.text_eq
  by_cases hnil : left ++ right ++ below = []
  · obtain ⟨rfl, rfl, rfl⟩ : left = [] ∧ right = [] ∧ below = [] := by simpa using hnil
    simp only [List.append_nil] at htext
    have hlast : ∀ c ∈ source.toList.getLast?, c = '\n' := htext ▸ hcaret.isLine.above_end
    have hs : s = .atEnd source := by
      by_contra hne
      exact hright hne rfl
    have hsource : source = "" ∨ source.toList.getLast? = some '\n' := by
      cases hget : source.toList.getLast? with
      | none => exact .inl (by simpa using hget)
      | some c => exact .inr (congrArg some (hlast c hget))
    rw [hcaret.line]
    exact ⟨fun _ => ⟨hs, hsource⟩, fun _ => hcaret.isLine.line?_eq_none⟩
  · rw [hcaret.line, hcaret.isLine.line?_eq hnil]
    refine ⟨nofun, ?_⟩
    rintro ⟨hs, hsource⟩
    obtain ⟨rfl, rfl⟩ := hend hs
    simp only [List.append_nil] at hnil htext
    rcases hsource with rfl | hlast
    · simp at htext
      exact (hnil htext.2).elim
    · rw [htext, List.getLast?_append_of_ne_nil _ hnil] at hlast
      refine (hcaret.isLine.newline_not_mem ?_).elim
      rw [List.append_nil]
      exact List.mem_of_getLast? hlast

/-- Whatever stage an error comes from, the line that is looked up for it is the line of the text in
which its place begins. The character at the column of the place, under which the caret stands, is
the first one behind the place in the text; at the end of the text the caret stands one past the end
of the last line. There is no line only at the end of a text that is empty or ends in a line
feed. -/
theorem excerpt_exact (h : Raises source e) : ∃ s, e.span = some s ∧
    ((e.withSource source).sourceLine = none ↔
      s = .atEnd source ∧ (source = "" ∨ source.toList.getLast? = some '\n')) ∧
    ∀ line, (e.withSource source).sourceLine = some line →
      (e.withSource source).render =
        { e with sourceLine := none }.render ++ Error.excerpt line s.column ∧
      ∃ above left right below, Caret source.toList s above left right below ∧
        line.toList = left ++ right ∧
        (s = .atEnd source → source.toList = above ++ line.toList ∧
          s.column = line.toList.length + 1) ∧
        (s ≠ .atEnd source → ∃ c rest, source.toList = above ++ left ++ c :: rest ∧
          line.toList[s.column - 1]? = some c) := by
  obtain ⟨s, hspan, hbegins⟩ := h.begins
  have hlookup := Error.sourceLine_withSource hspan hbegins
  refine ⟨s, hspan, hlookup ▸ hbegins.line?_eq_none_iff, fun line hline => ?_⟩
  refine ⟨Error.render_withSource hspan hline, ?_⟩
  obtain ⟨above, left, right, below, hcaret, hend, hright⟩ := hbegins.exists_caret
  have htext := hcaret.toList_of_line? (hlookup ▸ hline)
  rw [htext]
  refine ⟨above, left, right, below, hcaret, rfl, fun hs => ?_, fun hs => ?_⟩
  · obtain ⟨rfl, rfl⟩ := hend hs
    exact ⟨by simpa using hcaret.isLine.text_eq, by simpa using hcaret.column⟩
  · obtain ⟨c, rest, rfl⟩ := List.exists_cons_of_ne_nil (hright hs)
    exact ⟨c, rest ++ below, by simpa using hcaret.isLine.text_eq, by simp [hcaret.column]⟩

/-- A text whose lines end in carriage return and line feed, with a letter of two bytes on both. -/
def faulty : String :=
  "hold ö = 1\r\nsay ö + nope\r\n"

def faultyProgram : Program := [
  .bind .hold "ö" (.literal (.number 1) ⟨10, 11, 1, 10⟩) ⟨5, 7, 1, 6⟩,
  .say (.binary (.ident "ö" ⟨17, 19, 2, 5⟩) .add (.ident "nope" ⟨22, 26, 2, 9⟩) ⟨20, 21, 2, 7⟩)
    ⟨13, 16, 2, 1⟩]

/-- The failure of its second line. -/
def faultyError : Error :=
  ⟨.running (.undefinedVariable "nope"), some ⟨22, 26, 2, 9⟩, none⟩

theorem parse_faulty : Program.parse faulty = .ok faultyProgram := by
  have hscan : Token.scan faulty = .ok [⟨.keyword .hold, ⟨0, 4, 1, 1⟩, "hold"⟩,
      ⟨.ident "ö", ⟨5, 7, 1, 6⟩, "ö"⟩, ⟨.symbol .equal, ⟨8, 9, 1, 8⟩, "="⟩,
      ⟨.number 1, ⟨10, 11, 1, 10⟩, "1"⟩, ⟨.keyword .say, ⟨13, 16, 2, 1⟩, "say"⟩,
      ⟨.ident "ö", ⟨17, 19, 2, 5⟩, "ö"⟩, ⟨.symbol .plus, ⟨20, 21, 2, 7⟩, "+"⟩,
      ⟨.ident "nope", ⟨22, 26, 2, 9⟩, "nope"⟩, ⟨.finish, ⟨28, 28, 3, 1⟩, ""⟩] := by
    decide +kernel
  rw [Program.parse, hscan]
  rfl

theorem raises_faulty : Raises faulty faultyError := by
  have hfault : (Machine.run faultyProgram (Machine.start {} {} 0)).fault? =
      some ⟨.undefinedVariable "nope", ⟨22, 26, 2, 9⟩⟩ := by
    decide +kernel
  obtain ⟨m, hfailed⟩ := Outcome.exists_of_fault? hfault
  exact .run parse_faulty hfailed

/-- A text that ends too early, behind a line feed. -/
def openEnded : String :=
  "say (\n"

def openEndedError : Error :=
  ⟨.parsing (.expectedExpression "end of input"), some ⟨6, 6, 2, 1⟩, none⟩

theorem raises_openEnded : Raises openEnded openEndedError := by
  have hscan : Token.scan openEnded = .ok [⟨.keyword .say, ⟨0, 3, 1, 1⟩, "say"⟩,
      ⟨.symbol .leftParen, ⟨4, 5, 1, 5⟩, "("⟩, ⟨.finish, ⟨6, 6, 2, 1⟩, ""⟩] := by
    decide +kernel
  refine .parse ?_
  rw [Program.parse, hscan]
  rfl

/-- The caret counts characters, and the carriage return before it is not shown; below the last line
feed there is nothing to show. -/
theorem excerpt_exact_faulty : Raises faulty faultyError ∧
    (faultyError.withSource faulty).render = "[line 2:9] RuntimeError: undefined variable 'nope'" ++
      "\n  | say ö + nope" ++ "\n  |         ^" ∧
    Raises openEnded openEndedError ∧ (openEndedError.withSource openEnded).sourceLine = none := by
  have hline : (faultyError.withSource faulty).sourceLine = some "say ö + nope" := by
    decide +kernel
  obtain ⟨s, hspan, -, hexcerpt⟩ := excerpt_exact raises_faulty
  obtain ⟨s', hspan', hnone, -⟩ := excerpt_exact raises_openEnded
  refine ⟨raises_faulty, ?_, raises_openEnded, hnone.2 ⟨?_, .inr (by decide)⟩⟩
  · rw [(hexcerpt _ hline).1, ← Option.some.inj hspan]
    decide +kernel
  · rw [← Option.some.inj hspan']
    decide +kernel

end Vibe
