import Vibe.Proofs.Token.Stacking

/-! Spaces and comments between tokens are free. The lexemes of a text, written down again with any
others between them, are cut into the same tokens, apart from their places. -/

namespace Vibe.Token

open Position (behind)

variable {before text lexeme rest spacing : List Char} {kind : Kind} {ts tokens : List Token}
  {last : Token} {source : String}

/-- What may be put between two lexemes: spaces, and comments together with the line feeds that end
them. -/
inductive Spacing : List Char → Prop
  | nil : Spacing []
  | space {c : Char} {rest : List Char} : isSpace c = true → Spacing rest → Spacing (c :: rest)
  | comment {text rest : List Char} : Comment text → Spacing rest → Spacing (text ++ '\n' :: rest)

/-- A text that begins with a space, if it is not empty. -/
def SpaceFirst (text : List Char) : Prop :=
  ∀ c ∈ text.head?, isSpace c = true

theorem spaceFirst_cons {c : Char} (h : isSpace c = true) : SpaceFirst (c :: text) := by
  rintro _ ⟨⟩
  exact h

/-- The lexemes of the tokens in their order, with spacing behind each of them that begins with a
space. Only where no further lexeme comes there may be none. -/
inductive Spaced : List Token → List Char → Prop
  | nil : Spaced [] []
  | token {t : Token} {ts : List Token} {spacing rest : List Char} : Spacing spacing →
      SpaceFirst spacing → (spacing = [] → ∀ u ∈ ts, u.lexeme = "") → Spaced ts rest →
      Spaced (t :: ts) (t.lexeme.toList ++ (spacing ++ rest))

/-- What a token is, and how it is written, apart from its place. -/
def unplaced (t : Token) : Kind × String :=
  (t.kind, t.lexeme)

/-! ### Spacing -/

/-- Spacing is passed over, whatever comes behind it. -/
theorem Spacing.gap (h : Spacing spacing) (ahead : List Char) : Gap ahead spacing := by
  induction h with
  | nil => exact .nil
  | space hc _ ih => exact .space hc ih
  | comment ht _ ih =>
    have hnewline : isSpace '\n' = true := by decide
    refine .comment ht ?_ (.space hnewline ih)
    rintro c ⟨⟩
    rfl

theorem Spacing.append (h : Spacing spacing) (h' : Spacing rest) : Spacing (spacing ++ rest) := by
  induction h with
  | nil => exact h'
  | space hc _ ih => exact .space hc ih
  | comment ht _ ih =>
    rw [List.append_assoc, List.cons_append]
    exact .comment ht ih

/-- Where all lexemes are empty there is nothing but spacing. -/
theorem Spaced.of_empty (h : Spaced ts text) (hempty : ∀ t ∈ ts, t.lexeme = "") :
    Spacing text ∧ SpaceFirst text := by
  induction h with
  | nil => exact ⟨.nil, nofun⟩
  | @token t ts spacing rest hspacing hfirst _ _ ih =>
    obtain ⟨ht, hts⟩ := List.forall_mem_cons.1 hempty
    obtain ⟨hrest, hrestFirst⟩ := ih hts
    rw [ht]
    refine ⟨hspacing.append hrest, ?_⟩
    cases spacing with
    | nil => exact hrestFirst
    | cons c spacing => exact hfirst

/-- Whatever comes behind a lexeme, spacing or nothing, a lexeme has ended there. -/
theorem Spaced.spaceFirst (h : Spaced ts rest) (hfirst : SpaceFirst spacing)
    (hlast : spacing = [] → ∀ u ∈ ts, u.lexeme = "") : SpaceFirst (spacing ++ rest) := by
  cases spacing with
  | nil => exact (h.of_empty (hlast rfl)).2
  | cons c spacing => exact hfirst

/-! ### Lexemes before a space -/

/-- A longest lexeme is the longest one before any space, and at the end of a text. -/
theorem Longest.before_space (h : Longest (lexeme ++ text) lexeme kind) (hrest : SpaceFirst rest) :
    Longest (lexeme ++ rest) lexeme kind := by
  have halone : Longest (lexeme ++ []) lexeme kind := Longest.of_append (by simpa using h)
  cases rest with
  | nil => exact halone
  | cons c rest => exact halone.append_space (hrest c rfl) rest

/-- Where no gap begins, none begins when the longest lexeme stands before a space or at the end of
a text. -/
theorem Solid.before_space (h : Solid (lexeme ++ text))
    (hlongest : Longest (lexeme ++ text) lexeme kind) (hrest : SpaceFirst rest) :
    Solid (lexeme ++ rest) := by
  have halone : Solid (lexeme ++ []) := solid_of_longest h hlongest
  cases rest with
  | nil => exact halone
  | cons c rest =>
    rw [List.append_nil] at halone
    exact halone.append_space hlongest.means.ne_nil (hrest c rfl) rest

/-! ### Cuts -/

/-- The lexemes of a cut are cut again when they are spaced in another way. The last token, whose
lexeme is empty, marks the end. -/
theorem Cut.spaced {text' : List Char} (h : Cut [] before text ts) (hlast : last.lexeme = "")
    (hspacing : Spacing spacing) (htext : Spaced (ts ++ [last]) text') (before' : List Char) :
    ∃ us, Cut [] before' (spacing ++ text') us ∧ us.map unplaced = ts.map unplaced := by
  induction h generalizing before' text' spacing with
  | done =>
    obtain ⟨htext, -⟩ := htext.of_empty (by simpa using hlast)
    have hcut : Cut [] before' (spacing ++ text' ++ []) [] :=
      .done ((hspacing.append htext).gap []) .nil
    rw [List.append_nil] at hcut
    exact ⟨[], hcut, rfl⟩
  | @token before gap lexeme rest kind ts _ hsolid hlongest _ ih =>
    cases htext with
    | @token _ _ spacing' rest' hspacing' hfirst hend hrest =>
      have hafter : SpaceFirst (spacing' ++ rest') := hrest.spaceFirst hfirst hend
      obtain ⟨us, hcut, hsame⟩ := ih hspacing' hrest (before' ++ spacing ++ lexeme)
      have hlexeme : (placed (before ++ gap) lexeme kind).lexeme.toList = lexeme :=
        String.toList_ofList
      rw [hlexeme]
      refine ⟨_, .token (hspacing.gap _) (hsolid.before_space hlongest hafter)
        (hlongest.before_space hafter) hcut, ?_⟩
      rw [List.map_cons, List.map_cons, hsame]
      rfl

/-- How the tokens of a text are spaced makes no difference. When a text is cut into tokens, their
lexemes in the same order, with any spaces and comments before the first and behind each of them,
are a text that is cut too, into tokens of the same kinds with the same lexemes. What stands behind
a lexeme has to begin with a space, so that the lexeme ends there. -/
theorem scan_spaced (h : scan source = .ok tokens) (hspacing : Spacing spacing)
    (htext : Spaced tokens text) : ∃ tokens', scan (String.ofList (spacing ++ text)) = .ok tokens' ∧
      tokens'.map unplaced = tokens.map unplaced := by
  obtain ⟨ts, hcut, rfl⟩ := cut_of_scan h
  have hlast : (finishAt source.toList).lexeme = "" := rfl
  obtain ⟨us, hcut', hsame⟩ := hcut.spaced hlast hspacing htext []
  rw [← String.toList_ofList (l := spacing ++ text)] at hcut'
  refine ⟨_, scan_of_cut hcut', ?_⟩
  rw [List.map_append, List.map_append, hsame]
  rfl

/-- A text without any spaces, in which a slash, a word and a string with two slashes could be taken
for parts of comments. -/
def tightText : String :=
  "a/note2\"//\""

def tightTokens : List Token := [
  ⟨.ident "a", ⟨0, 1, 1, 1⟩, "a"⟩,
  ⟨.symbol .slash, ⟨1, 2, 1, 2⟩, "/"⟩,
  ⟨.ident "note2", ⟨2, 7, 1, 3⟩, "note2"⟩,
  ⟨.string "//", ⟨7, 11, 1, 8⟩, "\"//\""⟩,
  ⟨.finish, ⟨11, 11, 1, 12⟩, ""⟩]

/-- The same lexemes with a comment behind a slash, and a tab. -/
def looseText : List Char :=
  "a / // c\nnote2\t\"//\"".toList

theorem spaced_looseText : Spaced tightTokens looseText := by
  have hsplit : looseText = "a".toList ++ ([' '] ++ ("/".toList ++
      ([' ', '/', '/', ' ', 'c', '\n'] ++ ("note2".toList ++ (['\t'] ++
        ("\"//\"".toList ++ ([] ++ ("".toList ++ ([] ++ []))))))))) := by
    decide +kernel
  have hspace : Spacing [' '] := .space (by decide) .nil
  have hslashes : Comment ['/', '/', ' ', 'c'] := .slashes (by decide)
  have hcomment : Spacing [' ', '/', '/', ' ', 'c', '\n'] :=
    .space (by decide) (.comment hslashes .nil)
  have htab : Spacing ['\t'] := .space (by decide) .nil
  rw [hsplit]
  refine .token hspace (spaceFirst_cons (by decide)) (by decide +kernel) ?_
  refine .token hcomment (spaceFirst_cons (by decide)) (by decide +kernel) ?_
  refine .token htab (spaceFirst_cons (by decide)) (by decide +kernel) ?_
  refine .token .nil nofun (fun _ => by decide +kernel) ?_
  exact .token .nil nofun (fun _ => nofun) .nil

/-- A comment before it. -/
def heading : List Char :=
  ['n', 'o', 't', 'e', ' ', 'b', '\n']

theorem spacing_heading : Spacing heading := by
  have hnote : Comment ['n', 'o', 't', 'e', ' ', 'b'] := by
    refine .note (by decide) ?_
    rintro _ ⟨⟩
    decide
  exact .comment hnote .nil

theorem scan_spaced_looseText : scan tightText = .ok tightTokens ∧ Spacing heading ∧
    Spaced tightTokens looseText ∧
    ∃ tokens', scan (String.ofList (heading ++ looseText)) = .ok tokens' ∧
      tokens'.map unplaced = tightTokens.map unplaced := by
  have hscan : scan tightText = .ok tightTokens := by decide +kernel
  exact ⟨hscan, spacing_heading, spaced_looseText,
    scan_spaced hscan spacing_heading spaced_looseText⟩

end Vibe.Token
