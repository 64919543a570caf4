import Vibe.Token
import Vibe.Error
import Vibe.Decimal.Numeral
import Vibe.Text.Letter
import Vibe.Text.Numeric

/-! Cutting a program text into tokens. What stands at the front of a text is told from its
characters alone; places are counted along the way. -/

namespace Vibe.Token

/-! ### Gaps -/

/-- The characters that may stand between tokens without meaning. -/
def isSpace (c : Char) : Bool :=
  c = ' ' || c = '\t' || c = '\r' || c = '\n'

def isNameStart (c : Char) : Bool :=
  Text.isLetter c || c = '_'

def isNamePart (c : Char) : Bool :=
  Text.isLetter c || Text.isNumeric c || c = '_'

/-- A comment runs to the end of its line. Two slashes open one, and so does the word `note`. -/
def opensComment : List Char → Bool
  | '/' :: '/' :: _ => true
  | c :: r => isNameStart c && (c :: r).takeWhile isNamePart = ['n', 'o', 't', 'e']
  | [] => false

/-- The run of spaces or the comment at the front of a text, and what follows it. -/
def takeGap? (cs : List Char) : Option (List Char × List Char) :=
  if opensComment cs then some (cs.takeWhile (· ≠ '\n'), cs.dropWhile (· ≠ '\n'))
  else match cs with
    | c :: _ => if isSpace c then some (cs.takeWhile isSpace, cs.dropWhile isSpace) else none
    | [] => none

theorem takeGap?_append {cs gap rest : List Char} (h : takeGap? cs = some (gap, rest)) :
    gap ++ rest = cs := by
  unfold takeGap? at h
  split at h
  · cases h; exact List.takeWhile_append_dropWhile
  · split at h
    · split at h
      · cases h; exact List.takeWhile_append_dropWhile
      · cases h
    · cases h

theorem opensComment_cons {c : Char} {r : List Char} (h : opensComment (c :: r)) : c ≠ '\n' := by
  rintro rfl
  simp [opensComment, isNameStart, Text.isLetter] at h

theorem takeGap?_length {cs gap rest : List Char} (h : takeGap? cs = some (gap, rest)) :
    rest.length < cs.length := by
  have hne : gap ≠ [] := by
    unfold takeGap? at h
    split at h
    · next ho =>
      cases cs with
      | nil => simp [opensComment] at ho
      | cons c r => cases h; simp [opensComment_cons ho]
    · split at h
      · split at h
        · next hs => cases h; simp [hs]
        · cases h
      · cases h
  have := congrArg List.length (takeGap?_append h)
  have := List.length_pos_iff.mpr hne
  simp at *
  omega

/-- Passes over all spaces and comments at the front. -/
def skipGaps (p : Position) (cs : List Char) : Position × List Char :=
  match h : takeGap? cs with
  | none => (p, cs)
  | some (gap, rest) =>
    have := takeGap?_length h
    skipGaps (p.after gap) rest
termination_by cs.length

theorem skipGaps_length (p : Position) (cs : List Char) :
    (skipGaps p cs).2.length ≤ cs.length := by
  fun_induction skipGaps p cs with
  | case1 => simp
  | case2 p cs gap rest h ih => have := takeGap?_length h; omega

/-! ### Lexemes -/

/-- The operator or punctuation at the front of a text: the longest one that fits. An exclamation
mark by itself means `not`. -/
def takeOperator? : List Char → Option (Kind × List Char × List Char)
  | '=' :: '=' :: r => some (.symbol .equalEqual, ['=', '='], r)
  | '!' :: '=' :: r => some (.symbol .bangEqual, ['!', '='], r)
  | '<' :: '=' :: r => some (.symbol .lessEqual, ['<', '='], r)
  | '>' :: '=' :: r => some (.symbol .greaterEqual, ['>', '='], r)
  | c :: r =>
    let single (kind : Kind) := some (kind, [c], r)
    match c with
    | '=' => single (.symbol .equal)
    | '!' => single (.keyword .not)
    | '<' => single (.symbol .less)
    | '>' => single (.symbol .greater)
    | '+' => single (.symbol .plus)
    | '-' => single (.symbol .minus)
    | '*' => single (.symbol .star)
    | '/' => single (.symbol .slash)
    | '%' => single (.symbol .percent)
    | '(' => single (.symbol .leftParen)
    | ')' => single (.symbol .rightParen)
    | '{' => single (.symbol .leftBrace)
    | '}' => single (.symbol .rightBrace)
    | '[' => single (.symbol .leftBracket)
    | ']' => single (.symbol .rightBracket)
    | ',' => single (.symbol .comma)
    | ';' => single (.symbol .semicolon)
    | _ => none
  | [] => none

/-- What stands between an opening quote and the quote that closes it, and what follows that one.
A backslash takes the next character along, so that a quote behind it closes nothing. -/
def takeQuoted? : List Char → Option (List Char × List Char)
  | [] => none
  | '"' :: r => some ([], r)
  | '\\' :: c :: r => (takeQuoted? r).map fun q => ('\\' :: c :: q.1, q.2)
  | c :: r => (takeQuoted? r).map fun q => (c :: q.1, q.2)

/-- The text that stands for the characters between two quotes: five escapes are replaced, and any
other backslash stays. -/
def unescape : List Char → List Char
  | '\\' :: 'n' :: r => '\n' :: unescape r
  | '\\' :: 't' :: r => '\t' :: unescape r
  | '\\' :: 'r' :: r => '\r' :: unescape r
  | '\\' :: '\\' :: r => '\\' :: unescape r
  | '\\' :: '"' :: r => '"' :: unescape r
  | c :: r => c :: unescape r
  | [] => []

/-- The digits at the front of a text, with a point among them if a digit follows the point. -/
def takeNumber (cs : List Char) : Numeral × List Char × List Char :=
  let whole := cs.takeWhile Char.isDigit
  match cs.dropWhile Char.isDigit with
  | '.' :: d :: r =>
    if d.isDigit then
      let fraction := (d :: r).takeWhile Char.isDigit
      (.ofDigits whole fraction, whole ++ '.' :: fraction, (d :: r).dropWhile Char.isDigit)
    else (.ofDigits whole [], whole, '.' :: d :: r)
  | r => (.ofDigits whole [], whole, r)

/-- What a word means: a keyword or a name. -/
def kindOfWord (word : String) : Kind :=
  match Keyword.ofWord? word with
  | some k => .keyword k
  | none => .ident word

/-- What stands at the front of a text that no gap opens. -/
inductive Front where
  | token (kind : Kind) (lexeme rest : List Char)
  | stray (c : Char)
  | openQuote

/-- Tells what the text `c :: r` begins with. -/
def front (c : Char) (r : List Char) : Front :=
  match takeOperator? (c :: r) with
  | some (kind, lexeme, rest) => .token kind lexeme rest
  | none =>
    if c = '"' then
      match takeQuoted? r with
      | some (body, rest) =>
        .token (.string (String.ofList (unescape body))) ('"' :: body ++ ['"']) rest
      | none => .openQuote
    else if c.isDigit then
      let (n, lexeme, rest) := takeNumber (c :: r)
      .token (.number n.toFloat) lexeme rest
    else if isNameStart c then
      let word := (c :: r).takeWhile isNamePart
      .token (kindOfWord (String.ofList word)) word ((c :: r).dropWhile isNamePart)
    else .stray c

theorem takeOperator?_append {cs lexeme rest : List Char} {kind : Kind}
    (h : takeOperator? cs = some (kind, lexeme, rest)) : lexeme ++ rest = cs ∧ lexeme ≠ [] := by
  unfold takeOperator? at h
  split at h
  all_goals first
    | (cases h; simp)
    | (dsimp only at h; split at h <;> cases h <;> simp)
    | cases h

theorem takeQuoted?_append {cs body rest : List Char} (h : takeQuoted? cs = some (body, rest)) :
    body ++ '"' :: rest = cs := by
  fun_induction takeQuoted? cs generalizing body with
  | case1 => cases h
  | case2 r => cases h; rfl
  | case3 c r ih =>
    obtain ⟨⟨b, q⟩, hq, he⟩ := Option.map_eq_some_iff.mp h
    cases he
    simp [ih hq]
  | case4 c r _ _ ih =>
    obtain ⟨⟨b, q⟩, hq, he⟩ := Option.map_eq_some_iff.mp h
    cases he
    simp [ih hq]

theorem takeNumber_append {c : Char} (r : List Char) (hc : c.isDigit) :
    (takeNumber (c :: r)).2.1 ++ (takeNumber (c :: r)).2.2 = c :: r ∧
      (takeNumber (c :: r)).2.1 ≠ [] := by
  have hsplit := List.takeWhile_append_dropWhile (p := Char.isDigit) (l := c :: r)
  have hne : (c :: r).takeWhile Char.isDigit ≠ [] := by simp [hc]
  unfold takeNumber
  split
  · next d t hd =>
    split
    · refine ⟨?_, by simp [hc]⟩
      rw [hd] at hsplit
      simp only [List.append_assoc, List.cons_append, List.takeWhile_append_dropWhile]
      exact hsplit
    · exact ⟨hd ▸ hsplit, hne⟩
  · exact ⟨hsplit, hne⟩

theorem isNamePart_of_isNameStart {c : Char} (h : isNameStart c) : isNamePart c := by
  simp only [isNameStart, isNamePart, Bool.or_eq_true] at h ⊢
  exact h.imp_left .inl

/-- A token's lexeme is not empty, and nothing is lost before the rest. -/
theorem front_token {c : Char} {r lexeme rest : List Char} {kind : Kind}
    (h : front c r = .token kind lexeme rest) : lexeme ++ rest = c :: r ∧ lexeme ≠ [] := by
  unfold front at h
  split at h
  · next ho => cases h; exact takeOperator?_append ho
  · split at h
    · next hq =>
      split at h
      · next ht => cases h; subst hq; simp [takeQuoted?_append ht]
      · cases h
    · split at h
      · next hd => cases h; exact takeNumber_append r hd
      · split at h
        · next hs =>
          cases h
          exact ⟨List.takeWhile_append_dropWhile, by simp [isNamePart_of_isNameStart hs]⟩
        · cases h

theorem front_length {c : Char} {r lexeme rest : List Char} {kind : Kind}
    (h : front c r = .token kind lexeme rest) : rest.length < (c :: r).length := by
  obtain ⟨happ, hne⟩ := front_token h
  have := congrArg List.length happ
  have := List.length_pos_iff.mpr hne
  simp at *
  omega

/-! ### Texts -/

/-- Cuts the text that begins at `p` into tokens and puts them behind those already found. The
last token marks the end of the text. -/
def scanFrom (found : Array Token) (p : Position) (cs : List Char) :
    Except Error (Array Token) :=
  match h : skipGaps p cs with
  | (start, []) => .ok (found.push ⟨.finish, .between start start, ""⟩)
  | (start, c :: r) =>
    match hf : front c r with
    | .token kind lexeme rest =>
      have : rest.length < cs.length :=
        Nat.lt_of_lt_of_le (front_length hf) (by simpa [h] using skipGaps_length p cs)
      let stop := start.after lexeme
      scanFrom (found.push ⟨kind, .between start stop, String.ofList lexeme⟩) stop rest
    | .stray c =>
      .error ⟨.lexing (.unexpectedCharacter c), some (.between start (start.next c)), none⟩
    | .openQuote =>
      .error ⟨.lexing .unterminatedString, some (.between start (start.after (c :: r))), none⟩
termination_by cs.length

/-- Cuts a program text into tokens. -/
def scan (source : String) : Except Error (List Token) :=
  (scanFrom #[] {} source.toList).map Array.toList

end Vibe.Token
