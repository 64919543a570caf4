import Mathlib.Algebra.Ring.Parity
import Vibe.Proofs.Token.Stacking

/-! Texts between quotes. Whichever way a text is written there, it is read back, and the quote that
ends it is told from the backslashes before it. -/

namespace Vibe.Token

open Position (behind)

variable {c letter : Char} {cs text body rest : List Char} {kind : Kind}

/-- The letters that stand for a character behind a backslash. -/
inductive Escape : Char → Char → Prop
  | newline : Escape 'n' '\n'
  | tab : Escape 't' '\t'
  | carriageReturn : Escape 'r' '\r'
  | backslash : Escape '\\' '\\'
  | quote : Escape '"' '"'

/-- The ways to write a text between quotes: a quote and a backslash are escaped, and so may be the
other characters that have an escape. -/
inductive Encodes : (text body : List Char) → Prop
  | nil : Encodes [] []
  | plain {c : Char} {text body : List Char} : c ≠ '"' → c ≠ '\\' → Encodes text body →
      Encodes (c :: text) (c :: body)
  | escaped {letter c : Char} {text body : List Char} : Escape letter c → Encodes text body →
      Encodes (c :: text) ('\\' :: letter :: body)

/-- What stands between two quotes, read from left to right: the five escapes are replaced, and any
other backslash is kept with the character behind it. -/
inductive Decodes : (body text : List Char) → Prop
  | nil : Decodes [] []
  | plain {c : Char} {body text : List Char} : c ≠ '"' → c ≠ '\\' → Decodes body text →
      Decodes (c :: body) (c :: text)
  | escaped {letter c : Char} {body text : List Char} : Escape letter c → Decodes body text →
      Decodes ('\\' :: letter :: body) (c :: text)
  | kept {c : Char} {body text : List Char} : (∀ d, ¬ Escape c d) → Decodes body text →
      Decodes ('\\' :: c :: body) ('\\' :: c :: text)

/-- How many backslashes a text ends with. -/
def slashes (cs : List Char) : Nat :=
  (cs.reverse.takeWhile (· = '\\')).length

/-! ### Reading -/

theorem unescape_escaped (h : Escape letter c) (body : List Char) :
    unescape ('\\' :: letter :: body) = c :: unescape body := by
  cases h <;> rfl

theorem unescape_plain (h : c ≠ '\\') (body : List Char) :
    unescape (c :: body) = c :: unescape body := by
  simp [unescape, h]

theorem unescape_kept (h : ∀ d, ¬ Escape c d) (body : List Char) :
    unescape ('\\' :: c :: body) = '\\' :: c :: unescape body := by
  have hn : c ≠ 'n' := by
    rintro rfl
    exact h _ .newline
  have ht : c ≠ 't' := by
    rintro rfl
    exact h _ .tab
  have hr : c ≠ 'r' := by
    rintro rfl
    exact h _ .carriageReturn
  have hb : c ≠ '\\' := by
    rintro rfl
    exact h _ .backslash
  have hq : c ≠ '"' := by
    rintro rfl
    exact h _ .quote
  rw [← unescape_plain hb]
  simp [unescape, hn, ht, hr, hb, hq]

theorem Decodes.eq_unescape (h : Decodes body text) : text = unescape body := by
  induction h with
  | nil => rfl
  | plain _ hc _ ih => rw [unescape_plain hc, ih]
  | escaped he _ ih => rw [unescape_escaped he, ih]
  | kept hc _ ih => rw [unescape_kept hc, ih]

/-- Everything that may stand between two quotes can be read. -/
theorem Quoted.decodes (h : Quoted body) : Decodes body (unescape body) := by
  induction h with
  | nil => exact .nil
  | plain hquote hslash _ ih =>
    rw [unescape_plain hslash]
    exact .plain hquote hslash ih
  | @escaped c body _ ih =>
    by_cases hc : ∃ d, Escape c d
    · obtain ⟨d, hd⟩ := hc
      rw [unescape_escaped hd]
      exact .escaped hd ih
    · have hnone : ∀ d, ¬ Escape c d := not_exists.1 hc
      rw [unescape_kept hnone]
      exact .kept hnone ih

theorem Quoted.decodes_iff (h : Quoted body) : Decodes body text ↔ text = unescape body := by
  constructor
  · exact Decodes.eq_unescape
  · rintro rfl
    exact h.decodes

/-! ### Writing -/

theorem Encodes.quoted (h : Encodes text body) : Quoted body := by
  induction h with
  | nil => exact .nil
  | plain hquote hslash _ ih => exact .plain hquote hslash ih
  | escaped _ _ ih => exact .escaped ih

/-- What was written is read back. -/
theorem Encodes.decodes (h : Encodes text body) : Decodes body text := by
  induction h with
  | nil => exact .nil
  | plain hquote hslash _ ih => exact .plain hquote hslash ih
  | escaped he _ ih => exact .escaped he ih

/-- Every text can be written between quotes. -/
theorem exists_encodes (text : List Char) : ∃ body, Encodes text body := by
  induction text with
  | nil => exact ⟨[], .nil⟩
  | cons c text ih =>
    obtain ⟨body, hbody⟩ := ih
    by_cases hc : ∃ letter, Escape letter c
    · obtain ⟨letter, hletter⟩ := hc
      exact ⟨_, .escaped hletter hbody⟩
    · refine ⟨_, .plain ?_ ?_ hbody⟩
      · rintro rfl
        exact hc ⟨_, .quote⟩
      · rintro rfl
        exact hc ⟨_, .backslash⟩

/-! ### Closing quotes -/

theorem slashes_cons (h : c ≠ '\\') (cs : List Char) : slashes (c :: cs) = slashes cs := by
  rw [slashes, List.reverse_cons, takeWhile_append_stop (by simpa using h), slashes]

/-- A backslash and the character behind it, put in front of a text, leave the number of those that
it ends with even or odd. -/
theorem even_slashes_pair (c : Char) (cs : List Char) :
    Even (slashes ('\\' :: c :: cs)) ↔ Even (slashes cs) := by
  have hreverse : ('\\' :: c :: cs).reverse = cs.reverse ++ c :: ['\\'] := by simp
  rw [slashes, slashes, hreverse]
  by_cases hc : c = '\\'
  · subst hc
    rw [List.takeWhile_append]
    split
    · next hall => simp [hall, Nat.even_add_one]
    · rfl
  · rw [takeWhile_append_stop (by simpa using hc)]

/-- No backslash is left over before the quote that closes a string. -/
theorem Quoted.even_slashes (h : Quoted body) : Even (slashes body) := by
  induction h with
  | nil => exact Even.zero
  | plain _ hslash _ ih => rwa [slashes_cons hslash]
  | escaped _ ih => rwa [even_slashes_pair]

/-- Before every quote within a string there is one. -/
theorem Quoted.odd_slashes (h : Quoted body) {before after : List Char}
    (heq : body = before ++ '"' :: after) : Odd (slashes before) := by
  induction h generalizing before with
  | nil => simp at heq
  | @plain c body hquote hslash _ ih =>
    cases before with
    | nil => exact (hquote (List.cons.inj heq).1).elim
    | cons d before =>
      obtain ⟨rfl, hrest⟩ := List.cons.inj heq
      rw [slashes_cons hslash]
      exact ih hrest
  | @escaped c body _ ih =>
    rcases before with _ | ⟨d, _ | ⟨e, before⟩⟩
    · cases (List.cons.inj heq).1
    · obtain ⟨rfl, -⟩ := List.cons.inj heq
      decide
    · obtain ⟨rfl, hbehind⟩ := List.cons.inj heq
      obtain ⟨rfl, hrest⟩ := List.cons.inj hbehind
      rw [← Nat.not_even_iff_odd, even_slashes_pair, Nat.not_even_iff_odd]
      exact ih hrest

/-! ### Scanning -/

/-- A lexeme that means a text is what stands between two quotes, with these. -/
theorem Lexeme.string_inv {value : String} (h : Lexeme cs (.string value)) :
    ∃ body, Quoted body ∧ cs = '"' :: body ++ ['"'] ∧ value.toList = unescape body := by
  generalize hkind : Kind.string value = kind at h
  cases h with
  | @string body hbody =>
    cases hkind
    exact ⟨body, hbody, rfl, String.toList_ofList⟩
  | word =>
    unfold kindOfWord at hkind
    split at hkind <;> cases hkind
  | _ => cases hkind

/-- What may stand between quotes, with the quotes, is one token. -/
theorem scan_of_quoted (h : Quoted body) : scan (String.ofList ('"' :: body ++ ['"'])) =
    .ok [placed [] ('"' :: body ++ ['"']) (.string (String.ofList (unescape body))),
      finishAt ('"' :: body ++ ['"'])] := by
  have hsolid : Solid ('"' :: body ++ ['"'] ++ []) := solid_of_takeGap? rfl
  have hlongest : Longest ('"' :: body ++ ['"'] ++ []) ('"' :: body ++ ['"'])
      (.string (String.ofList (unescape body))) := by
    have hfront := longest_of_front (front_of_quoted (takeQuoted?_of_quoted h []))
    rwa [List.append_nil]
  have hend : Cut [] ([] ++ [] ++ ('"' :: body ++ ['"'])) ([] ++ []) [] := .done .nil .nil
  have hcut := Cut.token .nil hsolid hlongest hend
  rw [List.nil_append, List.append_nil, List.nil_append,
    ← String.toList_ofList (l := '"' :: body ++ ['"'])] at hcut
  rw [scan_of_cut hcut, String.toList_ofList]
  rfl

/-- Whichever way a text is written between quotes, it is read back from there, and it can be
written. Every string in a text means what stands between its quotes with the escapes replaced from
left to right. The quote that ends it is the first one behind an even number of backslashes: one
behind an odd number never ends it, and one behind an even number always does. -/
theorem strings_decoded :
    (∀ text body, Encodes text body → scan (String.ofList ('"' :: body ++ ['"'])) =
      .ok [placed [] ('"' :: body ++ ['"']) (.string (String.ofList text)),
        finishAt ('"' :: body ++ ['"'])]) ∧
    (∀ text, ∃ body, Encodes text body) ∧
    ∀ source tokens, scan source = .ok tokens → ∀ t ∈ tokens, ∀ value, t.kind = .string value →
      ∃ body, t.lexeme.toList = '"' :: body ++ ['"'] ∧
        (∀ text, Decodes body text ↔ text = value.toList) ∧ Even (slashes body) ∧
        ∀ before after, body = before ++ '"' :: after → Odd (slashes before) := by
  refine ⟨fun text body h => ?_, exists_encodes, fun source tokens h t ht value hvalue => ?_⟩
  · rw [h.decodes.eq_unescape]
    exact scan_of_quoted h.quoted
  · obtain ⟨ts, hcut, rfl⟩ := cut_of_scan h
    have hmem : t ∈ ts := by
      rcases List.mem_append.1 ht with ht | ht
      · exact ht
      · obtain rfl := List.mem_singleton.1 ht
        cases hvalue
    have hmeans := hcut.means t hmem
    rw [hvalue] at hmeans
    obtain ⟨body, hbody, hlexeme, hdecoded⟩ := hmeans.string_inv
    refine ⟨body, hlexeme, fun text => ?_, hbody.even_slashes, fun _ _ => hbody.odd_slashes⟩
    rw [hdecoded]
    exact hbody.decodes_iff

/-- A quote, a backslash, a raw line break and a tab between quotes. -/
def escapedBody : List Char :=
  "\\\"\\\\\n\\t".toList

theorem encodes_escapedBody : Encodes "\"\\\n\t".toList escapedBody := by
  have hsplit : escapedBody = ['\\', '"', '\\', '\\', '\n', '\\', 't'] := by decide +kernel
  rw [hsplit]
  exact .escaped .quote (.escaped .backslash (.plain (by decide) (by decide) (.escaped .tab .nil)))

/-- A backslash before the quote that ends a string, and one before a letter that has no escape. -/
def slashedText : String :=
  "\"\\q\\\\\""

theorem strings_decoded_slashedText :
    scan (String.ofList ('"' :: escapedBody ++ ['"'])) =
      .ok [placed [] ('"' :: escapedBody ++ ['"']) (.string (String.ofList "\"\\\n\t".toList)),
        finishAt ('"' :: escapedBody ++ ['"'])] ∧
    ∃ body, slashedText.toList = '"' :: body ++ ['"'] ∧
      (∀ text, Decodes body text ↔ text = "\\q\\".toList) ∧ Even (slashes body) ∧
      ∀ before after, body = before ++ '"' :: after → Odd (slashes before) := by
  have hscan : scan slashedText = .ok [⟨.string "\\q\\", ⟨0, 6, 1, 1⟩, slashedText⟩,
      ⟨.finish, ⟨6, 6, 1, 7⟩, ""⟩] := by
    decide +kernel
  exact ⟨strings_decoded.1 _ _ encodes_escapedBody,
    strings_decoded.2.2 _ _ hscan _ List.mem_cons_self _ rfl⟩

end Vibe.Token
