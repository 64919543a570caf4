import Mathlib.Data.List.TakeWhile
import Vibe.Token.Scan

/-! Lexemes: the numbers, strings, words and operators of the language, what each of them means,
and that the longest one at the front of a text is found. -/

namespace Vibe.Token

variable {c : Char} {r cs text body body' lexeme rest rest' whole fraction v w : List Char}
  {kind kind' : Kind}

/-- What may stand between two quotes: no quote by itself, and behind every backslash one more
character. -/
inductive Quoted : List Char → Prop
  | nil : Quoted []
  | plain {c : Char} {body : List Char} : c ≠ '"' → c ≠ '\\' → Quoted body → Quoted (c :: body)
  | escaped {c : Char} {body : List Char} : Quoted body → Quoted ('\\' :: c :: body)

/-- The written forms of tokens, each with what it means. -/
inductive Lexeme : List Char → Kind → Prop
  | number {whole : List Char} : whole ≠ [] → (∀ c ∈ whole, c.isDigit = true) →
      Lexeme whole (.number (Numeral.ofDigits whole []).toFloat)
  | decimal {whole fraction : List Char} : whole ≠ [] → (∀ c ∈ whole, c.isDigit = true) →
      fraction ≠ [] → (∀ c ∈ fraction, c.isDigit = true) →
      Lexeme (whole ++ '.' :: fraction) (.number (Numeral.ofDigits whole fraction).toFloat)
  | string {body : List Char} : Quoted body →
      Lexeme ('"' :: body ++ ['"']) (.string (String.ofList (unescape body)))
  | word {c : Char} {rest : List Char} : isNameStart c = true → (∀ d ∈ rest, isNamePart d = true) →
      Lexeme (c :: rest) (kindOfWord (String.ofList (c :: rest)))
  | operator (s : Symbol) : Lexeme s.text.toList (.symbol s)
  | bang : Lexeme ['!'] (.keyword .not)

/-- The longest lexeme at the front of a text. -/
structure Longest (text lexeme : List Char) (kind : Kind) : Prop where
  means : Lexeme lexeme kind
  front : lexeme <+: text
  length_le : ∀ v k, Lexeme v k → v <+: text → v.length ≤ lexeme.length

/-! ### How lexemes begin -/

/-- No operator begins as a word, a number or a string does. -/
theorem takeOperator?_head {x : Kind × List Char × List Char}
    (h : takeOperator? (c :: r) = some x) :
    isNameStart c = false ∧ c.isDigit = false ∧ c ≠ '"' := by
  unfold takeOperator? at h
  split at h
  case h_5 hcs =>
    obtain ⟨rfl, rfl⟩ := List.cons.inj hcs
    dsimp only at h
    split at h
    case h_18 => cases h
    all_goals decide
  case h_6 => cases h
  all_goals
    next hcs =>
      obtain ⟨rfl, -⟩ := List.cons.inj hcs
      decide

theorem toNat_of_isDigit (h : c.isDigit = true) : 48 ≤ c.toNat ∧ c.toNat ≤ 57 := by
  obtain ⟨hlow, hhigh⟩ := Bool.and_eq_true_iff.1 h
  exact ⟨UInt32.le_iff_toNat_le.1 (of_decide_eq_true hlow),
    UInt32.le_iff_toNat_le.1 (of_decide_eq_true hhigh)⟩

theorem toNat_of_isAlpha (h : c.isAlpha = true) : 65 ≤ c.toNat := by
  rcases Bool.or_eq_true_iff.1 h with hupper | hlower
  · exact UInt32.le_iff_toNat_le.1 (of_decide_eq_true hupper).1
  · have hlow : 97 ≤ c.toNat :=
      UInt32.le_iff_toNat_le.1 (of_decide_eq_true (Bool.and_eq_true_iff.1 hlower).1)
    omega

theorem not_isNameStart_of_isDigit (h : c.isDigit = true) : isNameStart c = false := by
  obtain ⟨hlow, hhigh⟩ := toNat_of_isDigit h
  have hword : ¬ c = '_' := by
    rintro rfl
    revert h
    decide
  have halpha : ¬ c.isAlpha = true := by
    intro halpha
    have := toNat_of_isAlpha halpha
    omega
  have hascii : c.toNat < 128 := by omega
  simp [isNameStart, Text.isLetter, hword, halpha, hascii]

theorem takeOperator?_eq_none (h : isNameStart c = true ∨ c.isDigit = true ∨ c = '"') :
    takeOperator? (c :: r) = none := by
  cases ho : takeOperator? (c :: r) with
  | none => rfl
  | some x =>
    obtain ⟨hword, hdigit, hquote⟩ := takeOperator?_head ho
    rcases h with h | h | h
    · rw [hword] at h
      cases h
    · rw [hdigit] at h
      cases h
    · exact (hquote h).elim

theorem front_of_operator (h : takeOperator? (c :: r) = some (kind, lexeme, rest)) :
    front c r = .token kind lexeme rest := by
  simp [front, h]

theorem front_of_quoted (h : takeQuoted? r = some (body, rest)) :
    front '"' r = .token (.string (String.ofList (unescape body))) ('"' :: body ++ ['"']) rest := by
  simp [front, takeOperator?_eq_none, h]

theorem front_of_digit (h : c.isDigit = true) : front c r =
    .token (.number (takeNumber (c :: r)).1.toFloat) (takeNumber (c :: r)).2.1
      (takeNumber (c :: r)).2.2 := by
  have hquote : ¬ c = '"' := by
    rintro rfl
    cases h
  simp [front, takeOperator?_eq_none (.inr (.inl h)), hquote, h]

theorem front_of_nameStart (h : isNameStart c = true) : front c r =
    .token (kindOfWord (String.ofList ((c :: r).takeWhile isNamePart)))
      ((c :: r).takeWhile isNamePart) ((c :: r).dropWhile isNamePart) := by
  have hquote : ¬ c = '"' := by
    rintro rfl
    revert h
    decide
  have hdigit : ¬ c.isDigit = true := by
    intro hdigit
    rw [not_isNameStart_of_isDigit hdigit] at h
    cases h
  simp [front, takeOperator?_eq_none (.inl h), hquote, hdigit, h]

/-! ### What is found is a lexeme -/

theorem Lexeme.ofSymbol (s : Symbol) (h : s.text.toList = lexeme) :
    Lexeme lexeme (.symbol s) := by
  subst h
  exact .operator s

theorem lexeme_of_takeOperator? (h : takeOperator? cs = some (kind, lexeme, rest)) :
    Lexeme lexeme kind := by
  unfold takeOperator? at h
  split at h
  case h_5 =>
    dsimp only at h
    split at h <;> cases h
    case h_2 => exact .bang
    all_goals exact .ofSymbol _ rfl
  case h_6 => cases h
  all_goals
    cases h
    exact .ofSymbol _ rfl

theorem quoted_of_takeQuoted? (h : takeQuoted? cs = some (body, rest)) : Quoted body := by
  fun_induction takeQuoted? cs generalizing body with
  | case1 => cases h
  | case2 r =>
    cases h
    exact .nil
  | case3 c r ih =>
    obtain ⟨⟨b, q⟩, hq, he⟩ := Option.map_eq_some_iff.1 h
    cases he
    exact .escaped (ih hq)
  | case4 c r hquote hslash ih =>
    obtain ⟨⟨b, q⟩, hq, he⟩ := Option.map_eq_some_iff.1 h
    cases he
    refine .plain ?_ ?_ (ih hq)
    · rintro rfl
      exact hquote rfl
    · rintro rfl
      cases r with
      | nil => cases hq
      | cons d r => exact hslash d r rfl rfl

theorem lexeme_of_takeNumber (h : c.isDigit = true) :
    Lexeme (takeNumber (c :: r)).2.1 (.number (takeNumber (c :: r)).1.toFloat) := by
  have hwhole : (c :: r).takeWhile Char.isDigit ≠ [] := by simp [h]
  have hdigits : ∀ d ∈ (c :: r).takeWhile Char.isDigit, d.isDigit = true :=
    fun d hd => List.mem_takeWhile_imp hd
  unfold takeNumber
  split
  · next d t _ =>
    split
    · next hd =>
      exact .decimal hwhole hdigits (by simp [hd]) fun d hd => List.mem_takeWhile_imp hd
    · exact .number hwhole hdigits
  · exact .number hwhole hdigits

theorem lexeme_of_front (h : front c r = .token kind lexeme rest) : Lexeme lexeme kind := by
  unfold front at h
  split at h
  · next ho =>
    cases h
    exact lexeme_of_takeOperator? ho
  · split at h
    · split at h
      · next hq =>
        cases h
        exact .string (quoted_of_takeQuoted? hq)
      · cases h
    · split at h
      · next hd =>
        cases h
        exact lexeme_of_takeNumber hd
      · split at h
        · next hs =>
          cases h
          rw [List.takeWhile_cons_of_pos (isNamePart_of_isNameStart hs)]
          exact .word hs fun d hd => List.mem_takeWhile_imp hd
        · cases h

/-! ### Every lexeme is found -/

theorem takeOperator?_cons (h : takeOperator? [c] = some (kind, [c], [])) (t : List Char) :
    ∃ kind' lexeme rest, takeOperator? (c :: t) = some (kind', lexeme, rest) ∧
      1 ≤ lexeme.length ∧ (lexeme = [c] → kind' = kind) := by
  by_cases hlong : c = '=' ∨ c = '!' ∨ c = '<' ∨ c = '>'
  · rcases t with _ | ⟨d, t⟩
    · exact ⟨kind, [c], [], h, Nat.le_refl _, fun _ => rfl⟩
    · by_cases hd : d = '='
      · subst hd
        rcases hlong with rfl | rfl | rfl | rfl
        all_goals exact ⟨_, _, _, rfl, by simp, by simp⟩
      · refine ⟨kind, [c], d :: t, ?_, Nat.le_refl _, fun _ => rfl⟩
        rcases hlong with rfl | rfl | rfl | rfl
        all_goals
          cases h
          simp [takeOperator?, hd]
  · refine ⟨kind, [c], t, ?_, Nat.le_refl _, fun _ => rfl⟩
    unfold takeOperator? at h
    split at h
    case h_5 hcs =>
      obtain ⟨rfl, rfl⟩ := List.cons.inj hcs
      dsimp only at h
      split at h <;> cases h <;> first | rfl | simp at hlong
    case h_6 hcs => cases hcs
    all_goals
      next hcs => cases hcs

/-- An operator is found unless a longer one stands there. -/
theorem takeOperator?_longer (h : takeOperator? w = some (kind, w, [])) (t : List Char) :
    ∃ kind' lexeme rest, takeOperator? (w ++ t) = some (kind', lexeme, rest) ∧
      w.length ≤ lexeme.length ∧ (lexeme = w → kind' = kind) := by
  rcases w with _ | ⟨c, _ | ⟨d, w⟩⟩
  · cases h
  · exact takeOperator?_cons h t
  · unfold takeOperator? at h
    split at h
    case h_5 hcs =>
      obtain ⟨rfl, rfl⟩ := List.cons.inj hcs
      dsimp only at h
      split at h <;> cases h
    case h_6 hcs => cases hcs
    all_goals
      next hcs =>
        cases hcs
        cases h
        exact ⟨_, _, _, rfl, Nat.le_refl _, fun _ => rfl⟩

/-- A closed string is found up to the quote that closes it. -/
theorem takeQuoted?_of_quoted (h : Quoted body) (t : List Char) :
    takeQuoted? (body ++ '"' :: t) = some (body, t) := by
  induction h with
  | nil => rfl
  | plain hquote hslash _ ih => simp [takeQuoted?, hslash, ih]
  | escaped _ ih => simp [takeQuoted?, ih]

/-- Digits are found with all digits behind them. -/
theorem takeNumber_number (h : ∀ d ∈ whole, d.isDigit = true) (t : List Char) :
    whole.length ≤ (takeNumber (whole ++ t)).2.1.length ∧
      ((takeNumber (whole ++ t)).2.1 = whole →
        (takeNumber (whole ++ t)).1 = .ofDigits whole []) := by
  have hall : (whole ++ t).takeWhile Char.isDigit = whole ++ t.takeWhile Char.isDigit :=
    List.takeWhile_append_of_pos h
  have hlength : whole.length ≤ ((whole ++ t).takeWhile Char.isDigit).length := by simp [hall]
  unfold takeNumber
  split
  · split
    · refine ⟨Nat.le_trans hlength (by simp), fun heq => ?_⟩
      have := congrArg List.length heq
      simp only [List.length_append, List.length_cons] at this
      omega
    · exact ⟨hlength, fun heq => congrArg (Numeral.ofDigits · []) heq⟩
  · exact ⟨hlength, fun heq => congrArg (Numeral.ofDigits · []) heq⟩

/-- Digits with a point among them are found with all digits behind them. -/
theorem takeNumber_decimal (hwhole : ∀ d ∈ whole, d.isDigit = true) (hne : fraction ≠ [])
    (hfraction : ∀ d ∈ fraction, d.isDigit = true) (t : List Char) :
    takeNumber (whole ++ '.' :: (fraction ++ t)) =
      (.ofDigits whole (fraction ++ t.takeWhile Char.isDigit),
        whole ++ '.' :: (fraction ++ t.takeWhile Char.isDigit), t.dropWhile Char.isDigit) := by
  obtain ⟨d, rest, rfl⟩ := List.exists_cons_of_ne_nil hne
  have hd : d.isDigit = true := hfraction d List.mem_cons_self
  have htake : (whole ++ '.' :: (d :: rest ++ t)).takeWhile Char.isDigit = whole := by
    rw [List.takeWhile_append_of_pos hwhole, List.takeWhile_cons_of_neg (by decide),
      List.append_nil]
  have hdrop : (whole ++ '.' :: (d :: rest ++ t)).dropWhile Char.isDigit =
      '.' :: (d :: rest ++ t) := by
    rw [List.dropWhile_append_of_pos hwhole, List.dropWhile_cons_of_neg (by decide)]
  rw [← List.takeWhile_append_of_pos hfraction, ← List.dropWhile_append_of_pos hfraction]
  unfold takeNumber
  rw [hdrop, htake]
  exact if_pos hd

/-- Where a lexeme stands, one is found: this one or a longer one. -/
theorem front_of_lexeme (h : Lexeme v kind') (t : List Char) (ht : v ++ t = c :: r) :
    ∃ kind lexeme rest, front c r = .token kind lexeme rest ∧ v.length ≤ lexeme.length ∧
      (lexeme = v → kind = kind') := by
  have hoperator : ∀ {k}, takeOperator? v = some (k, v, []) → ∃ kind lexeme rest,
      front c r = .token kind lexeme rest ∧ v.length ≤ lexeme.length ∧
        (lexeme = v → kind = k) := by
    intro k hk
    obtain ⟨kind, lexeme, rest, hfind, hlonger⟩ := takeOperator?_longer hk t
    rw [ht] at hfind
    exact ⟨kind, lexeme, rest, front_of_operator hfind, hlonger⟩
  cases h with
  | number hne hdigits =>
    obtain ⟨d, whole, rfl⟩ := List.exists_cons_of_ne_nil hne
    obtain ⟨rfl, rfl⟩ := List.cons.inj ht
    obtain ⟨hlength, hvalue⟩ := takeNumber_number hdigits t
    refine ⟨_, _, _, front_of_digit (hdigits d List.mem_cons_self), hlength, fun heq => ?_⟩
    exact congrArg (fun n => Kind.number (Numeral.toFloat n)) (hvalue heq)
  | @decimal whole fraction hne hdigits hfne hfraction =>
    obtain ⟨d, whole, rfl⟩ := List.exists_cons_of_ne_nil hne
    obtain ⟨rfl, rfl⟩ := List.cons.inj ht
    have hfind := takeNumber_decimal hdigits hfne hfraction t
    have hfront := front_of_digit (r := whole ++ '.' :: fraction ++ t)
      (hdigits d List.mem_cons_self)
    have hcs : d :: (whole ++ '.' :: fraction ++ t) = d :: whole ++ '.' :: (fraction ++ t) := by
      simp
    rw [hcs, hfind] at hfront
    refine ⟨_, _, _, hfront, by simp, fun heq => ?_⟩
    have hnone : t.takeWhile Char.isDigit = [] := by simpa using heq
    rw [hnone, List.append_nil]
  | @string body hbody =>
    have hcs : '"' :: (body ++ '"' :: t) = c :: r := by simpa using ht
    obtain ⟨rfl, rfl⟩ := List.cons.inj hcs
    have hfind := takeQuoted?_of_quoted hbody t
    exact ⟨_, _, _, front_of_quoted hfind, Nat.le_refl _, fun _ => rfl⟩
  | @word d rest hstart hpart =>
    obtain ⟨rfl, rfl⟩ := List.cons.inj ht
    have hall : ∀ e ∈ d :: rest, isNamePart e = true := by
      rintro e (_ | ⟨_, he⟩)
      · exact isNamePart_of_isNameStart hstart
      · exact hpart e he
    have hlength : (d :: rest).length ≤ ((d :: rest ++ t).takeWhile isNamePart).length := by
      rw [List.takeWhile_append_of_pos hall]
      simp
    exact ⟨_, _, _, front_of_nameStart hstart, hlength, fun heq => by rw [heq]⟩
  | operator s => exact hoperator (by cases s <;> rfl)
  | bang => exact hoperator rfl

theorem Lexeme.ne_nil (h : Lexeme v kind) : v ≠ [] := by
  cases h with
  | number hne _ => exact hne
  | operator s => cases s <;> decide
  | _ => simp

/-- No lexeme means the end of the input. -/
theorem Lexeme.kind_ne_finish (h : Lexeme v kind) : kind ≠ .finish := by
  cases h with
  | word =>
    unfold kindOfWord
    split <;> simp
  | _ => simp

/-- What is found at the front of a text is the longest lexeme there. -/
theorem longest_of_front (h : front c r = .token kind lexeme rest) :
    Longest (c :: r) lexeme kind where
  means := lexeme_of_front h
  front := ⟨rest, (front_token h).1⟩
  length_le := by
    rintro v k hv ⟨t, ht⟩
    obtain ⟨kind', lexeme', rest', hfront, hlength, -⟩ := front_of_lexeme hv t ht
    rw [h] at hfront
    cases hfront
    exact hlength

/-- A lexeme means one thing only. -/
theorem Lexeme.kind_unique (h : Lexeme v kind) (h' : Lexeme v kind') : kind = kind' := by
  obtain ⟨c, r, rfl⟩ := List.exists_cons_of_ne_nil h.ne_nil
  have hwhole : c :: r ++ [] = c :: r := List.append_nil _
  obtain ⟨k, lexeme, rest, hfront, hlength, hkind⟩ := front_of_lexeme h [] hwhole
  obtain ⟨k', lexeme', rest', hfront', -, hkind'⟩ := front_of_lexeme h' [] hwhole
  rw [hfront] at hfront'
  cases hfront'
  have hle := (longest_of_front hfront).front
  have heq := hle.eq_of_length (Nat.le_antisymm hle.length_le hlength)
  rw [← hkind heq, ← hkind' heq]

/-- Where a longest lexeme stands, it is found. -/
theorem front_of_longest (h : Longest (c :: r) lexeme kind) (hrest : lexeme ++ rest = c :: r) :
    front c r = .token kind lexeme rest := by
  obtain ⟨kind', lexeme', rest', hfront, hlength, hkind⟩ := front_of_lexeme h.means rest hrest
  have hfound := longest_of_front hfront
  have hle := h.length_le lexeme' kind' hfound.means hfound.front
  have hsame := List.prefix_of_prefix_length_le hfound.front h.front hle
  obtain rfl := hsame.eq_of_length (Nat.le_antisymm hle hlength)
  obtain rfl := hkind rfl
  have happend := (front_token hfront).1
  rw [hfront, List.append_cancel_left (happend.trans hrest.symm)]

/-! ### Where no lexeme begins -/

/-- No lexeme stands at the front of the text. -/
def Blocked (text : List Char) : Prop :=
  ∀ v k, Lexeme v k → ¬ v <+: text

theorem blocked_iff :
    Blocked (c :: r) ↔ ∀ kind lexeme rest, front c r ≠ .token kind lexeme rest := by
  constructor
  · intro h kind lexeme rest hfront
    have hfound := longest_of_front hfront
    exact h lexeme kind hfound.means hfound.front
  · rintro h v k hv ⟨t, ht⟩
    obtain ⟨kind, lexeme, rest, hfront, -⟩ := front_of_lexeme hv t ht
    exact h kind lexeme rest hfront

/-- No lexeme begins with a quote that nothing closes. -/
theorem blocked_quote :
    Blocked ('"' :: r) ↔ ∀ body rest, Quoted body → r ≠ body ++ '"' :: rest := by
  constructor
  · rintro h body rest hbody rfl
    exact h _ _ (.string hbody) ⟨rest, by simp⟩
  · intro h
    refine blocked_iff.2 fun kind lexeme rest hfront => ?_
    simp only [front, takeOperator?_eq_none (.inr (.inr rfl)), if_pos] at hfront
    split at hfront
    · next body rest hq =>
      exact h body rest (quoted_of_takeQuoted? hq) (takeQuoted?_append hq).symm
    · cases hfront

/-- Where no lexeme begins, a quote is open or a character is astray. -/
theorem front_of_blocked (h : Blocked (c :: r)) :
    front c r = if c = '"' then .openQuote else .stray c := by
  have hfront := blocked_iff.1 h
  unfold front at hfront ⊢
  split at hfront
  · exact (hfront _ _ _ rfl).elim
  · split at hfront
    · next hquote =>
      split at hfront
      · exact (hfront _ _ _ rfl).elim
      · simp [hquote]
    · next hquote =>
      split at hfront
      · exact (hfront _ _ _ rfl).elim
      · next hdigit =>
        split at hfront
        · exact (hfront _ _ _ rfl).elim
        · next hword => simp [hquote, hdigit, hword]

/-! ### Strings, and lexemes that are none -/

theorem not_isNamePart_of_isSpace (h : isSpace c = true) : isNamePart c = false := by
  simp only [isSpace, Bool.or_eq_true, decide_eq_true_eq] at h
  rcases h with ((rfl | rfl) | rfl) | rfl <;> decide

theorem not_isDigit_of_isSpace (h : isSpace c = true) : c.isDigit = false := by
  simp only [isSpace, Bool.or_eq_true, decide_eq_true_eq] at h
  rcases h with ((rfl | rfl) | rfl) | rfl <;> decide

theorem symbol_not_isSpace (s : Symbol) : ∀ c ∈ s.text.toList, isSpace c = false := by
  cases s <;> simp [Symbol.text, isSpace]

/-- No lexeme but a string has a space in it. -/
theorem Lexeme.exists_quote (h : Lexeme v kind) (hc : c ∈ v) (hspace : isSpace c = true) :
    ∃ body, Quoted body ∧ v = '"' :: body ++ ['"'] := by
  have hpart := Bool.eq_false_iff.1 (not_isNamePart_of_isSpace hspace)
  have hdigit := Bool.eq_false_iff.1 (not_isDigit_of_isSpace hspace)
  cases h with
  | number _ hdigits => exact (hdigit (hdigits c hc)).elim
  | @decimal whole fraction _ hdigits _ hfraction =>
    rcases List.mem_append.1 hc with hc | hc
    · exact (hdigit (hdigits c hc)).elim
    · rcases List.mem_cons.1 hc with rfl | hc
      · cases hspace
      · exact (hdigit (hfraction c hc)).elim
  | string hbody => exact ⟨_, hbody, rfl⟩
  | @word d rest hstart hrest =>
    rcases List.mem_cons.1 hc with rfl | hc
    · exact (hpart (isNamePart_of_isNameStart hstart)).elim
    · exact (hpart (hrest c hc)).elim
  | operator s =>
    rw [symbol_not_isSpace s c hc] at hspace
    cases hspace
  | bang =>
    rw [List.mem_singleton.1 hc] at hspace
    cases hspace

/-- A lexeme that begins with a quote is a string. -/
theorem Lexeme.quoted (h : Lexeme ('"' :: r) kind) : ∃ body, Quoted body ∧ r = body ++ ['"'] := by
  generalize heq : '"' :: r = v at h
  cases h with
  | number _ hdigits => cases hdigits '"' (heq ▸ List.mem_cons_self)
  | @decimal whole fraction hne hdigits _ _ =>
    obtain ⟨d, whole, rfl⟩ := List.exists_cons_of_ne_nil hne
    obtain ⟨rfl, -⟩ := List.cons.inj heq
    cases hdigits '"' List.mem_cons_self
  | @string body hbody => exact ⟨body, hbody, (List.cons.inj heq).2⟩
  | word hstart =>
    obtain ⟨rfl, -⟩ := List.cons.inj heq
    have hnot : isNameStart '"' = false := by decide
    rw [hnot] at hstart
    cases hstart
  | operator s => cases s <;> cases heq
  | bang => cases heq

/-- The quote that closes a string is found, whatever stands behind it. -/
theorem Quoted.unique (h : Quoted body) (h' : Quoted body')
    (heq : body ++ '"' :: rest = body' ++ '"' :: rest') : body = body' := by
  have hfind := takeQuoted?_of_quoted h rest
  rw [heq, takeQuoted?_of_quoted h' rest'] at hfind
  exact (Prod.mk.inj (Option.some.inj hfind)).1.symm

end Vibe.Token
