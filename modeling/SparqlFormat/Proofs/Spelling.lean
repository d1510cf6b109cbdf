import SparqlFormat.Lexeme.Stream
import SparqlFormat.Proofs.Literals
import SparqlFormat.Proofs.Numbers

/-!
# Spellings of tokens

`Spells pointFirst t s` says that the characters `s` are a spelling of the token `t`: blanks
between empty brackets, either sigil, words in either case and the white space around a comment's
body are all that two spellings of one token can differ in.

`first` and `Spells` agree. What `first` reads at the head of a text is a spelling
(`spells_of_first`), and a spelling is read back in front of every text that does not go on with
it (`first_of_spells`). `Token.absorbs` is the exact look-ahead of the second statement: it says
which texts right after a token would be read together with it.
-/

namespace SparqlFormat

open Lexeme

/-! ## White space around a comment -/

/-- A text without white space at its ends is left as it is. -/
lemma trim_eq_self {cs : List Char} (start : cs.head?.any isWhiteSpace = false)
    (stop : cs.getLast?.any isWhiteSpace = false) : trim cs = cs := by
  have keep : ∀ xs : List Char, xs.head?.any isWhiteSpace = false →
      xs.dropWhile isWhiteSpace = xs := fun xs h =>
    dropWhile_append_stop (w := []) (by simp) h
  rw [trim, keep cs start, keep cs.reverse (by rwa [List.head?_reverse]), List.reverse_reverse]

/-- What is left of a text starts with a visible character, if anything is left. -/
lemma head?_dropWhile_any (p : Char → Bool) (cs : List Char) :
    (cs.dropWhile p).head?.any p = false := by
  have h := List.head?_dropWhile_not p cs
  cases hd : (cs.dropWhile p).head? with
  | none => rfl
  | some c => simpa [hd] using h

lemma getLast?_trim (cs : List Char) : (trim cs).getLast?.any isWhiteSpace = false := by
  rw [trim, List.getLast?_reverse]
  exact head?_dropWhile_any _ _

lemma trim_isPrefix (cs : List Char) : trim cs <+: cs.dropWhile isWhiteSpace := by
  rw [trim, ← List.reverse_suffix, List.reverse_reverse]
  exact List.dropWhile_suffix _

lemma head?_trim (cs : List Char) : (trim cs).head?.any isWhiteSpace = false := by
  obtain ⟨rest, hrest⟩ := trim_isPrefix cs
  have h := head?_dropWhile_any isWhiteSpace cs
  rw [← hrest] at h
  cases hc : trim cs with
  | nil => rfl
  | cons c more => simpa [hc] using h

/-- White space in front of a text is trimmed. -/
lemma trim_cons {c : Char} (white : isWhiteSpace c = true) (cs : List Char) :
    trim (c :: cs) = trim cs := by
  rw [trim, trim, List.dropWhile_cons_of_pos white]

@[simp] lemma trim_trim (cs : List Char) : trim (trim cs) = trim cs :=
  trim_eq_self (head?_trim cs) (getLast?_trim cs)

lemma mem_of_mem_trim {cs : List Char} {c : Char} (mem : c ∈ trim cs) : c ∈ cs :=
  (List.dropWhile_suffix _).subset ((trim_isPrefix cs).subset mem)

/-! ## Look-ahead -/

/-- Whether the text right after a mark would be read together with it. -/
def Mark.absorbs (pointFirst : Bool) : Mark → List Char → Bool
  | .openParen, k => (k.dropWhile isBlank).head? == some ')'
  | .openBracket, k => (k.dropWhile isBlank).head? == some ']'
  | .bang, k => k.head? == some '='
  | .caret, k => k.head? == some '^'
  | .above, k => k.head? == some '='
  | .bar, k => k.head? == some '|'
  | .below, k => k.head? == some '=' || (iriBody? k).isSome
  | .atMost, k => (iriBody? ('=' :: k)).isSome
  | .question, k => k.head?.any isLabelStart
  | .plus, k => k.head?.any fun c => isDigit c || c == '.'
  | .minus, k => k.head?.any fun c => isDigit c || c == '.'
  | .dot, k => pointFirst && startsWithDigit k
  | _, _ => false

/-- Whether the text right after a token would be read together with it. -/
def Token.absorbs (pointFirst : Bool) : Token → List Char → Bool
  | .mark m, k => m.absorbs pointFirst k
  | .comment _, k => k.head?.any fun c => !isLineBreak c
  | .number _ _, k => k.head?.any isNumberChar
  | .language _, k => k.head?.any isTagChar
  | .var _, k => k.head?.any isVariableTail
  | .string _, k => k.head?.any isQuote
  | .blankNode _, k => k.head?.any isDottedChar
  | .prefixed _, k => k.head?.any isLocalChar
  | .boolean _, k => k.head?.any fun c => isDottedChar c || c == ':'
  | .keyword _, k => k.head?.any fun c => isDottedChar c || c == ':'
  | .iri _, _ => false

/-! ## Spellings -/

/-- The characters that a token can be read from. -/
inductive Spells (pointFirst : Bool) : Token → List Char → Prop
  | mark (m : Mark) : Spells pointFirst (.mark m) m.text
  | emptyParens {blanks : List Char} : (∀ c ∈ blanks, isBlank c = true) →
      Spells pointFirst (.mark .emptyParens) ('(' :: (blanks ++ [')']))
  | emptyBrackets {blanks : List Char} : (∀ c ∈ blanks, isBlank c = true) →
      Spells pointFirst (.mark .emptyBrackets) ('[' :: (blanks ++ [']']))
  | comment {body : List Char} : (∀ c ∈ body, isLineBreak c = false) →
      Spells pointFirst (.comment (trim body)) ('#' :: body)
  | number {kind : NumberKind} {digits : List Char} : number? digits = some (kind, digits) →
      (pointFirst = true ∨ digits.head? ≠ some '.') →
      Spells pointFirst (.number kind digits) digits
  | language {tag : List Char} : languageTag? tag = some tag →
      Spells pointFirst (.language tag) ('@' :: tag)
  | var {sigil : Char} {name : List Char} : (sigil = '?' ∨ sigil = '$') →
      variableName? name = some name → Spells pointFirst (.var name) (sigil :: name)
  | string {quote : Char} {source : List Char} : isQuote quote = true →
      string? quote source = some source → Spells pointFirst (.string source) source
  | blankNode {label : List Char} : label? label = some label →
      Spells pointFirst (.blankNode label) ('_' :: ':' :: label)
  | prefixed {name : List Char} : prefixedName? name = some name →
      Spells pointFirst (.prefixed name) name
  | word {w : List Char} {t : Token} : word? w = some w → ofWord w = .ok t →
      Spells pointFirst t w
  | iri {body : List Char} : iriBody? (body ++ ['>']) = some body →
      Spells pointFirst (.iri body) ('<' :: (body ++ ['>']))

/-- Where numbers may start with their point, more is a spelling. -/
lemma Spells.mono {t : Token} {s : List Char} (h : Spells false t s) : Spells true t s := by
  cases h with
  | mark m => exact .mark m
  | emptyParens blank => exact .emptyParens blank
  | emptyBrackets blank => exact .emptyBrackets blank
  | comment noBreak => exact .comment noBreak
  | number hnumber => exact .number hnumber (.inl rfl)
  | language htag => exact .language htag
  | var isSigil hname => exact .var isSigil hname
  | string isMark hsource => exact .string isMark hsource
  | blankNode hlabel => exact .blankNode hlabel
  | prefixed hname => exact .prefixed hname
  | word hw ht => exact .word hw ht
  | iri hbody => exact .iri hbody

/-! ## Words -/

lemma isNameBase_of_isLetter {c : Char} (h : isLetter c = true) : isNameBase c = true := by
  simp only [isLetter, Bool.or_eq_true, Bool.and_eq_true, decide_eq_true_eq] at h
  rw [isNameBase, CharRange.anyContains_iff]
  rcases h with h | h
  · exact ⟨⟨0x41, 0x5A⟩, by simp [nameBaseTable], h⟩
  · exact ⟨⟨0x61, 0x7A⟩, by simp [nameBaseTable], h⟩

lemma isNameTail_of_isWordTail {c : Char} (h : isWordTail c = true) : isNameTail c = true := by
  simp only [isWordTail, isLetterOrDigit, Bool.or_eq_true] at h
  simp only [isNameTail, isVariableTail, isLabelStart, isNameStart, Bool.or_eq_true]
  rcases h with (letter | digit) | underscore
  · exact .inl (.inl (.inl (.inl (isNameBase_of_isLetter letter))))
  · exact .inl (.inl (.inr digit))
  · exact .inl (.inl (.inl (.inr underscore)))

/-- A word starts with a letter, and no character of it ends a name. -/
lemma word?_chars {cs w : List Char} (h : word? cs = some w) :
    (∃ c rest, w = c :: rest ∧ isLetter c = true) ∧ ∀ c ∈ w, isDottedChar c = true := by
  cases cs with
  | nil => simp [word?] at h
  | cons c cs =>
    simp only [word?, Option.ite_none_right_eq_some, Option.some.injEq] at h
    obtain ⟨letter, rfl⟩ := h
    refine ⟨⟨c, _, rfl, letter⟩, ?_⟩
    intro d mem
    have tail : isWordTail d = true := by
      rcases List.mem_cons.1 mem with rfl | mem
      · simp [isWordTail, isLetterOrDigit, letter]
      · exact of_mem_takeWhile mem
    simp [isDottedChar, isNameTail_of_isWordTail tail]

/-- A word is a keyword or a truth value. -/
lemma ofWord_eq_ok {w : List Char} {t : Token} (h : ofWord w = .ok t) :
    (t = .keyword (w.map upper) ∧ w.map upper ∈ keywords) ∨ (w = ['a'] ∧ t = .keyword typeWord) ∨
      (t = .boolean (w.map lower) ∧ w.map lower ∈ booleanWords) := by
  unfold ofWord at h
  split at h
  · next mem => exact .inl ⟨by simpa using h.symm, by simpa using mem⟩
  · split at h
    · next isA => exact .inr (.inl ⟨by simpa using isA, by simpa using h.symm⟩)
    · split at h
      · next mem => exact .inr (.inr ⟨by simpa using h.symm, by simpa using mem⟩)
      · simp at h

/-- Whether a token is one of the words of the language. -/
def Token.isVerbal : Token → Bool
  | .boolean _ => true
  | .keyword _ => true
  | _ => false

lemma isVerbal_of_ofWord {w : List Char} {t : Token} (h : ofWord w = .ok t) :
    t.isVerbal = true := by
  rcases ofWord_eq_ok h with ⟨rfl, -⟩ | ⟨-, rfl⟩ | ⟨rfl, -⟩ <;> rfl

/-- Keywords are words in upper case, and none is the type predicate. -/
lemma keywords_spelled :
    ∀ w ∈ keywords, word? w = some w ∧ w.map upper = w ∧ (w == typeWord) = false := by
  decide +kernel

lemma booleanWords_spelled :
    ∀ w ∈ booleanWords, word? w = some w ∧ ofWord w = .ok (.boolean w) := by
  decide

/-! ## The first character of a token

`first` is a chain of tests on the first character. Each lemma here says which reader a first
character leads to, so that the chain is walked once. -/

section Dispatch

variable (pointFirst : Bool)

/-- The characters that are told apart one by one. -/
def punctuation : List Char :=
  ['(', ')', '[', ']', '{', '}', ',', '.', '=', ';', '/', '*', '<', '>', '^', '!', '|', '&', '?',
   '$', '@', '\'', '"', '_', '+', '-']

lemma notMem_punctuation {p : Char → Bool} {c : Char} (h : p c = true)
    (apart : punctuation.any p = false) : c ∉ punctuation :=
  fun mem => List.any_eq_false.1 apart c mem h

/-- What is no punctuation starts a number, a name or a word, or no token. -/
lemma first_of_notMem_punctuation {c : Char} (h : c ∉ punctuation) (cs : List Char) :
    first pointFirst (c :: cs) =
      if isDigit c then numberOrSign c cs
      else if c == ':' || isNameBase c then nameOrWord (c :: cs)
      else .error .unexpectedCharacter := by
  simp only [punctuation, List.mem_cons, List.not_mem_nil, or_false, not_or] at h
  have notLone : lone? c = none := by
    unfold lone?
    split <;> simp_all
  simp [first, notLone, h]

lemma isDigit_of_isNameBase {c : Char} (base : isNameBase c = true) : isDigit c = false := by
  by_contra h
  have h : isDigit c = true := by simpa using h
  simp only [isDigit, Bool.and_eq_true, decide_eq_true_eq] at h
  obtain ⟨r, mem, low, high⟩ := (CharRange.anyContains_iff _ _).1 base
  have above : ∀ r ∈ nameBaseTable, 0x41 ≤ r.first := by decide
  have := above r mem
  omega

lemma first_nameBase {c : Char} (base : isNameBase c = true) (cs : List Char) :
    first pointFirst (c :: cs) = nameOrWord (c :: cs) := by
  rw [first_of_notMem_punctuation pointFirst (notMem_punctuation base (by decide))]
  simp [isDigit_of_isNameBase base, base]

lemma first_digit {c : Char} (digit : isDigit c = true) (cs : List Char) :
    first pointFirst (c :: cs) = numberOrSign c cs := by
  rw [first_of_notMem_punctuation pointFirst (notMem_punctuation digit (by decide)), if_pos digit]

lemma first_colon (cs : List Char) :
    first pointFirst (':' :: cs) = nameOrWord (':' :: cs) := by
  simp [first, lone?, isDigit]

lemma first_plus (cs : List Char) : first pointFirst ('+' :: cs) = numberOrSign '+' cs := by
  simp [first, lone?]

lemma first_minus (cs : List Char) : first pointFirst ('-' :: cs) = numberOrSign '-' cs := by
  simp [first, lone?]

lemma first_point {cs : List Char} (digit : startsWithDigit cs = true) :
    first true ('.' :: cs) = numberOrSign '.' cs := by
  simp [first, digit]

lemma first_below (cs : List Char) :
    first pointFirst ('<' :: cs) = identifierOrOperator cs := by
  simp [first, lone?]

lemma first_quote {quote : Char} (isMark : isQuote quote = true) (cs : List Char) :
    first pointFirst (quote :: cs) = stringLiteral quote cs := by
  simp only [isQuote, Bool.or_eq_true, beq_iff_eq] at isMark
  rcases isMark with rfl | rfl <;> simp [first, lone?]

lemma first_at (cs : List Char) : first pointFirst ('@' :: cs) = languageTag cs := by
  simp [first, lone?]

lemma first_sigil {sigil : Char} (isSigil : sigil = '?' ∨ sigil = '$') (cs : List Char) :
    first pointFirst (sigil :: cs) = variableOrQuestion sigil cs := by
  rcases isSigil with rfl | rfl <;> simp [first, lone?]

lemma first_underscore (cs : List Char) :
    first pointFirst ('_' :: cs) = blankNode cs := by
  simp [first, lone?]

lemma first_operator {c : Char} (h : c ∈ ['^', '!', '>', '|', '&']) (cs : List Char) :
    first pointFirst (c :: cs) = operator c cs := by
  simp only [List.mem_cons, List.not_mem_nil, or_false] at h
  rcases h with rfl | rfl | rfl | rfl | rfl <;> simp [first, lone?]

/-- A mark of one character is read whatever follows, but for a point that starts a number. -/
lemma first_lone {c : Char} {m : Mark} (h : lone? c = some m) {cs : List Char}
    (notNumber : m.absorbs pointFirst cs = false) :
    first pointFirst (c :: cs) = .ok (ofMark m) := by
  unfold lone? at h
  split at h <;> simp only [Option.some.injEq, reduceCtorEq] at h <;> subst h <;>
    simp_all [first, lone?, Mark.absorbs]

end Dispatch

/-! ## What is read is a spelling -/

section

variable {pointFirst : Bool} {c : Char} {cs s : List Char} {t : Token}

/-- What a reader gives is a spelling at the head of the text. -/
def IsSpelledAt (pointFirst : Bool) (cs : List Char) (r : Reading) : Prop :=
  Spells pointFirst r.1 r.2 ∧ r.2 <+: cs

lemma bracket_spelled {empty alone : Mark} {opening closing : Char}
    (hempty : ∀ blanks : List Char, (∀ c ∈ blanks, isBlank c = true) →
      Spells pointFirst (.mark empty) (opening :: (blanks ++ [closing])))
    (halone : alone.text = [opening]) (cs : List Char) :
    IsSpelledAt pointFirst (opening :: cs) (bracket empty alone opening closing cs) := by
  have lone : IsSpelledAt pointFirst (opening :: cs) (ofMark alone) :=
    ⟨.mark alone, by simp [ofMark, halone]⟩
  unfold bracket
  split
  · exact lone
  · next d rest hdrop =>
    split
    · next closes =>
      obtain rfl : d = closing := by simpa using closes
      refine ⟨hempty _ fun c => of_mem_takeWhile, List.cons_prefix_cons.2 ⟨rfl, rest, ?_⟩⟩
      simp only [List.append_assoc, List.singleton_append, ← hdrop,
        List.takeWhile_append_dropWhile]
    · exact lone

/-- An operator is spelled by its own text. -/
lemma operator_spelled {r : Reading} (h : operator c cs = .ok r) :
    IsSpelledAt pointFirst (c :: cs) r := by
  unfold operator at h
  split at h
  · next m hm =>
    obtain rfl : ofMark m = r := by simpa using h
    refine ⟨.mark m, ?_⟩
    unfold operator? at hm
    cases cs with
    | nil => split at hm <;> simp_all [ofMark] <;> subst hm <;> simp [Mark.text]
    | cons d ds => split at hm <;> simp_all [ofMark] <;> subst hm <;> simp [Mark.text]
  · simp at h

lemma numberOrSign_spelled {r : Reading} (h : numberOrSign c cs = .ok r)
    (point : pointFirst = true ∨ c ≠ '.') : IsSpelledAt pointFirst (c :: cs) r := by
  unfold numberOrSign at h
  split at h
  · next kind digits hnumber =>
    obtain rfl : (.number kind digits, digits) = r := by simpa using h
    have prefixed := number?_isPrefix hnumber
    have reread := number?_reread (k := []) hnumber rfl
    refine ⟨.number (by simpa using reread) ?_, prefixed⟩
    refine point.imp_right fun notPoint => ?_
    cases digits with
    | nil => simp
    | cons d ds =>
      obtain ⟨rfl, -⟩ := List.cons_prefix_cons.1 prefixed
      simpa using notPoint
  · split at h
    · next plus =>
      obtain rfl : c = '+' := by simpa using plus
      obtain rfl : ofMark .plus = r := by simpa using h
      exact ⟨.mark .plus, by simp [ofMark, Mark.text]⟩
    · split at h
      · next minus =>
        obtain rfl : c = '-' := by simpa using minus
        obtain rfl : ofMark .minus = r := by simpa using h
        exact ⟨.mark .minus, by simp [ofMark, Mark.text]⟩
      · simp at h

lemma nameOrWord_spelled {r : Reading} (h : nameOrWord cs = .ok r) :
    IsSpelledAt pointFirst cs r := by
  unfold nameOrWord at h
  split at h
  · next name hname =>
    obtain rfl : (.prefixed name, name) = r := by simpa using h
    have reread := prefixedName?_reread (k := []) hname rfl
    exact ⟨.prefixed (by simpa using reread), prefixedName?_isPrefix hname⟩
  · unfold word at h
    split at h
    · simp at h
    · next w hw =>
      split at h
      · next t ht =>
        obtain rfl : (t, w) = r := by simpa using h
        have reread := word?_reread (k := []) hw rfl
        exact ⟨.word (by simpa using reread) ht, word?_isPrefix hw⟩
      · simp at h

lemma variableOrQuestion_spelled {r : Reading} (isSigil : c = '?' ∨ c = '$')
    (h : variableOrQuestion c cs = .ok r) : IsSpelledAt pointFirst (c :: cs) r := by
  unfold variableOrQuestion at h
  split at h
  · next name hname =>
    obtain rfl : (.var name, c :: name) = r := by simpa using h
    have reread := variableName?_reread (k := []) hname rfl
    exact ⟨.var isSigil (by simpa using reread),
      List.cons_prefix_cons.2 ⟨rfl, variableName?_isPrefix hname⟩⟩
  · split at h
    · next question =>
      obtain rfl : c = '?' := by simpa using question
      obtain rfl : ofMark .question = r := by simpa using h
      exact ⟨.mark .question, by simp [ofMark, Mark.text]⟩
    · simp at h

lemma blankNode_spelled {r : Reading} (h : blankNode cs = .ok r) :
    IsSpelledAt pointFirst ('_' :: cs) r := by
  unfold blankNode at h
  split at h
  · next rest =>
    split at h
    · next label hlabel =>
      obtain rfl := Except.ok.inj h
      have reread := label?_reread (k := []) hlabel rfl
      exact ⟨.blankNode (by simpa using reread), by simpa using label?_isPrefix hlabel⟩
    · contradiction
  · contradiction

lemma lone?_spelled {m : Mark} (h : lone? c = some m) :
    IsSpelledAt pointFirst (c :: cs) (ofMark m) := by
  refine ⟨.mark m, ?_⟩
  unfold lone? at h
  split at h <;> simp only [Option.some.injEq, reduceCtorEq] at h <;> subst h <;>
    simp [ofMark, Mark.text]

lemma identifierOrOperator_spelled {r : Reading} (h : identifierOrOperator cs = .ok r) :
    IsSpelledAt pointFirst ('<' :: cs) r := by
  unfold identifierOrOperator at h
  split at h
  · next body hbody =>
    obtain rfl := Except.ok.inj h
    obtain ⟨⟨rest, rfl⟩, reread⟩ := iriBody?_reread hbody
    exact ⟨.iri (reread []), by simp⟩
  · exact operator_spelled h

lemma languageTag_spelled {r : Reading} (h : languageTag cs = .ok r) :
    IsSpelledAt pointFirst ('@' :: cs) r := by
  unfold languageTag at h
  split at h
  · next tag htag =>
    obtain rfl := Except.ok.inj h
    have reread := languageTag?_reread (k := []) htag rfl
    exact ⟨.language (by simpa using reread),
      List.cons_prefix_cons.2 ⟨rfl, languageTag?_isPrefix htag⟩⟩
  · contradiction

lemma stringLiteral_spelled {r : Reading} (isMark : isQuote c = true)
    (h : stringLiteral c cs = .ok r) : IsSpelledAt pointFirst (c :: cs) r := by
  unfold stringLiteral at h
  split at h
  · next source hsource =>
    obtain rfl := Except.ok.inj h
    have reread := string?_reread (k := []) isMark hsource (.refl source) (by simp)
    exact ⟨.string isMark (by simpa using reread), (string?_isPrefix isMark hsource).1⟩
  · contradiction

/-- What `first` reads is a spelling of its token, at the head of the text. -/
theorem spells_of_first {r : Reading} (h : first pointFirst cs = .ok r) :
    IsSpelledAt pointFirst cs r := by
  cases cs with
  | nil => simp [first] at h
  | cons c cs =>
    unfold first at h
    dsimp only at h
    by_cases isParen : (c == '(') = true
    · rw [if_pos isParen] at h
      obtain rfl : c = '(' := by simpa using isParen
      obtain rfl := Except.ok.inj h
      exact bracket_spelled (fun _ => .emptyParens) rfl cs
    rw [if_neg isParen] at h
    by_cases isBracket : (c == '[') = true
    · rw [if_pos isBracket] at h
      obtain rfl : c = '[' := by simpa using isBracket
      obtain rfl := Except.ok.inj h
      exact bracket_spelled (fun _ => .emptyBrackets) rfl cs
    rw [if_neg isBracket] at h
    by_cases isPoint : (pointFirst && c == '.' && startsWithDigit cs) = true
    · rw [if_pos isPoint] at h
      simp only [Bool.and_eq_true] at isPoint
      exact numberOrSign_spelled h (.inl isPoint.1.1)
    rw [if_neg isPoint] at h
    cases hlone : lone? c with
    | some m =>
      rw [hlone] at h
      obtain rfl := Except.ok.inj h
      exact lone?_spelled hlone
    | none =>
      rw [hlone] at h
      dsimp only at h
      by_cases isBelow : (c == '<') = true
      · rw [if_pos isBelow] at h
        obtain rfl : c = '<' := by simpa using isBelow
        exact identifierOrOperator_spelled h
      rw [if_neg isBelow] at h
      by_cases isOperator : (c == '^' || c == '!' || c == '>' || c == '|' || c == '&') = true
      · rw [if_pos isOperator] at h
        exact operator_spelled h
      rw [if_neg isOperator] at h
      by_cases isSigil : (c == '?' || c == '$') = true
      · rw [if_pos isSigil] at h
        exact variableOrQuestion_spelled (by simpa using isSigil) h
      rw [if_neg isSigil] at h
      by_cases isAt : (c == '@') = true
      · rw [if_pos isAt] at h
        obtain rfl : c = '@' := by simpa using isAt
        exact languageTag_spelled h
      rw [if_neg isAt] at h
      by_cases quoted : (c == '\'' || c == '"') = true
      · rw [if_pos quoted] at h
        exact stringLiteral_spelled (by rw [← quoted, isQuote, Bool.or_comm]) h
      rw [if_neg quoted] at h
      by_cases isUnderscore : (c == '_') = true
      · rw [if_pos isUnderscore] at h
        obtain rfl : c = '_' := by simpa using isUnderscore
        exact blankNode_spelled h
      rw [if_neg isUnderscore] at h
      by_cases signed : (isDigit c || c == '+' || c == '-') = true
      · rw [if_pos signed] at h
        refine numberOrSign_spelled h (.inr ?_)
        rintro rfl
        exact absurd signed (by decide)
      rw [if_neg signed] at h
      by_cases named : (c == ':' || isNameBase c) = true
      · rw [if_pos named] at h
        exact nameOrWord_spelled h
      · rw [if_neg named] at h
        contradiction

/-! ## A spelling is read back -/

/-- A mark is read back from its own text. -/
lemma first_mark (m : Mark) {k : List Char} (parted : m.absorbs pointFirst k = false) :
    first pointFirst (m.text ++ k) = .ok (.mark m, m.text) := by
  cases m with
  | emptyParens => simp [first, bracket, Mark.text, isBlank]
  | emptyBrackets => simp [first, bracket, Mark.text, isBlank]
  | openParen =>
    have h : bracket .emptyParens .openParen '(' ')' k = ofMark .openParen := by
      unfold bracket
      split
      · rfl
      · next d rest hdrop => simp_all [Mark.absorbs]
    simp [first, Mark.text, h, ofMark]
  | openBracket =>
    have h : bracket .emptyBrackets .openBracket '[' ']' k = ofMark .openBracket := by
      unfold bracket
      split
      · rfl
      · next d rest hdrop => simp_all [Mark.absorbs]
    simp [first, Mark.text, h, ofMark]
  | below =>
    simp only [Mark.absorbs, Bool.or_eq_false_iff, beq_eq_false_iff_ne,
      Option.isSome_eq_false_iff, Option.isNone_iff_eq_none] at parted
    have h : operator? '<' k.head? = some .below := by
      cases k with
      | nil => rfl
      | cons d k =>
        have notEqual : d ≠ '=' := by simpa using parted.1
        simp [operator?, notEqual]
    simp [Mark.text, first_below, identifierOrOperator, parted.2, operator, h, ofMark]
  | atMost =>
    simp only [Mark.absorbs, Option.isSome_eq_false_iff, Option.isNone_iff_eq_none] at parted
    simp [Mark.text, first_below, identifierOrOperator, parted, operator, operator?, ofMark]
  | plus =>
    have none := number?_sign_eq_none (.inl rfl) parted
    simp [Mark.text, first_plus, numberOrSign, none, ofMark]
  | minus =>
    have none := number?_sign_eq_none (.inr rfl) parted
    simp [Mark.text, first_minus, numberOrSign, none, ofMark]
  | question =>
    have none : variableName? k = none := by
      cases k with
      | nil => rfl
      | cons d k => simp_all [Mark.absorbs, variableName?]
    simp [Mark.text, first_sigil, variableOrQuestion, none, ofMark]
  | bang | caret | above | bar =>
    -- these four only look for the second character of a longer operator
    cases k with
    | nil => simp [Mark.text, first_operator, operator, operator?, ofMark]
    | cons d k =>
      simp only [Mark.absorbs, List.head?_cons, beq_eq_false_iff_ne, ne_eq, Option.some.injEq]
        at parted
      simp [Mark.text, first_operator, operator, operator?, ofMark, parted]
  | typed | notEqual | atLeast | both | either =>
    simp [Mark.text, first_operator, operator, operator?, ofMark]
  | closeParen | openBrace | closeBrace | closeBracket | equal | semicolon | dot | comma | star |
    slash => exact first_lone pointFirst rfl parted

/-- A number that starts with its point goes on with a digit. -/
lemma startsWithDigit_of_number? {cs x : List Char} {kind : NumberKind}
    (h : number? ('.' :: cs) = some (kind, x)) : startsWithDigit cs = true := by
  obtain ⟨y, hy, -⟩ := number?_eq_some.1 h
  have cut := List.takeWhile_append_dropWhile (p := isDigit) (l := cs)
  have value := unsigned?_of_point (w := []) (f := cs.takeWhile isDigit) (by simp)
    (fun c => of_mem_takeWhile) (head?_dropWhile_any isDigit cs)
  have hy : unsigned? ('.' :: cs) = some (kind, y) := hy
  rw [List.nil_append, cut, hy] at value
  cases hf : cs.takeWhile isDigit with
  | nil =>
    rw [hf] at value
    split at value <;> simp at value
  | cons d ds =>
    have digit : isDigit d = true := of_mem_takeWhile (by rw [hf]; exact List.mem_cons_self)
    rw [← cut, hf]
    exact digit

/-- A number starts with a digit, a sign or its point. -/
lemma number?_head {x : List Char} {kind : NumberKind} (h : number? x = some (kind, x)) :
    ∃ c rest, x = c :: rest ∧ (isDigit c = true ∨ c = '+' ∨ c = '-' ∨ c = '.') := by
  obtain ⟨y, hy, hx⟩ := number?_eq_some.1 h
  have start := unsigned?_head hy
  cases y with
  | nil => simp at start
  | cons d y =>
    simp only [List.head?_cons, Option.any_some, Bool.or_eq_true, beq_iff_eq] at start
    fun_cases sign x with
    | case1 => exact ⟨'+', _, rfl, by simp⟩
    | case2 => exact ⟨'-', _, rfl, by simp⟩
    | case3 =>
      refine ⟨d, y, by simpa [sign] using hx, ?_⟩
      exact start.imp_right fun point => .inr (.inr point)

/-- A number is read by the reader of numbers. -/
lemma first_number {kind : NumberKind} {digits : List Char}
    (h : number? digits = some (kind, digits))
    (point : pointFirst = true ∨ digits.head? ≠ some '.') :
    ∃ c rest, digits = c :: rest ∧
      ∀ k, first pointFirst (digits ++ k) = numberOrSign c (rest ++ k) := by
  obtain ⟨c, rest, rfl, start⟩ := number?_head h
  refine ⟨c, rest, rfl, fun k => ?_⟩
  rw [List.cons_append]
  rcases start with digit | rfl | rfl | rfl
  · exact first_digit pointFirst digit _
  · exact first_plus pointFirst _
  · exact first_minus pointFirst _
  · obtain rfl : pointFirst = true := point.resolve_right (by simp)
    have digit := startsWithDigit_of_number? h
    cases rest with
    | nil => cases digit
    | cons d rest => exact first_point digit

/-- A string is read by the reader of strings. -/
lemma first_string {quote : Char} {source : List Char} (isMark : isQuote quote = true)
    (h : string? quote source = some source) :
    ∃ rest, source = quote :: rest ∧
      ∀ k, first pointFirst (source ++ k) = stringLiteral quote (rest ++ k) := by
  have start := (string?_isPrefix isMark h).2
  cases source with
  | nil => cases start
  | cons c rest =>
    obtain rfl : c = quote := by simpa using start
    exact ⟨rest, rfl, fun k => first_quote pointFirst isMark _⟩

/-- A prefixed name is read by the reader of names. -/
lemma first_prefixed {name : List Char} (h : prefixedName? name = some name) (k : List Char) :
    first pointFirst (name ++ k) = nameOrWord (name ++ k) := by
  obtain ⟨run, rest, -, -, isPrefix, rfl⟩ := prefixedName?_eq_some.1 h
  cases run with
  | nil => exact first_colon pointFirst _
  | cons c run => exact first_nameBase pointFirst (isNameBase_of_isPrefixPart isPrefix) _

/-- So is a word. -/
lemma first_word {w : List Char} (h : word? w = some w) (k : List Char) :
    first pointFirst (w ++ k) = nameOrWord (w ++ k) := by
  obtain ⟨⟨c, rest, rfl, letter⟩, -⟩ := word?_chars h
  exact first_nameBase pointFirst (isNameBase_of_isLetter letter) _

/-- A spelling of a token that is no comment is read back in front of every text that does not
go on with it. -/
theorem first_of_spells {k : List Char} (h : Spells pointFirst t s)
    (notComment : t.isComment = false) (parted : t.absorbs pointFirst k = false) :
    first pointFirst (s ++ k) = .ok (t, s) := by
  cases h with
  | mark m => exact first_mark m parted
  | @emptyParens blanks all =>
    have drop : (blanks ++ ')' :: k).dropWhile isBlank = ')' :: k :=
      dropWhile_append_stop all rfl
    have take : (blanks ++ ')' :: k).takeWhile isBlank = blanks :=
      takeWhile_append_stop all rfl
    simp [first, bracket, drop, take]
  | @emptyBrackets blanks all =>
    have drop : (blanks ++ ']' :: k).dropWhile isBlank = ']' :: k :=
      dropWhile_append_stop all rfl
    have take : (blanks ++ ']' :: k).takeWhile isBlank = blanks :=
      takeWhile_append_stop all rfl
    simp [first, bracket, drop, take]
  | comment => simp [Token.isComment] at notComment
  | @number kind digits hnumber point =>
    have reread := number?_reread hnumber parted
    obtain ⟨c, rest, rfl, read⟩ := first_number hnumber point
    rw [read, numberOrSign, ← List.cons_append, reread]
  | @language tag htag =>
    have reread := languageTag?_reread htag parted
    simp only [List.cons_append, first_at, languageTag, reread]
  | @var sigil name isSigil hname =>
    rw [List.cons_append, first_sigil pointFirst isSigil, variableOrQuestion,
      variableName?_reread hname parted]
  | @string quote _ isMark hsource =>
    have stop : k.head? ≠ some quote := by
      intro starts
      simp [Token.absorbs, starts, isMark] at parted
    have reread := string?_reread isMark hsource (.refl s) stop
    obtain ⟨rest, rfl, read⟩ := first_string isMark hsource
    rw [read, stringLiteral, ← List.cons_append, reread]
  | @blankNode label hlabel =>
    have reread := label?_reread hlabel parted
    simp only [List.cons_append, first_underscore, blankNode, reread]
  | @prefixed name hname =>
    rw [first_prefixed hname, nameOrWord, prefixedName?_reread hname parted]
  | @word w t hw ht =>
    obtain ⟨-, chars⟩ := word?_chars hw
    have ends : k.head?.any (fun c => isDottedChar c || c == ':') = false := by
      rcases ofWord_eq_ok ht with ⟨rfl, -⟩ | ⟨-, rfl⟩ | ⟨rfl, -⟩ <;> exact parted
    have endsWord : k.head?.any isWordTail = false :=
      head?_any_mono (fun c h => by simp [isDottedChar, isNameTail_of_isWordTail h]) ends
    rw [first_word hw, nameOrWord, prefixedName?_eq_none chars ends]
    simp only [Lexeme.word, word?_reread hw endsWord, ht]
  | @iri body hbody =>
    have reread := (iriBody?_reread hbody).2 k
    rw [List.cons_append, List.append_assoc, List.singleton_append, first_below,
      identifierOrOperator, reread]

/-- Nothing is absorbed at the end of a text. -/
lemma absorbs_nil (t : Token) : t.absorbs pointFirst [] = false := by
  cases t with
  | mark m => cases m <;> simp [Token.absorbs, Mark.absorbs, iriBody?, isIriChar, startsWithDigit]
  | _ => rfl

/-! ## The usual spelling -/

/-- The text of a token that has a spelling is a spelling of it. -/
theorem Spells.text (h : Spells pointFirst t s) : Spells pointFirst t t.text := by
  cases h with
  | mark m => exact .mark m
  | emptyParens => exact .mark .emptyParens
  | emptyBrackets => exact .mark .emptyBrackets
  | @comment body noBreak =>
    have noBreak' : ∀ c ∈ trim body, isLineBreak c = false := fun c mem =>
      noBreak c (mem_of_mem_trim mem)
    cases hbody : trim body with
    | nil =>
      have spelled : Spells pointFirst (.comment (trim [])) ['#'] := .comment (by simp)
      simpa [Token.text, trim] using spelled
    | cons c rest =>
      rw [hbody] at noBreak'
      have spelled : Spells pointFirst (.comment (trim (' ' :: c :: rest)))
          ('#' :: ' ' :: c :: rest) :=
        .comment (List.forall_mem_cons.2 ⟨by decide, noBreak'⟩)
      rwa [trim_cons (by decide), ← hbody, trim_trim, hbody] at spelled
  | number hnumber point => exact .number hnumber point
  | language htag => exact .language htag
  | var _ hname => exact .var (.inl rfl) hname
  | string isMark hsource => exact .string isMark hsource
  | blankNode hlabel => exact .blankNode hlabel
  | prefixed hname => exact .prefixed hname
  | word hw ht =>
    rcases ofWord_eq_ok ht with ⟨rfl, mem⟩ | ⟨-, rfl⟩ | ⟨rfl, mem⟩
    · obtain ⟨spelled, isUpper, notType⟩ := keywords_spelled _ mem
      have read : ofWord (s.map upper) = .ok (.keyword (s.map upper)) := by
        simp only [ofWord, isUpper, List.contains_iff_mem.2 mem, if_true]
      simp only [Token.text, notType, Bool.false_eq_true, if_false]
      exact .word spelled read
    · have read : ofWord ['a'] = .ok (.keyword typeWord) := by decide +kernel
      exact .word (w := ['a']) rfl read
    · obtain ⟨spelled, read⟩ := booleanWords_spelled _ mem
      exact .word spelled read
  | iri hbody => exact .iri hbody

/-- The marks that start with a given character. -/
lemma Mark.text_cons_of_head? {m : Mark} {c : Char} (h : m.text.head? = some c) :
    (c = '=' → m = .equal) ∧ (c = '^' → m = .caret ∨ m = .typed) ∧
      (c = '|' → m = .bar ∨ m = .either) ∧ (c = ')' → m = .closeParen) ∧
      (c = ']' → m = .closeBracket) ∧ isBlank c = false := by
  cases m <;> simp only [Mark.text, List.head?_cons, Option.some.injEq] at h <;> subst h <;>
    decide

/-- The first character of a spelling is no blank; if it can be the second one of an operator or
close a pair of brackets, then the token is a mark. -/
lemma Spells.head (h : Spells pointFirst t s) :
    ∃ c rest, s = c :: rest ∧ isBlank c = false ∧
      (c ∈ ['=', '^', '|', ')', ']'] → ∃ m, t = .mark m ∧ m.text.head? = some c) := by
  have named : ∀ {p : Char → Bool} {c : Char}, p c = true →
      [' ', '\t', '\r', '\n', '=', '^', '|', ')', ']'].any p = false →
      isBlank c = false ∧ c ∉ ['=', '^', '|', ')', ']'] := by
    intro p c hp none
    have notMem : c ∉ [' ', '\t', '\r', '\n', '=', '^', '|', ')', ']'] :=
      fun mem => List.any_eq_false.1 none c mem hp
    simp only [List.mem_cons, List.not_mem_nil, or_false, not_or] at notMem
    simp [isBlank, notMem]
  cases h with
  | mark m =>
    cases htext : m.text with
    | nil => exact absurd htext m.text_ne_nil
    | cons c rest =>
      have facts := Mark.text_cons_of_head? (c := c) (by rw [htext]; rfl)
      exact ⟨c, rest, rfl, facts.2.2.2.2.2, fun _ => ⟨m, rfl, by rw [htext]; rfl⟩⟩
  | emptyParens => exact ⟨_, _, rfl, rfl, by simp⟩
  | emptyBrackets => exact ⟨_, _, rfl, rfl, by simp⟩
  | comment => exact ⟨_, _, rfl, rfl, by simp⟩
  | number hnumber =>
    obtain ⟨c, rest, rfl, start⟩ := number?_head hnumber
    have h := named (p := fun c => isDigit c || c == '+' || c == '-' || c == '.') (c := c)
      (by simpa [or_assoc] using start) (by decide)
    exact ⟨c, rest, rfl, h.1, fun mem => absurd mem h.2⟩
  | language => exact ⟨_, _, rfl, rfl, by simp⟩
  | @var sigil name isSigil =>
    rcases isSigil with rfl | rfl <;> exact ⟨_, _, rfl, rfl, by simp⟩
  | @string quote _ isMark hsource =>
    have start := (string?_isPrefix isMark hsource).2
    cases s with
    | nil => simp at start
    | cons c rest =>
      obtain rfl : c = quote := by simpa using start
      have h := named isMark (by decide)
      exact ⟨c, rest, rfl, h.1, fun mem => absurd mem h.2⟩
  | blankNode => exact ⟨_, _, rfl, rfl, by simp⟩
  | prefixed hname =>
    obtain ⟨run, rest, -, -, isPrefix, rfl⟩ := prefixedName?_eq_some.1 hname
    cases run with
    | nil => exact ⟨_, _, rfl, rfl, by simp⟩
    | cons c run =>
      have base := isNameBase_of_isPrefixPart isPrefix
      have h := named base (by decide)
      exact ⟨c, _, rfl, h.1, fun mem => absurd mem h.2⟩
  | word hw =>
    obtain ⟨⟨c, rest, rfl, letter⟩, -⟩ := word?_chars hw
    have h := named letter (by decide)
    exact ⟨c, rest, rfl, h.1, fun mem => absurd mem h.2⟩
  | iri => exact ⟨_, _, rfl, rfl, by simp⟩

end

end SparqlFormat
