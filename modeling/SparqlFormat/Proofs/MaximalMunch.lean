import SparqlFormat.Proofs.LiteralTerminals
import SparqlFormat.Proofs.NumberTerminals
import SparqlFormat.Proofs.Scanning

/-!
# Lexemes are as long as their terminals allow

The readers of single terminals are put together. `isLongest_of_first` says it of the token at the
head of any text, and `tokenize_maximal` of every lexeme of a text: its characters are the longest
member of its terminal that stands at its offset. For a number it does not matter which of the
three shapes is asked for, since the longest number of any shape is of the shape it is read as.

The same theorem records why no choice is ever made for identifiers and for strings of one form:
at most one of them stands at any place.
-/

namespace SparqlFormat

open Computability Lexeme Terminals

/-! ## Brackets -/

lemma prefixUnique_emptyBrackets {opening closing : Char} (notBlank : isBlank closing = false) :
    PrefixUnique (emptyBrackets opening closing) := by
  rintro text v hv w hw hprefix ⟨k, rfl⟩
  obtain ⟨_, inside, rfl⟩ := mem_exactly_mul.1 hv
  obtain ⟨blanks, hblanks, _, rfl, rfl⟩ := Language.mem_mul.1 inside
  obtain ⟨_, inside', rfl⟩ := mem_exactly_mul.1 hw
  obtain ⟨blanks', hblanks', _, rfl, rfl⟩ := Language.mem_mul.1 inside'
  simp only [List.cons_append, List.nil_append, List.append_assoc, List.cons_prefix_cons,
    true_and] at hprefix
  have stop : ∀ x : List Char, (closing :: x).head?.any isBlank = false := fun _ => notBlank
  obtain ⟨rfl, -⟩ := run_unique (mem_kstar_one.1 hblanks) (stop []) (by simp)
    (mem_kstar_one.1 hblanks') (stop k) hprefix
  rfl

lemma isLongest_emptyBrackets {opening closing : Char} (notBlank : isBlank closing = false)
    {blanks : List Char} (all : ∀ c ∈ blanks, isBlank c = true) (k : List Char) :
    IsLongest (emptyBrackets opening closing) (opening :: (blanks ++ [closing]))
      (opening :: (blanks ++ [closing]) ++ k) := by
  refine (prefixUnique_emptyBrackets notBlank).isLongest ?_ (List.prefix_append _ _)
  exact mem_exactly_mul.2 ⟨_, Language.append_mem_mul (mem_kstar_one.2 all) rfl, rfl⟩

/-! ## The token at the head of a text -/

section First

variable {pointFirst : Bool} {text s : List Char} {t : Token}

lemma number?_of_first {kind : NumberKind} {digits : List Char}
    (read : first pointFirst text = .ok (.number kind digits, s)) :
    number? text = some (kind, digits) ∧ digits = s := by
  obtain ⟨spelled, k, rfl⟩ := spells_of_first read
  dsimp only at spelled read ⊢
  have reader : ∀ {c : Char} {cs : List Char},
      numberOrSign c cs = .ok (.number kind digits, s) →
        number? (c :: cs) = some (kind, digits) ∧ digits = s := by
    intro c cs h
    unfold numberOrSign at h
    split at h
    · next kind' digits' found =>
      simp only [Except.ok.injEq, Prod.mk.injEq, Token.number.injEq] at h
      obtain ⟨⟨rfl, rfl⟩, rfl⟩ := h
      exact ⟨found, rfl⟩
    · split at h
      · cases h
      · split at h <;> cases h
  cases spelled with
  | word _ ht =>
    rcases ofWord_eq_ok ht with ⟨h, -⟩ | ⟨-, h⟩ | ⟨h, -⟩ <;> cases h
  | number found point =>
    obtain ⟨c, rest, rfl, isRead⟩ := first_number found point
    exact reader (isRead k ▸ read)

lemma prefixedName?_of_first {name : List Char}
    (read : first pointFirst text = .ok (.prefixed name, s)) : prefixedName? text = some s := by
  obtain ⟨spelled, k, rfl⟩ := spells_of_first read
  dsimp only at spelled read ⊢
  cases spelled with
  | word _ ht =>
    cases isVerbal_of_ofWord ht
  | prefixed found =>
    have reader : nameOrWord (s ++ k) = .ok (.prefixed s, s) := first_prefixed found k ▸ read
    unfold nameOrWord at reader
    split at reader
    · next found =>
      obtain rfl : _ = _ := by simpa using reader
      exact found
    · unfold Lexeme.word at reader
      split at reader
      · cases reader
      · split at reader
        · next ht =>
          obtain ⟨rfl, -⟩ : _ = _ ∧ _ = _ := by simpa using reader
          cases isVerbal_of_ofWord ht
        · cases reader

/-- The token at the head of a text takes as much of the text as its terminal allows. -/
theorem isLongest_of_first {terminal : Language Char} (read : first pointFirst text = .ok (t, s))
    (known : ofToken? t = some terminal) : IsLongest terminal s text := by
  obtain ⟨spelled, k, rfl⟩ := spells_of_first read
  dsimp only at spelled read
  cases spelled with
  | mark m =>
    cases m <;> cases known
    · exact isLongest_emptyBrackets (by decide) (List.forall_mem_nil _) k
    · exact isLongest_emptyBrackets (by decide) (List.forall_mem_nil _) k
  | emptyParens blank =>
    cases known
    exact isLongest_emptyBrackets (by decide) blank k
  | emptyBrackets blank =>
    cases known
    exact isLongest_emptyBrackets (by decide) blank k
  | comment => cases known
  | number =>
    cases known
    exact (isLongest_number (number?_of_first read).1).1
  | language =>
    cases known
    rw [List.cons_append, first_at, Lexeme.languageTag] at read
    split at read
    · next found =>
      obtain rfl : _ = _ := by simpa using read
      exact isLongest_languageTag found
    · cases read
  | var isSigil =>
    cases known
    rw [List.cons_append, first_sigil pointFirst isSigil, variableOrQuestion] at read
    split at read
    · next found =>
      obtain rfl : _ = _ := by simpa using read
      exact isLongest_variableName isSigil found
    · split at read <;> cases read
  | @string quote source isMark found =>
    cases known
    obtain ⟨rest, rfl, isRead⟩ := first_string isMark found
    rw [isRead, stringLiteral] at read
    split at read
    · next found =>
      obtain rfl : _ = _ := by simpa using read
      exact isLongest_string isMark found
    · cases read
  | blankNode =>
    cases known
    rw [List.cons_append, List.cons_append, first_underscore, blankNode] at read
    split at read
    · next found =>
      obtain rfl : _ = _ := by simpa using read
      exact isLongest_blankNodeLabel found
    · cases read
  | prefixed =>
    cases known
    exact isLongest_prefixedName (prefixedName?_of_first read)
  | word _ ht =>
    rcases ofWord_eq_ok ht with ⟨rfl, -⟩ | ⟨-, rfl⟩ | ⟨rfl, -⟩ <;> cases known
  | iri =>
    cases known
    rw [List.cons_append, first_below, identifierOrOperator] at read
    split at read
    · next found =>
      obtain rfl : _ = _ := by simpa using read
      exact isLongest_identifier found
    · unfold operator at read
      split at read <;> cases read

end First

/-! ## The lexemes of a text -/

lemma Scan.first_at_offset {manner : Manner} {offset : Nat} {text : List Char}
    {lexemes : List Lexeme} (h : Scan manner offset text (.ok lexemes)) :
    ∀ l ∈ lexemes, offset ≤ l.offset ∧ (l.token.isComment = true ∨
      first manner.pointFirst (text.drop (l.offset - offset)) = .ok (l.token, l.source)) := by
  generalize houtcome : Except.ok lexemes = outcome at h
  have later : ∀ (before : List Char) {offset : Nat} {rest : List Char} {l : Lexeme},
      offset + before.length ≤ l.offset ∧ (l.token.isComment = true ∨ first manner.pointFirst
        (rest.drop (l.offset - (offset + before.length))) = .ok (l.token, l.source)) →
      offset ≤ l.offset ∧ (l.token.isComment = true ∨ first manner.pointFirst
        ((before ++ rest).drop (l.offset - offset)) = .ok (l.token, l.source)) := by
    rintro before offset rest l ⟨le, read⟩
    have split : l.offset - offset = before.length + (l.offset - (offset + before.length)) := by
      omega
    rw [split, List.drop_length_add_append]
    exact ⟨by omega, read⟩
  induction h generalizing lexemes with
  | done =>
    obtain rfl := Except.ok.inj houtcome
    simp
  | @blank offset c cs _ _ _ ih => exact fun l mem => later [c] (ih houtcome l mem)
  | @comment offset body rest _ _ _ _ ih =>
    split at houtcome
    · obtain ⟨others, rfl, rfl⟩ := Outcome.after_eq_ok.1 houtcome.symm
      refine List.forall_mem_cons.2 ⟨⟨le_rfl, .inl rfl⟩, fun l mem => ?_⟩
      exact later ('#' :: body) (ih rfl l mem)
    · exact fun l mem => later ('#' :: body) (ih houtcome l mem)
  | token read _ ih =>
    obtain ⟨others, rfl, rfl⟩ := Outcome.after_eq_ok.1 houtcome.symm
    refine List.forall_mem_cons.2 ⟨⟨le_rfl, .inr (by simpa using read)⟩, fun l mem => ?_⟩
    exact later _ (ih rfl l mem)
  | fault => cases houtcome

/-- Two languages that each have at most one member at the head of a text have so together, if
their members start with different characters. -/
lemma Terminals.PrefixUnique.add {l m : Language Char} {c d : Char} (hl : PrefixUnique l)
    (hm : PrefixUnique m) (startL : ∀ v ∈ l, v.head? = some c) (startM : ∀ v ∈ m, v.head? = some d)
    (apart : c ≠ d) : PrefixUnique (l + m) := by
  have clash : ∀ {text v w : List Char}, v ∈ l → w ∈ m → v <+: text → w <+: text → False := by
    rintro text v w hv hw ⟨k, rfl⟩ ⟨k', split⟩
    have hv := startL v hv
    have hw := startM w hw
    cases v with
    | nil => cases hv
    | cons a v =>
      cases w with
      | nil => cases hw
      | cons b w =>
        obtain ⟨rfl, -⟩ := List.cons.inj split
        exact apart (Option.some.inj (hv.symm.trans hw))
  rintro text v (hv | hv) w (hw | hw) hprefix hprefix'
  · exact hl text v hv w hw hprefix hprefix'
  · exact (clash hv hw hprefix hprefix').elim
  · exact (clash hw hv hprefix' hprefix).elim
  · exact hm text v hv w hw hprefix hprefix'

/-- The characters of a lexeme are the longest member of its terminal at its offset; for a number
this holds of all shapes taken together, and its characters are of the one shape that its token
has. Of the long strings, of the short strings and of the identifiers, at most one stands at the
head of any text. -/
theorem tokenize_maximal {keepComments : Bool} {text : List Char} {lexemes : List Lexeme}
    (cut : tokenize keepComments text = .ok lexemes) :
    (∀ l ∈ lexemes, ∀ terminal, ofToken? l.token = some terminal →
      IsLongest terminal l.source (text.drop l.offset)) ∧
    (∀ l ∈ lexemes, ∀ kind digits, l.token = .number kind digits →
      ∀ other, l.source ∈ Terminals.number other ↔ other = kind) ∧
    PrefixUnique (longString '\'' + longString '"') ∧
      PrefixUnique (shortString '\'' + shortString '"') ∧ PrefixUnique identifier := by
  have found := (tokenize_eq_ok.1 cut).first_at_offset
  have long : ∀ {q : Char}, ∀ v ∈ longString q, v.head? = some q := by
    intro q v hv
    obtain ⟨w, -, rfl⟩ := mem_exactly_mul.1 hv
    rfl
  have short : ∀ {q : Char}, ∀ v ∈ shortString q, v.head? = some q := by
    intro q v hv
    obtain ⟨w, -, rfl⟩ := mem_exactly_mul.1 hv
    rfl
  refine ⟨fun l mem terminal known => ?_, fun l mem kind digits isNumber => ?_, ?_, ?_,
    prefixUnique_identifier⟩
  · rcases (found l mem).2 with isComment | read
    · obtain ⟨body, e⟩ := (Token.isComment_iff _).1 isComment
      rw [e] at known
      cases known
    · exact isLongest_of_first read known
  · rcases (found l mem).2 with isComment | read
    · rw [isNumber] at isComment
      cases isComment
    · rw [isNumber] at read
      obtain ⟨read, rfl⟩ := number?_of_first read
      exact (isLongest_number read).2
  · exact (prefixUnique_longString rfl).add (prefixUnique_longString rfl) long long (by decide)
  · exact (prefixUnique_shortString rfl).add (prefixUnique_shortString rfl) short short (by decide)

/-- A text in which terminals could be cut short or overrun: dots after names and numbers, a hyphen
after a language tag, escapes, quotation marks in a row, a long string that does not end. -/
def crowded : List Char :=
  ("a.b:c.\\~d%4a..?x.1_:b.c.@en-GB-5.5e+1.5+.5 7.<a\\u0041>5.e3(\t)[ ]" ++
    "\"\"\"a\"\"\\\"b\"\"\"'c\\u0041''''d'").toList

/-- The lexemes of such a text are the longest there are. -/
theorem tokenize_maximal_crowded :
    ∃ lexemes, tokenize false crowded = .ok lexemes ∧ lexemes.length = 24 ∧
      (∀ l ∈ lexemes, ∀ terminal, ofToken? l.token = some terminal →
        IsLongest terminal l.source (crowded.drop l.offset)) ∧
      (∀ l ∈ lexemes, ∀ kind digits, l.token = .number kind digits →
        ∀ other, l.source ∈ Terminals.number other ↔ other = kind) ∧
      PrefixUnique (longString '\'' + longString '"') ∧
        PrefixUnique (shortString '\'' + shortString '"') ∧ PrefixUnique identifier := by
  have checked : ((tokenize false crowded).toOption.any fun lexemes => lexemes.length == 24) =
      true := by
    decide +kernel
  cases cut : tokenize false crowded with
  | error e =>
    rw [cut] at checked
    contradiction
  | ok lexemes =>
    rw [cut] at checked
    exact ⟨lexemes, rfl, by simpa [Except.toOption] using checked, tokenize_maximal cut⟩

end SparqlFormat
