import Mathlib.Data.List.TakeWhile
import SparqlFormat.Proofs.Expansion
import SparqlFormat.Proofs.Language
import SparqlFormat.Proofs.MaximalMunch
import SparqlFormat.Proofs.Seams

/-!
# What the grammar writes and what the library reads

The standard's spellings of a token are the characters that the library reads as the token, if no
code point is escaped in them (`mem_spellings_iff`). The words of the grammar are the keywords of
the library (`isGrammarWord_iff`).
-/

namespace SparqlFormat.Grammar

open Computability Lexeme Terminals

/-! ## Words -/

/-- The words of the productions are the keywords, and the one that a lone letter stands for. -/
lemma isGrammarWord_iff {w : List Char} : IsGrammarWord w ↔ w ∈ keywords ∨ w = typeWord := by
  let isKnown : Terminal → Bool
    | .word w => (typeWord :: keywords).contains w
    | _ => true
  have known : ∀ n, (production n).terminals.all isKnown = true :=
    forall_nonterminal (by decide +kernel)
  have used : (typeWord :: keywords).all (fun w => (List.range 78).any fun i =>
      (production (.ofNat i)).terminals.any fun t => t.covers (.keyword w)) = true := by
    decide +kernel
  rw [or_comm, ← List.mem_cons]
  constructor
  · rintro ⟨n, mem⟩
    exact List.contains_iff_mem.1 (List.all_eq_true.1 (known n) _ mem)
  · intro mem
    obtain ⟨i, -, found⟩ := List.any_eq_true.1 (List.all_eq_true.1 used w mem)
    obtain ⟨t, mem, covers⟩ := List.any_eq_true.1 found
    cases t with
    | word w' =>
      obtain rfl : w = w' := by simpa [Terminal.covers] using covers
      exact ⟨_, mem⟩
    | _ => cases covers

lemma toNat_ofNat {n : Nat} (valid : n.isValidChar) : (Char.ofNat n).toNat = n := by
  rw [Char.ofNat, dif_pos valid]
  rfl

/-- A letter in upper case has the code that is lower by 32. -/
lemma toNat_upper (c : Char) :
    (upper c).toNat = if 0x61 ≤ c.toNat ∧ c.toNat ≤ 0x7A then c.toNat - 0x20 else c.toNat := by
  unfold upper
  split
  · next isLower =>
    exact toNat_ofNat (.inl (by omega))
  · rfl

lemma toNat_lower (c : Char) :
    (lower c).toNat = if 0x41 ≤ c.toNat ∧ c.toNat ≤ 0x5A then c.toNat + 0x20 else c.toNat := by
  unfold lower
  split
  · next isUpper =>
    exact toNat_ofNat (.inl (by omega))
  · rfl

@[simp] lemma upper_lower (c : Char) : upper (lower c) = upper c := by
  refine Char.toNat_inj.1 ?_
  simp only [toNat_upper, toNat_lower]
  split_ifs <;> omega

@[simp] lemma isLetter_upper (c : Char) : isLetter (upper c) = isLetter c := by
  rw [Bool.eq_iff_iff]
  simp only [isLetter, toNat_upper, Bool.or_eq_true, Bool.and_eq_true, decide_eq_true_eq]
  split_ifs <;> omega

@[simp] lemma isWordTail_upper (c : Char) : isWordTail (upper c) = isWordTail c := by
  have underscore : upper c = '_' ↔ c = '_' := by
    have code : '_'.toNat = 0x5F := rfl
    simp only [← Char.toNat_inj, toNat_upper, code]
    split_ifs <;> omega
  rw [Bool.eq_iff_iff]
  simp only [isWordTail, isLetterOrDigit, isLetter_upper, isDigit, toNat_upper, Bool.or_eq_true,
    Bool.and_eq_true, decide_eq_true_eq, beq_iff_eq, underscore]
  split_ifs with isLower
  · simp [isLetter, isLower]
  · rfl

/-- The words that are read whole. -/
lemma word?_eq_self {w : List Char} :
    word? w = some w ↔
      w.head?.any isLetter = true ∧ ∀ c ∈ w.tail, isWordTail c = true := by
  cases w with
  | nil => simp [word?]
  | cons c w => simp [word?, List.takeWhile_eq_self_iff]

/-- What is a word in upper case is one in either case. -/
lemma word?_of_map_upper {w : List Char} (h : word? (w.map upper) = some (w.map upper)) :
    word? w = some w := by
  cases w with
  | nil => exact h
  | cons c w => simpa [word?_eq_self] using h

/-! ## Code points -/

section Escapes

variable {l m : Language Char} {a b u w x : List Char}

/-- Characters other than backslashes in front of a text are part of no escape. -/
lemma holdsCodePointEscape_append (other : ∀ c ∈ u, c ≠ '\\') (x : List Char) :
    holdsCodePointEscape (u ++ x) = holdsCodePointEscape x := by
  induction u with
  | nil => rfl
  | cons c u ih =>
    obtain ⟨first, others⟩ := List.forall_mem_cons.1 other
    rw [List.cons_append, holdsCodePointEscape_cons first, ih others]

/-- What a language adds to the front of a text holds no code point. -/
def Inert (l : Language Char) : Prop :=
  ∀ u ∈ l, ∀ x, holdsCodePointEscape (u ++ x) = holdsCodePointEscape x

lemma Inert.kstar (inert : Inert l) : Inert l∗ := by
  intro w hw x
  refine kstar_induction (motive := fun w => holdsCodePointEscape (w ++ x) =
    holdsCodePointEscape x) rfl (fun u hu v _ ih => ?_) hw
  rw [List.append_assoc, inert u hu, ih]

lemma Inert.add (hl : Inert l) (hm : Inert m) : Inert (l + m) := by
  rintro u (hu | hu) x
  · exact hl u hu x
  · exact hm u hu x

lemma Inert.mul (hl : Inert l) (hm : Inert m) : Inert (l * m) := by
  rintro _ ⟨u, hu, v, hv, rfl⟩ x
  simp only [List.append_assoc, hl u hu, hm v hv]

lemma inert_exactly (other : ∀ c ∈ a, c ≠ '\\') : Inert (exactly a) := by
  rintro _ rfl x
  exact holdsCodePointEscape_append other x

lemma inert_one {p : Char → Bool} (other : p '\\' = false) : Inert (one p) := by
  rintro _ ⟨c, hc, rfl⟩ x
  refine holdsCodePointEscape_append (fun d mem => ?_) x
  rintro rfl
  obtain rfl := List.mem_singleton.1 mem
  exact Bool.false_ne_true (other.symm.trans hc)

lemma inert_escape : Inert escape := by
  intro u hu x
  obtain ⟨e, rfl, known⟩ := mem_escape hu
  have other : e ≠ 'u' ∧ e ≠ 'U' := by
    constructor <;> rintro rfl <;> revert known <;> decide
  simp [holdsCodePointEscape, other]

/-- A code point is one. -/
lemma holdsCodePointEscape_codePoint (hu : u ∈ codePoint) (x : List Char) :
    holdsCodePointEscape (u ++ x) = true := by
  rcases hu with h | h <;> obtain ⟨v, -, rfl⟩ := mem_exactly_mul.1 h <;> rfl

lemma not_escapeFree_codePoint (hu : u ∈ codePoint) : ¬ EscapeFree u := by
  intro free
  rcases hu with h | h <;> obtain ⟨v, hv, rfl⟩ := mem_exactly_mul.1 h <;>
    obtain ⟨length, digits⟩ := mem_one_pow.1 hv
  all_goals
    have digits : startsWithHex _ v = true := startsWithHex_iff.2 (by
      rw [List.take_of_length_le length.le]
      exact ⟨length, digits⟩)
  · simpa [startsCodePoint, digits] using free [] ('u' :: v) rfl
  · simpa [startsCodePoint, digits] using free [] ('U' :: v) rfl

/-- Whether a piece of a text is of a language, or ends with the only code point in it. -/
def OrCodePoint (m : Language Char) (u : List Char) : Prop :=
  u ∈ m ∨ ∃ v, ∃ c ∈ codePoint, u = v ++ c ∧
    ∀ x, holdsCodePointEscape (v ++ x) = holdsCodePointEscape x

lemma orCodePoint_of_mem (hu : u ∈ codePoint) : OrCodePoint m u :=
  .inr ⟨[], u, hu, rfl, fun _ => rfl⟩

/-- A row of pieces without code points is made of the pieces that are none. -/
lemma mem_kstar_of_holds (inert : Inert m) (pieces : ∀ u ∈ l, OrCodePoint m u) (h : w ∈ l∗)
    (none : holdsCodePointEscape (w ++ x) = false) : w ∈ m∗ := by
  have step : ∀ u ∈ l, ∀ v ∈ l∗, (holdsCodePointEscape (v ++ x) = false → v ∈ m∗) →
      holdsCodePointEscape (u ++ v ++ x) = false → u ++ v ∈ m∗ := by
    intro u hu v _ ih none
    rw [List.append_assoc] at none
    rcases pieces u hu with h | ⟨before, c, hc, rfl, plain⟩
    · exact append_mem_kstar h (ih (by rwa [inert u h] at none))
    · rw [List.append_assoc, plain, holdsCodePointEscape_codePoint hc] at none
      contradiction
  exact kstar_induction (fun _ => Language.nil_mem_kstar _) step h none

lemma mem_kstar_of_escapeFree (pieces : ∀ u ∈ l, OrCodePoint m u) (h : w ∈ l∗)
    (free : EscapeFree w) : w ∈ m∗ := by
  have step : ∀ u ∈ l, ∀ v ∈ l∗, (EscapeFree v → v ∈ m∗) → EscapeFree (u ++ v) → u ++ v ∈ m∗ := by
    intro u hu v _ ih free
    rcases pieces u hu with h | ⟨before, c, hc, rfl, -⟩
    · exact append_mem_kstar h (ih (free.of_infix (List.suffix_append u v).isInfix))
    · exact absurd (free.of_infix ⟨before, v, rfl⟩) (not_escapeFree_codePoint hc)
  exact kstar_induction (fun _ => Language.nil_mem_kstar _) step h free

/-- Whether a language is another one without the members that hold a code point. -/
structure IsPlain (m l : Language Char) : Prop where
  mem_iff : ∀ {w}, w ∈ m ↔ w ∈ l ∧ holdsCodePointEscape w = false
  of_escapeFree : ∀ {w}, w ∈ l → EscapeFree w → w ∈ m

lemma IsPlain.add {m' l' : Language Char} (h : IsPlain m l) (h' : IsPlain m' l') :
    IsPlain (m + m') (l + l') where
  mem_iff := by simp only [Language.mem_add, h.mem_iff, h'.mem_iff, or_and_right, implies_true]
  of_escapeFree member free :=
    member.imp (fun member => h.of_escapeFree member free)
      fun member => h'.of_escapeFree member free

/-- Rows of pieces between delimiters. -/
lemma isPlain_delimited (ha : ∀ c ∈ a, c ≠ '\\') (hb : ∀ c ∈ b, c ≠ '\\') (sub : ∀ u ∈ m, u ∈ l)
    (inert : Inert m) (pieces : ∀ u ∈ l, OrCodePoint m u) :
    IsPlain (exactly a * (m∗ * exactly b)) (exactly a * (l∗ * exactly b)) where
  mem_iff := by
    intro w
    constructor
    · intro h
      have none : holdsCodePointEscape (w ++ []) = false :=
        (inert_exactly ha).mul (inert.kstar.mul (inert_exactly hb)) w h []
      rw [List.append_nil] at none
      have le : m ≤ l := sub
      exact ⟨mul_le_mul_right (mul_le_mul_left (kstar_mono le) _) _ h, none⟩
    · rintro ⟨h, none⟩
      obtain ⟨_, ⟨u, hu, _, rfl, rfl⟩, rfl⟩ := mem_exactly_mul.1 h
      rw [holdsCodePointEscape_append ha] at none
      exact mem_exactly_mul.2 ⟨_, ⟨u, mem_kstar_of_holds inert pieces hu none, _, rfl, rfl⟩, rfl⟩
  of_escapeFree := by
    intro w member free
    obtain ⟨_, ⟨u, hu, _, rfl, rfl⟩, rfl⟩ := mem_exactly_mul.1 member
    have inside : EscapeFree u := free.of_infix ⟨a, _, List.append_assoc _ _ _⟩
    exact mem_exactly_mul.2 ⟨_, ⟨u, mem_kstar_of_escapeFree pieces hu inside, _, rfl, rfl⟩, rfl⟩

lemma orCodePoint_of_isIriChar (hu : u ∈ one isIriChar + codePoint) :
    OrCodePoint (one isIriChar) u :=
  hu.elim .inl orCodePoint_of_mem

lemma isPlain_identifier : IsPlain plainIdentifier identifier :=
  isPlain_delimited (by simp) (by simp) (fun _ => .inl) (inert_one rfl)
    fun _ => orCodePoint_of_isIriChar

lemma ne_backslash_of_isQuote {quote : Char} (isMark : isQuote quote = true) : quote ≠ '\\' := by
  rintro rfl
  cases isMark

lemma isPlain_shortString {quote : Char} (isMark : isQuote quote = true) :
    IsPlain (plainShortString quote) (shortString quote) := by
  have mark : ∀ c ∈ [quote], c ≠ '\\' := by simpa using ne_backslash_of_isQuote isMark
  refine isPlain_delimited mark mark ?_ ((inert_one (by simp)).add inert_escape) ?_
  · rintro u (plain | escaped)
    · exact .inl plain
    · exact .inr (.inl escaped)
  · rintro u (plain | escaped | code)
    · exact .inl (.inl plain)
    · exact .inl (.inr escaped)
    · exact orCodePoint_of_mem code

lemma isPlain_longString {quote : Char} (isMark : isQuote quote = true) :
    IsPlain (plainLongString quote) (longString quote) := by
  have mark : quote ≠ '\\' := ne_backslash_of_isQuote isMark
  have marks : ∀ c ∈ [quote, quote, quote], c ≠ '\\' := by simpa using mark
  have before : Inert (1 + (exactly [quote] + exactly [quote, quote])) := by
    refine Inert.add ?_ ((inert_exactly (by simpa using mark)).add
      (inert_exactly (by simpa using mark)))
    rintro _ rfl x
    rfl
  refine isPlain_delimited marks marks ?_ (before.mul ((inert_one (by simp)).add inert_escape)) ?_
  · rintro _ ⟨u, hu, v, plain | escaped, rfl⟩
    · exact ⟨u, hu, v, .inl plain, rfl⟩
    · exact ⟨u, hu, v, .inr (.inl escaped), rfl⟩
  · rintro _ ⟨u, hu, v, plain | escaped | code, rfl⟩
    · exact .inl ⟨u, hu, v, .inl plain, rfl⟩
    · exact .inl ⟨u, hu, v, .inr escaped, rfl⟩
    · exact .inr ⟨u, v, code, rfl, before u hu⟩

lemma isPlain_string : IsPlain plainString string :=
  ((isPlain_shortString rfl).add (isPlain_shortString rfl)).add
    ((isPlain_longString rfl).add (isPlain_longString rfl))

end Escapes

/-! ## Tokens -/

section Tokens

variable {s : List Char} {t : Token}

/-- What is read as a token of a terminal is a member of it. -/
lemma mem_terminal_of_spells {l : Language Char} (spelled : Spells true t s)
    (notComment : t.isComment = false) (known : ofToken? t = some l) : s ∈ l := by
  have read := first_of_spells spelled notComment (absorbs_nil t)
  rw [List.append_nil] at read
  exact (isLongest_of_first read known).1

lemma number?_of_mem {kind : NumberKind} (member : s ∈ number kind) :
    number? s = some (kind, s) := by
  obtain ⟨kind', x, read, longer⟩ := exists_number? member List.prefix_rfl
  obtain rfl : x = s := (number?_isPrefix read).eq_of_length_le longer.length_le
  rwa [((isLongest_number read).2 kind).1 member]

lemma languageTag?_of_mem {tag : List Char} (member : '@' :: tag ∈ Terminals.languageTag) :
    languageTag? tag = some tag := by
  obtain ⟨_, htag, split⟩ := mem_exactly_mul.1 member
  obtain ⟨primary, hprimary, row, -, rfl⟩ := Language.mem_mul.1 htag
  obtain rfl : tag = primary ++ row := by simpa using split
  obtain ⟨nonempty, letters⟩ := mem_repeated_one.1 hprimary
  have read : languageTag? (primary ++ row) = some _ :=
    languageTag?_eq_some.2 ⟨by
      obtain ⟨c, rest, rfl⟩ := List.exists_cons_of_ne_nil nonempty
      simp [letters c List.mem_cons_self], rfl⟩
  have same := (isLongest_languageTag read).eq_self member
  rw [read, List.cons.inj same |>.2]

lemma variableName?_of_mem {sigil : Char} {name : List Char}
    (member : sigil :: name ∈ variableName) :
    (sigil = '?' ∨ sigil = '$') ∧ variableName? name = some name := by
  obtain ⟨isSigil, hname⟩ := cons_mem_one_mul.1 member
  obtain ⟨c, rest, start, -, rfl⟩ := mem_one_mul.1 hname
  have isSigil : sigil = '?' ∨ sigil = '$' := by simpa using isSigil
  have read : Lexeme.variableName? (c :: rest) = some (c :: rest.takeWhile isVariableTail) := by
    simp [Lexeme.variableName?, start]
  have same := (isLongest_variableName isSigil read).eq_self member
  exact ⟨isSigil, by rw [read, (List.cons.inj same).2]⟩

lemma label?_of_mem {label : List Char} (member : '_' :: ':' :: label ∈ blankNodeLabel) :
    label? label = some label := by
  obtain ⟨_, hlabel, split⟩ := mem_exactly_mul.1 member
  obtain ⟨c, rest, start, -, rfl⟩ := mem_one_mul.1 hlabel
  obtain rfl : label = c :: rest := by simpa using split
  have read : label? (c :: rest) = some (c :: dotted rest) := by simp [label?, start]
  have same := (isLongest_blankNodeLabel read).eq_self member
  rw [read, (List.cons.inj (List.cons.inj same).2).2]

lemma prefixedName?_of_mem {name : List Char} (member : name ∈ prefixedName) :
    prefixedName? name = some name := by
  obtain ⟨run, hrun, _, hlocal, rfl⟩ := Language.mem_mul.1 member
  obtain ⟨part, -, rfl⟩ := mem_exactly_mul.1 hlocal
  obtain ⟨dots, isPrefix⟩ := mem_prefixPart.1 hrun
  have read : prefixedName? (run ++ ':' :: part) = some (run ++ ':' :: localName part) :=
    prefixedName?_eq_some.2 ⟨run, part, rfl, dots, isPrefix, rfl⟩
  have same := (isLongest_prefixedName read).eq_self member
  exact read.trans (congrArg some same)

lemma string?_of_mem {source : List Char} (member : source ∈ string) :
    ∃ quote, isQuote quote = true ∧ string? quote source = some source := by
  obtain ⟨quote, isMark, form⟩ : ∃ quote, isQuote quote = true ∧
      (source ∈ shortString quote ∨ source ∈ longString quote) := by
    rcases member with (h | h) | h | h
    exacts [⟨_, rfl, .inl h⟩, ⟨_, rfl, .inl h⟩, ⟨_, rfl, .inr h⟩, ⟨_, rfl, .inr h⟩]
  obtain ⟨found, read⟩ : ∃ found, string? quote source = some found := by
    rcases form with h | h
    · have short := shortString?_complete isMark h []
      rw [List.append_nil] at short
      cases hlong : longString? quote source <;> simp [string?, hlong, short]
    · have long := longString?_complete isMark h []
      rw [List.append_nil] at long
      simp [string?, long]
  exact ⟨quote, isMark, read.trans (congrArg some ((isLongest_string isMark read).eq_self member))⟩

lemma iriBody?_of_mem {body : List Char} (member : '<' :: (body ++ ['>']) ∈ identifier) :
    iriBody? (body ++ ['>']) = some body := by
  obtain ⟨_, inside, split⟩ := mem_exactly_mul.1 member
  obtain ⟨pieces, hpieces, _, rfl, rfl⟩ := Language.mem_mul.1 inside
  obtain rfl : body = pieces := by simpa using split
  exact iriBody?_complete hpieces []

lemma holdsCodePointEscape_of_mem {body : List Char}
    (member : '<' :: (body ++ ['>']) ∈ plainIdentifier) : holdsCodePointEscape body = false := by
  obtain ⟨_, inside, split⟩ := mem_exactly_mul.1 member
  obtain ⟨pieces, hpieces, _, rfl, rfl⟩ := Language.mem_mul.1 inside
  obtain rfl : body = pieces := by simpa using split
  have inert : Inert (one isIriChar) := inert_one rfl
  simpa [holdsCodePointEscape] using inert.kstar body hpieces []

lemma plainIdentifier_of_read {body : List Char} (read : iriBody? (body ++ ['>']) = some body)
    (none : holdsCodePointEscape body = false) : '<' :: (body ++ ['>']) ∈ plainIdentifier := by
  have plain : body ∈ (one isIriChar)∗ :=
    mem_kstar_of_holds (x := []) (inert_one rfl) (fun _ => orCodePoint_of_isIriChar)
      (iriBody?_mem read) (by simpa using none)
  exact mem_exactly_mul.2 ⟨_, Language.append_mem_mul plain rfl, rfl⟩

lemma word_of_mem_keyword {word : List Char} (h : s ∈ spellings (.keyword word)) :
    word? s = some s ∧ ofWord s = .ok (.keyword word) := by
  obtain ⟨known, written⟩ := h
  split_ifs at written with isType
  · subst isType written
    exact ⟨rfl, by decide +kernel⟩
  · subst written
    have mem := (isGrammarWord_iff.1 known).resolve_right isType
    exact ⟨word?_of_map_upper (keywords_spelled _ mem).1, by
      simp only [ofWord, List.contains_iff_mem.2 mem, if_true]⟩

lemma word_of_mem_boolean {word : List Char} (h : s ∈ spellings (.boolean word)) :
    word? s = some s ∧ ofWord s = .ok (.boolean word) := by
  obtain ⟨mem, rfl⟩ := h
  have same : (s.map lower).map upper = s.map upper := by simp
  have apart : ∀ w ∈ booleanWords, keywords.contains (w.map upper) = false ∧ w ≠ ['a'] := by
    decide +kernel
  obtain ⟨notKeyword, notType⟩ := apart _ mem
  rw [same] at notKeyword
  have notType' : s ≠ ['a'] := by
    rintro rfl
    exact notType rfl
  refine ⟨word?_of_map_upper ?_, ?_⟩
  · have upperWord : ∀ w ∈ booleanWords, word? (w.map upper) = some (w.map upper) := by decide
    rw [← same]
    exact upperWord _ mem
  · simp only [ofWord, notKeyword, Bool.false_eq_true, if_false, beq_iff_eq, notType',
      List.contains_iff_mem.2 mem, if_true]

lemma emptyBrackets_of_mem {opening closing : Char}
    (member : s ∈ emptyBrackets opening closing) :
    ∃ blanks : List Char, (∀ c ∈ blanks, isBlank c = true) ∧
      s = opening :: (blanks ++ [closing]) := by
  obtain ⟨_, inside, rfl⟩ := mem_exactly_mul.1 member
  obtain ⟨blanks, all, _, rfl, rfl⟩ := Language.mem_mul.1 inside
  exact ⟨blanks, mem_kstar_one.1 all, rfl⟩

lemma spells_of_mem (h : s ∈ spellings t) :
    Spells true t s ∧ t.isComment = false ∧ isEscaped t = false := by
  cases t with
  | mark m =>
    refine ⟨?_, rfl, rfl⟩
    cases m
    case emptyParens =>
      obtain ⟨blanks, all, rfl⟩ := emptyBrackets_of_mem h
      exact .emptyParens all
    case emptyBrackets =>
      obtain ⟨blanks, all, rfl⟩ := emptyBrackets_of_mem h
      exact .emptyBrackets all
    all_goals
      obtain rfl := Set.mem_singleton_iff.1 h
      exact .mark _
  | comment body => cases h
  | number kind digits =>
    obtain ⟨rfl, member⟩ := h
    exact ⟨.number (number?_of_mem member) (.inl rfl), rfl, rfl⟩
  | language tag =>
    obtain ⟨rfl, member⟩ := h
    exact ⟨.language (languageTag?_of_mem member), rfl, rfl⟩
  | var name =>
    obtain ⟨member, rfl⟩ := h
    obtain ⟨c, rest, -, -, rfl⟩ := mem_one_mul.1 member
    obtain ⟨isSigil, read⟩ := variableName?_of_mem member
    exact ⟨.var isSigil read, rfl, rfl⟩
  | string source =>
    obtain ⟨rfl, member⟩ := h
    obtain ⟨member, none⟩ := isPlain_string.mem_iff.1 member
    obtain ⟨quote, isMark, read⟩ := string?_of_mem member
    exact ⟨.string isMark read, rfl, none⟩
  | blankNode label =>
    obtain ⟨rfl, member⟩ := h
    exact ⟨.blankNode (label?_of_mem member), rfl, rfl⟩
  | prefixed name =>
    obtain ⟨rfl, member⟩ := h
    exact ⟨.prefixed (prefixedName?_of_mem member), rfl, rfl⟩
  | boolean word =>
    obtain ⟨isWord, read⟩ := word_of_mem_boolean h
    exact ⟨.word isWord read, rfl, rfl⟩
  | keyword word =>
    obtain ⟨isWord, read⟩ := word_of_mem_keyword h
    exact ⟨.word isWord read, rfl, rfl⟩
  | iri body =>
    obtain ⟨rfl, member⟩ := h
    exact ⟨.iri (iriBody?_of_mem (isPlain_identifier.mem_iff.1 member).1), rfl,
      holdsCodePointEscape_of_mem member⟩

lemma mem_of_spells (spelled : Spells true t s) (notComment : t.isComment = false)
    (none : isEscaped t = false) : s ∈ spellings t := by
  have member : ∀ {l}, ofToken? t = some l → s ∈ l := mem_terminal_of_spells spelled notComment
  cases spelled with
  | mark m =>
    cases m
    case emptyParens => exact member rfl
    case emptyBrackets => exact member rfl
    all_goals exact Set.mem_singleton _
  | emptyParens => exact member rfl
  | emptyBrackets => exact member rfl
  | comment => contradiction
  | number read => exact ⟨rfl, ((isLongest_number read).2 _).2 rfl⟩
  | language => exact ⟨rfl, member rfl⟩
  | var => exact ⟨member rfl, rfl⟩
  | string => exact ⟨rfl, isPlain_string.mem_iff.2 ⟨member rfl, none⟩⟩
  | blankNode => exact ⟨rfl, member rfl⟩
  | prefixed => exact ⟨rfl, member rfl⟩
  | word _ read =>
    rcases ofWord_eq_ok read with ⟨rfl, mem⟩ | ⟨rfl, rfl⟩ | ⟨rfl, mem⟩
    · have notType : s.map upper ≠ typeWord := by simpa using (keywords_spelled _ mem).2.2
      exact ⟨isGrammarWord_iff.2 (.inl mem), by rw [if_neg notType]⟩
    · exact ⟨isGrammarWord_iff.2 (.inr rfl), by rw [if_pos rfl]⟩
    · exact ⟨mem, rfl⟩
  | iri read =>
    exact ⟨rfl, plainIdentifier_of_read read none⟩

/-- The standard writes a token as it is read, if no code point is escaped in it. -/
theorem mem_spellings_iff :
    s ∈ spellings t ↔ Spells true t s ∧ t.isComment = false ∧ isEscaped t = false :=
  ⟨spells_of_mem, fun ⟨spelled, notComment, plain⟩ => mem_of_spells spelled notComment plain⟩

/-- No token in a text without code points holds one. -/
lemma not_isEscaped_of_escapeFree {text : List Char} (free : EscapeFree text)
    (spelled : Spells true t s) (inside : s <:+: text) : isEscaped t = false := by
  have free := free.of_infix inside
  cases spelled with
  | string isMark read =>
    have member := mem_terminal_of_spells (.string isMark read) rfl rfl
    exact (isPlain_string.mem_iff.1 (isPlain_string.of_escapeFree member free)).2
  | iri read =>
    have member := mem_terminal_of_spells (.iri read) rfl rfl
    exact holdsCodePointEscape_of_mem (isPlain_identifier.of_escapeFree member free)
  | word _ read => rcases ofWord_eq_ok read with ⟨rfl, -⟩ | ⟨-, rfl⟩ | ⟨rfl, -⟩ <;> rfl
  | _ => rfl

end Tokens

end SparqlFormat.Grammar
