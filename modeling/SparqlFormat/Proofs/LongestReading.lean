import SparqlFormat.Proofs.MaximalMunch
import SparqlFormat.Proofs.Reading

/-!
# The token at the head of a text is the longest one there

The terminals of the language overlap, and `first` tries them in an order that its first character
decides. What comes of it needs no order to be told: of all spellings that a text starts with, the
longest is read. Only a word must be read whole as well: the letters `in` start the text `int`, but
no word ends there (`IsReading`, `first_eq_ok`).

So what is read depends on the spellings that a text starts with and on nothing else about it, and
texts that start with the same ones are read alike.
-/

namespace SparqlFormat

open Lexeme Terminals

/-- A spelling is the longest at the head of a text, and a word is not cut off there. -/
structure IsReading (pointFirst : Bool) (text : List Char) (t : Token) (s : List Char) : Prop where
  spells : Spells pointFirst t s
  atHead : s <+: text
  notComment : t.isComment = false
  longest : ∀ t' s', Spells pointFirst t' s' → t'.isComment = false → s' <+: text →
    s'.length ≤ s.length
  whole : t.isVerbal = true → (text.drop s.length).head?.any isWordTail = false

section

variable {pointFirst : Bool} {text s k : List Char} {t : Token}

/-! ## No token hides a longer one -/

lemma Spells.mem_terminal {terminal : Language Char} (h : Spells pointFirst t s)
    (notComment : t.isComment = false) (known : ofToken? t = some terminal) : s ∈ terminal := by
  have read := first_of_spells h notComment (absorbs_nil t)
  exact (isLongest_of_first read known).1

lemma Spells.le_of_first {t' : Token} {s' : List Char} {terminal : Language Char}
    (h : Spells pointFirst t s) (notComment : t.isComment = false)
    (known : ofToken? t = some terminal) (known' : ofToken? t' = some terminal)
    (read : first pointFirst (s ++ k) = .ok (t', s')) : s.length ≤ s'.length :=
  (isLongest_of_first read known').2.2 s (h.mem_terminal notComment known)
    (List.prefix_append s k)

/-- A number goes on as a number, if it goes on at all. -/
lemma exists_number?_append {kind : NumberKind} {digits : List Char}
    (h : number? digits = some (kind, digits)) (k : List Char) :
    ∃ kind' longer, number? (digits ++ k) = some (kind', longer) := by
  obtain ⟨kind', longer, read, -⟩ :=
    Terminals.exists_number? (((isLongest_number h).2 kind).2 rfl) (List.prefix_append digits k)
  exact ⟨kind', longer, read⟩

lemma exists_number?_point {d : Char} (digit : isDigit d = true) (k : List Char) :
    ∃ kind longer, number? ('.' :: d :: k) = some (kind, longer) := by
  have read : unsigned? ['.', d] = some (.decimal, ['.', d]) :=
    unsigned?_of_point (w := []) (f := [d]) (r := []) (by simp) (by simpa using digit) rfl
  have decimal : number? ['.', d] = some (.decimal, ['.', d]) :=
    number?_eq_some.2 ⟨['.', d], read, rfl⟩
  exact exists_number?_append decimal k

lemma exists_languageTag? {tag : List Char} (h : languageTag? tag = some tag) (k : List Char) :
    ∃ longer, languageTag? (tag ++ k) = some longer := by
  obtain ⟨nonempty, -⟩ := languageTag?_eq_some.1 h
  have letters : (tag ++ k).takeWhile isLetter ≠ [] := by
    cases tag with
    | nil => exact absurd rfl nonempty
    | cons c tag =>
      by_cases letter : isLetter c = true
      · simp [letter]
      · simp [letter] at nonempty
  exact ⟨_, languageTag?_eq_some.2 ⟨letters, rfl⟩⟩

lemma exists_variableName? {name : List Char} (h : Lexeme.variableName? name = some name)
    (k : List Char) : ∃ longer, Lexeme.variableName? (name ++ k) = some longer := by
  cases name with
  | nil => cases h
  | cons c name =>
    obtain ⟨start, -⟩ := Option.ite_none_right_eq_some.1 h
    exact ⟨_, if_pos start⟩

lemma exists_label? {label : List Char} (h : label? label = some label) (k : List Char) :
    ∃ longer, label? (label ++ k) = some longer := by
  cases label with
  | nil => cases h
  | cons c label =>
    obtain ⟨start, -⟩ := Option.ite_none_right_eq_some.1 h
    exact ⟨_, if_pos start⟩

lemma exists_prefixedName? {name : List Char} (h : prefixedName? name = some name)
    (k : List Char) : ∃ longer, prefixedName? (name ++ k) = some longer := by
  obtain ⟨run, rest, -, all, isPrefix, split⟩ := prefixedName?_eq_some.1 h
  have cut : name ++ k = run ++ ':' :: (localName rest ++ k) := by
    rw [split, List.append_assoc, List.cons_append]
  exact ⟨_, prefixedName?_eq_some.2 ⟨run, _, cut, all, isPrefix, rfl⟩⟩

lemma exists_string? {quote : Char} {source : List Char} (isMark : isQuote quote = true)
    (h : string? quote source = some source) (k : List Char) :
    ∃ longer, string? quote (source ++ k) = some longer := by
  unfold string?
  cases long : longString? quote (source ++ k) with
  | some longer => exact ⟨longer, rfl⟩
  | none =>
    rcases string?_eq_some h with isLong | isShort
    · rw [longString?_complete isMark (longString?_mem isMark isLong)] at long
      cases long
    · exact ⟨source, shortString?_complete isMark (shortString?_mem isMark isShort) k⟩

lemma exists_operator {c : Char} (h : c ∈ ['^', '!', '<', '>', '|']) (cs : List Char) :
    ∃ r, operator c cs = .ok r := by
  cases found : operator? c cs.head? with
  | some m => exact ⟨ofMark m, by rw [operator, found]⟩
  | none =>
    unfold operator? at found
    split at found <;> simp_all

/-- A mark goes on as a mark, as an identifier, as a variable or as a number. -/
lemma Mark.exists_first (m : Mark) (k : List Char) :
    ∃ t' s', first pointFirst (m.text ++ k) = .ok (t', s') ∧ m.text.length ≤ s'.length := by
  by_cases parted : m.absorbs pointFirst k = false
  · exact ⟨_, _, first_mark m parted, le_rfl⟩
  rw [Bool.not_eq_false] at parted
  -- a token has a character, which is all that has to be known where the mark has one
  have single : m.text.length = 1 → ∀ {outcome : Except Fault Reading},
      first pointFirst (m.text ++ k) = outcome → (∃ r, outcome = .ok r) →
        ∃ t' s', first pointFirst (m.text ++ k) = .ok (t', s') ∧ m.text.length ≤ s'.length := by
    rintro length _ read ⟨r, rfl⟩
    obtain ⟨c, cs, nonempty, -⟩ := (spells_of_first read).1.head
    exact ⟨r.1, r.2, read, by rw [length, nonempty]; simp⟩
  have signed : ∀ {c : Char}, c = '+' ∨ c = '-' → ∃ r, numberOrSign c k = .ok r := by
    rintro c (rfl | rfl) <;> unfold numberOrSign <;> split <;> simp
  cases m with
  | openParen => exact single rfl rfl ⟨_, by simp [Mark.text, first]; rfl⟩
  | openBracket => exact single rfl rfl ⟨_, by simp [Mark.text, first]; rfl⟩
  | below =>
    refine single rfl (first_below pointFirst k) ?_
    unfold identifierOrOperator
    cases iriBody? k with
    | some body => exact ⟨_, rfl⟩
    | none => exact exists_operator (by decide) k
  | atMost =>
    obtain ⟨body, found⟩ := Option.isSome_iff_exists.1 parted
    refine ⟨.iri body, '<' :: (body ++ ['>']), ?_, by simp [Mark.text]⟩
    exact (first_below pointFirst _).trans (by simp [identifierOrOperator, found])
  | plus => exact single rfl (first_plus pointFirst k) (signed (.inl rfl))
  | minus => exact single rfl (first_minus pointFirst k) (signed (.inr rfl))
  | question =>
    refine single rfl (first_sigil pointFirst (.inl rfl) k) ?_
    unfold variableOrQuestion
    split <;> simp
  | bang =>
    exact single rfl (first_operator pointFirst (by decide) k) (exists_operator (by decide) k)
  | caret =>
    exact single rfl (first_operator pointFirst (by decide) k) (exists_operator (by decide) k)
  | above =>
    exact single rfl (first_operator pointFirst (by decide) k) (exists_operator (by decide) k)
  | bar =>
    exact single rfl (first_operator pointFirst (by decide) k) (exists_operator (by decide) k)
  | dot =>
    obtain ⟨rfl, digit⟩ := Bool.and_eq_true_iff.1 parted
    refine single rfl (first_point digit) ?_
    cases k with
    | nil => cases digit
    | cons d ds =>
      obtain ⟨kind, longer, read⟩ := exists_number?_point digit ds
      have isRead : numberOrSign '.' (d :: ds) = .ok (.number kind longer, longer) := by
        rw [numberOrSign, read]
      exact ⟨_, isRead⟩
  | _ => exact absurd parted Bool.false_ne_true

/-- A word goes on as a prefixed name or as a longer word, which may be none of the language. -/
lemma nameOrWord_append {w : List Char} (hw : word? w = some w) (known : ∃ t, ofWord w = .ok t)
    (k : List Char) :
    (∃ t' s', nameOrWord (w ++ k) = .ok (t', s') ∧ w.length ≤ s'.length) ∨
      (∃ f, nameOrWord (w ++ k) = .error f) ∧ k.head?.any isWordTail = true := by
  obtain ⟨⟨c, rest, start, letter⟩, chars⟩ := word?_chars hw
  cases named : prefixedName? (w ++ k) with
  | some name =>
    obtain ⟨run, rest, cut, all, -, rfl⟩ := prefixedName?_eq_some.1 named
    have atHead : w <+: run := by
      have run_eq : (run ++ ':' :: rest).takeWhile isDottedChar = run :=
        takeWhile_append_stop all rfl
      rw [← run_eq, ← cut]
      exact prefix_takeWhile chars (List.prefix_append w k)
    refine .inl ⟨_, _, by rw [nameOrWord, named], ?_⟩
    exact (atHead.trans (List.prefix_append run _)).length_le
  | none =>
    rw [nameOrWord, named]
    by_cases ends : k.head?.any isWordTail = false
    · obtain ⟨t, ht⟩ := known
      refine .inl ⟨t, w, ?_, le_rfl⟩
      simp only [Lexeme.word, word?_reread hw ends, ht]
    · rw [Bool.not_eq_false] at ends
      subst start
      have whole : rest.takeWhile isWordTail = rest := by
        simpa [word?, letter] using hw
      have goesOn : word? (c :: rest ++ k) = some (c :: (rest ++ k).takeWhile isWordTail) :=
        if_pos letter
      have longer : rest <+: (rest ++ k).takeWhile isWordTail :=
        prefix_takeWhile (fun d mem => of_mem_takeWhile (whole.symm ▸ mem))
          (List.prefix_append rest k)
      cases known' : ofWord (c :: (rest ++ k).takeWhile isWordTail) with
      | ok t' =>
        refine .inl ⟨t', c :: (rest ++ k).takeWhile isWordTail, ?_, ?_⟩
        · simp only [Lexeme.word, goesOn, known']
        · exact Nat.succ_le_succ longer.length_le
      | error f => exact .inr ⟨⟨f, by simp only [Lexeme.word, goesOn, known']⟩, ends⟩

/-- What is read where a spelling stands is at least as long; nothing is read only if the spelling
is a word and the word goes on. -/
theorem Spells.first_append (h : Spells pointFirst t s) (notComment : t.isComment = false)
    (k : List Char) :
    (∃ t' s', first pointFirst (s ++ k) = .ok (t', s') ∧ s.length ≤ s'.length) ∨
      (∃ f, first pointFirst (s ++ k) = .error f) ∧ t.isVerbal = true ∧
        k.head?.any isWordTail = true := by
  by_cases parted : t.absorbs pointFirst k = false
  · exact .inl ⟨t, s, first_of_spells h notComment parted, le_rfl⟩
  -- a token of the same terminal is read; only a word has none
  have same : ∀ {terminal : Language Char} {t' : Token} {s' : List Char},
      ofToken? t = some terminal → ofToken? t' = some terminal →
      first pointFirst (s ++ k) = .ok (t', s') →
      ∃ t' s', first pointFirst (s ++ k) = .ok (t', s') ∧ s.length ≤ s'.length :=
    fun known known' read => ⟨_, _, read, h.le_of_first notComment known known' read⟩
  cases h with
  | mark m => exact .inl (m.exists_first k)
  | emptyParens => exact absurd rfl parted
  | emptyBrackets => exact absurd rfl parted
  | comment => cases notComment
  | number found point =>
    obtain ⟨kind, longer, goesOn⟩ := exists_number?_append found k
    obtain ⟨c, rest, rfl, isRead⟩ := first_number found point
    have read : first pointFirst (c :: rest ++ k) = .ok (.number kind longer, longer) := by
      rw [isRead, numberOrSign, ← List.cons_append, goesOn]
    exact .inl (same rfl rfl read)
  | @language tag found =>
    obtain ⟨longer, goesOn⟩ := exists_languageTag? found k
    have read : first pointFirst ('@' :: tag ++ k) = .ok (.language longer, '@' :: longer) := by
      rw [List.cons_append, first_at, Lexeme.languageTag, goesOn]
    exact .inl (same rfl rfl read)
  | @var sigil name isSigil found =>
    obtain ⟨longer, goesOn⟩ := exists_variableName? found k
    have read : first pointFirst (sigil :: name ++ k) = .ok (.var longer, sigil :: longer) := by
      rw [List.cons_append, first_sigil pointFirst isSigil, variableOrQuestion, goesOn]
    exact .inl (same rfl rfl read)
  | @string quote _ isMark found =>
    obtain ⟨longer, goesOn⟩ := exists_string? isMark found k
    obtain ⟨rest, rfl, isRead⟩ := first_string isMark found
    have read : first pointFirst (quote :: rest ++ k) = .ok (.string longer, longer) := by
      rw [isRead, stringLiteral, ← List.cons_append, goesOn]
    exact .inl (same rfl rfl read)
  | @blankNode label found =>
    obtain ⟨longer, goesOn⟩ := exists_label? found k
    have read : first pointFirst ('_' :: ':' :: label ++ k) =
        .ok (.blankNode longer, '_' :: ':' :: longer) := by
      simp only [List.cons_append, first_underscore, Lexeme.blankNode, goesOn]
    exact .inl (same rfl rfl read)
  | prefixed found =>
    obtain ⟨longer, goesOn⟩ := exists_prefixedName? found k
    have read : first pointFirst (s ++ k) = .ok (.prefixed longer, longer) := by
      rw [first_prefixed found, nameOrWord, goesOn]
    exact .inl (same rfl rfl read)
  | word hw ht =>
    rw [first_word hw]
    exact (nameOrWord_append hw ⟨t, ht⟩ k).imp_right fun stops =>
      ⟨stops.1, isVerbal_of_ofWord ht, stops.2⟩
  | iri => exact absurd rfl parted

/-! ## The longest spelling is read -/

lemma whole_of_first (read : first pointFirst (s ++ k) = .ok (t, s)) (verbal : t.isVerbal = true) :
    k.head?.any isWordTail = false := by
  obtain ⟨spelled, -⟩ := spells_of_first read
  dsimp only at spelled
  cases spelled with
  | word hw ht =>
    rw [first_word hw, nameOrWord] at read
    split at read
    · cases read
      cases verbal
    · obtain ⟨⟨c, rest, rfl, letter⟩, -⟩ := word?_chars hw
      have goesOn : word? (c :: rest ++ k) = some (c :: (rest ++ k).takeWhile isWordTail) :=
        if_pos letter
      have same : (rest ++ k).takeWhile isWordTail = rest := by
        simp only [Lexeme.word, goesOn] at read
        split at read
        · exact (List.cons.inj (congrArg Prod.snd (Except.ok.inj read))).2
        · cases read
      have stop := head?_dropWhile_any isWordTail (rest ++ k)
      have cut := List.takeWhile_append_dropWhile (p := isWordTail) (l := rest ++ k)
      rw [same] at cut
      rwa [List.append_cancel_left cut] at stop
  | _ => cases verbal

/-- Characters are a spelling of one token at most. -/
lemma Spells.unique {t' : Token} (h : Spells pointFirst t s) (h' : Spells pointFirst t' s)
    (notComment : t.isComment = false) (notComment' : t'.isComment = false) : t = t' := by
  have read := first_of_spells h notComment (absorbs_nil t)
  rw [first_of_spells h' notComment' (absorbs_nil t')] at read
  cases read
  rfl

/-- The token at the head of a text is the longest one there. -/
theorem first_eq_ok : first pointFirst text = .ok (t, s) ↔ IsReading pointFirst text t s := by
  constructor
  · intro read
    obtain ⟨spelled, k, rfl⟩ := spells_of_first read
    refine ⟨spelled, List.prefix_append s k, isComment_of_first read, ?_, ?_⟩
    · rintro t' s' spelled' notComment' ⟨k', split⟩
      rcases spelled'.first_append notComment' k' with ⟨t'', s'', read', longer⟩ | ⟨⟨f, fails⟩, -⟩
      · rw [split, read] at read'
        cases read'
        exact longer
      · rw [split, read] at fails
        cases fails
    · intro verbal
      rw [List.drop_left]
      exact whole_of_first read verbal
  · rintro ⟨spelled, ⟨k, rfl⟩, notComment, longest, whole⟩
    rw [List.drop_left] at whole
    rcases spelled.first_append notComment k with ⟨t', s', read, longer⟩ | ⟨-, verbal, goesOn⟩
    · obtain ⟨spelled', atHead'⟩ := spells_of_first read
      have notComment' : t'.isComment = false := by
        obtain ⟨k', split⟩ := atHead'
        exact isComment_of_first (split ▸ read)
      have shorter := longest t' s' spelled' notComment' atHead'
      obtain rfl : s' = s := (List.prefix_of_prefix_length_le atHead' (List.prefix_append s k)
        shorter).eq_of_length (le_antisymm shorter longer)
      rw [read, spelled.unique spelled' notComment notComment']
    · rw [whole verbal] at goesOn
      cases goesOn

/-! ## Texts that are cut off -/

/-- What is read does not depend on how far the text goes on behind it. -/
theorem first_of_prefix {k' : List Char} (read : first pointFirst (s ++ k) = .ok (t, s))
    (cut : k' <+: k) : first pointFirst (s ++ k') = .ok (t, s) := by
  obtain ⟨spelled, -, notComment, longest, whole⟩ := first_eq_ok.1 read
  have shorter : s ++ k' <+: s ++ k := (List.prefix_append_right_inj s).2 cut
  refine first_eq_ok.2 ⟨spelled, List.prefix_append s k', notComment, ?_, fun verbal => ?_⟩
  · exact fun t' s' spelled' notComment' atHead =>
      longest t' s' spelled' notComment' (atHead.trans shorter)
  · have whole := whole verbal
    rw [List.drop_left] at whole ⊢
    obtain ⟨rest, rfl⟩ := cut
    cases k' with
    | nil => rfl
    | cons c k' => exact whole

end

end SparqlFormat
